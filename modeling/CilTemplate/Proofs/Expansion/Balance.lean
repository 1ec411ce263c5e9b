import CilTemplate.Proofs.Entries
import CilTemplate.Proofs.Expansion.Effects
import CilTemplate.Proofs.Expansion.Remainder

/-
The stack before and after expansion.  Code that never runs out of values is
expanded to code that never does and leaves as many.  The exception is a site
whose first value starts with a copy of the target: expansion takes the target
away, and then there may be nothing to copy.
-/

namespace CilTemplate

open CilTemplate.Action PlaceholderNamespace

/-- On a way through the code, the first value of a site starts with a copy of
its target, and in the result nothing lies below the value.  What lies below a
value there are the values in front of it and the receiver. -/
inductive CopiesNothing (expander : Expander) : List CodeItem → Nat → Prop
  | here {site : ReplacedSite} {values : List (List CodeItem)} {rest : List CodeItem}
      {instruction : Instruction Label} (stands : site.Stands expander values rest)
      (bare : site.before = [])
      (first : values.head?.bind List.head? = some (.code instruction))
      (duplicates : instruction.Duplicates) :
      CopiesNothing expander (site.access ++ (site.target ++ (values.flatten ++
        .code (.call site.operation) :: rest))) 0
  | inside {site : ReplacedSite} {values : List (List CodeItem)} {value rest : List CodeItem}
      {number depth : Nat} (stands : site.Stands expander values rest)
      (found : values[number]? = some value)
      (copies : CopiesNothing expander value (depth + site.before.length + number)) :
      CopiesNothing expander (site.access ++ (site.target ++ (values.flatten ++
        .code (.call site.operation) :: rest))) depth
  | behind {item : CodeItem} {rest : List CodeItem} {depth next : Nat}
      (steps : depthBehind? [item] depth = some next)
      (copies : CopiesNothing expander rest next) :
      CopiesNothing expander (item :: rest) depth

namespace CopiesNothing

variable {expander : Expander} {rest : List CodeItem} {depth next : Nat}

theorem append {front : List CodeItem} (steps : depthBehind? front depth = some next)
    (copies : CopiesNothing expander rest next) : CopiesNothing expander (front ++ rest) depth := by
  induction front generalizing depth with
  | nil =>
      cases steps
      exact copies
  | cons item front inductionHypothesis =>
      cases item with
      | mark label => cases steps
      | code instruction =>
          obtain ⟨pops, pushes, effect, enough, others⟩ := hasEffect_of_depthBehind? steps
          exact .behind (effect.depthBehind? enough []) (inductionHypothesis others)

theorem exists_duplication {items : List CodeItem} (copies : CopiesNothing expander items depth) :
    ∃ instruction, instruction.Duplicates ∧ .code instruction ∈ items := by
  induction copies with
  | @here site values rest instruction stands bare first duplicates =>
      obtain ⟨value, isFirst, head⟩ := Option.bind_eq_some_iff.mp first
      have inValues := List.mem_flatten_of_mem (List.mem_of_head? isFirst) (List.mem_of_head? head)
      exact ⟨instruction, duplicates, by simp [inValues]⟩
  | inside stands found copies inductionHypothesis =>
      obtain ⟨instruction, duplicates, inValue⟩ := inductionHypothesis
      have inValues := List.mem_flatten_of_mem (List.mem_of_getElem? found) inValue
      exact ⟨instruction, duplicates, by simp [inValues]⟩
  | behind steps copies inductionHypothesis =>
      obtain ⟨instruction, duplicates, inRest⟩ := inductionHypothesis
      exact ⟨instruction, duplicates, List.mem_cons_of_mem _ inRest⟩

end CopiesNothing

section

variable {expander : Expander} {objects : List CapturedObject} {accessors : List Accessor}

mutual

/-- The result takes the same way as the template. -/
theorem Trace.output_depth (returns : List.Forall₂ Accessor.Returns objects accessors)
    (trace : Trace) (valid : trace.Valid expander objects)
    (conventions : Conventions expander trace.items) {depth last : Nat}
    (runs : depthBehind? trace.items depth = some last)
    (grounded : ¬ CopiesNothing expander trace.items depth) (offset : Int) :
    depthBehind? (Part.flatten (trace.output offset accessors)) depth = some last := by
  cases trace with
  | done => exact runs
  | shared item rest =>
      rcases valid with ⟨_, restValid⟩
      rw [Trace.items_shared] at conventions runs grounded
      cases item with
      | mark label => cases runs
      | code instruction =>
          obtain ⟨pops, pushes, effect, enough, others⟩ := hasEffect_of_depthBehind? runs
          have further := Trace.output_depth returns rest restValid
            (conventions.of_subset (List.subset_cons_self _ _)) others
            (fun copies => grounded (.behind (effect.depthBehind? enough []) copies)) offset
          rw [Trace.output, Part.flatten_cons]
          exact ((effect.shifted offset).depthBehind? enough _).trans further
  | read read value load copy rest =>
      rcases valid with ⟨answered, loads, _, restValid⟩
      rw [Trace.items_read] at conventions runs grounded
      have steps := conventions.read_depth answered [] depth
      rw [List.append_nil] at steps
      rw [conventions.read_depth answered] at runs
      have further := Trace.output_depth returns rest restValid
        (conventions.of_subset (List.subset_append_right _ _)) runs
        (fun copies => grounded (copies.append steps)) offset
      rw [Trace.output, Part.flatten_cons, Part.flatten_cons, Part.ownCode, Part.items, Part.items,
        conventions.load_depth returns loads, depthBehind?_copyCode]
      exact further
  | site site values rest =>
      rcases valid with ⟨stands, valuesValid, restValid⟩
      obtain ⟨kind, classified, acts⟩ := stands.acts
      rw [Trace.items_site] at conventions runs grounded
      have steps := conventions.site_depth stands (List.subset_append_left _ _) [] depth
      rw [conventions.site_depth stands (List.subset_append_left _ _)] at runs
      have balanced := conventions.acts_balanced (by simp) stands.operates classified
        stands.arity acts
      have filled : ∀ instruction,
          values.items.head?.bind List.head? = some (.code instruction) →
            instruction.Duplicates → 0 < depth + site.before.length := by
        intro instruction first duplicates
        rcases Nat.eq_zero_or_pos (depth + site.before.length) with empty | filled
        · obtain ⟨rfl, bare⟩ := Nat.add_eq_zero_iff.mp empty
          exact absurd (.here stands (List.eq_nil_of_length_eq_zero bare) first duplicates) grounded
        · exact filled
      have restGrounded :
          ¬ CopiesNothing expander rest.items (depth + site.operation.callPushes) := by
        intro copies
        have whole := copies.append steps
        exact grounded (by simpa using whole)
      have valuesRun := TraceValues.output_depth returns values valuesValid
        (fun value member => conventions.of_subset fun item inside => by
          have inValues := List.mem_flatten_of_mem member inside
          simp [inValues])
        stands.separate.tail.values (depth + site.before.length) filled
        (fun number value found copies => grounded (.inside stands found copies)) offset
      have further := Trace.output_depth returns rest restValid
        (conventions.of_subset (by intro item member; simp [member])) runs restGrounded offset
      rw [Trace.output, Part.flatten_cons, Part.flatten_append, Part.flatten_cons, Part.ownCode,
        Part.ownCode, Part.items, Part.items, depthBehind?_append_of (balanced.before depth),
        depthBehind?_append_of valuesRun, depthBehind?_append_of (balanced.after depth)]
      exact further

theorem TraceValues.output_depth (returns : List.Forall₂ Accessor.Returns objects accessors)
    (values : TraceValues) (valid : values.Valid expander objects)
    (conventions : ∀ value ∈ values.items, Conventions expander value)
    (computes : ∀ value ∈ values.items, ComputesValue value) (depth : Nat)
    (filled : ∀ instruction, values.items.head?.bind List.head? = some (.code instruction) →
      instruction.Duplicates → 0 < depth)
    (grounded : ∀ number value, values.items[number]? = some value →
      ¬ CopiesNothing expander value (depth + number)) (offset : Int) :
    depthBehind? (Part.flatten (values.output offset accessors).flatten) depth =
      some (depth + values.items.length) := by
  cases values with
  | none => rfl
  | value code rest =>
      rcases valid with ⟨codeValid, restValid⟩
      change ∀ value ∈ code.items :: rest.items, _ at conventions computes
      obtain ⟨codeConventions, restConventions⟩ := List.forall_mem_cons.mp conventions
      obtain ⟨codeComputes, restComputes⟩ := List.forall_mem_cons.mp computes
      have one := Trace.output_depth returns code codeValid codeConventions
        (codeComputes.depthBehind? filled) (grounded 0 code.items rfl) offset
      have more := TraceValues.output_depth returns rest restValid restConventions restComputes
        (depth + 1) (fun _ _ _ => Nat.succ_pos depth)
        (fun number value found => by
          rw [Nat.add_assoc, Nat.add_comm 1]
          exact grounded (number + 1) value found) offset
      rw [TraceValues.output, List.flatten_cons, Part.flatten_append, depthBehind?_append_of one,
        more]
      change _ = some (depth + (rest.items.length + 1))
      rw [Nat.add_assoc, Nat.add_comm 1]

end

end

namespace Expander

variable {Builder : Type} [TypeBuilder Builder]

/-- Expansion keeps the stack.  Straight code that never takes a value that is
not there is expanded to such code, and both leave the same number of values,
unless the code copies a target and the result has nothing to copy. -/
theorem expand_preserves_depth {expander : Expander} {body expanded : Body}
    {accessors : List Accessor} {workspace after : Workspace Builder} {depth last : Nat}
    (getters : TypeBuilder.MakesGetters Builder)
    (conventions : Conventions expander (expander.trimmed body.items))
    (done : run (expander.expand body) workspace = (.ok (expanded, accessors), after))
    (runs : depthBehind? (expander.trimmed body.items) depth = some last)
    (grounded : ¬ CopiesNothing expander (expander.trimmed body.items) depth) :
    depthBehind? expanded.items depth = some last := by
  obtain ⟨pass, output, trace, traced, _, placed, defined⟩ := expand_eq_ok done
  have returns : List.Forall₂ Accessor.Returns pass.objects accessors := by
    refine defined.imp ?_
    rintro object accessor ⟨before, later, defines⟩
    obtain ⟨name, code, start, stop, made⟩ := Accessor.define_eq_ok defines
    exact getters name object.type code start stop accessor.method made
  rw [placed, traced.output accessors]
  rw [← traced.input] at conventions runs grounded
  exact trace.output_depth returns (traced.valid _ (List.prefix_refl _)) conventions runs grounded
    _

end Expander

theorem CaptureContext.mem_of_gives {closure : Closure} {site : CaptureSite}
    {value : CapturedValue}
    (given : (CaptureContext.mk (some closure.object) none).Gives site value) :
    value ∈ closure.fields.map Prod.snd ++ closure.getters.map Prod.snd := by
  obtain ⟨found, count, known, answered⟩ := given
  rcases site with ⟨kind, member⟩
  cases kind with
  | callback => cases known
  | template =>
      cases known
      cases member with
      | field field =>
          simp only [Closure.object, Closure.readField] at answered
          split at answered
          · rename_i held looked
            cases answered
            exact List.mem_append_left _ (mem_of_lookup looked)
          · cases answered
      | getter getter =>
          simp only [Closure.object, Closure.readGetter] at answered
          split at answered
          · rename_i held looked
            cases answered
            exact List.mem_append_right _ (mem_of_lookup looked)
          · cases answered

def callsReturn (items : List CodeItem) : Bool :=
  items.all fun item =>
    match item with
    | .code (.call operation) =>
        match classify operation with
        | .ok kind => kind == .call || operation.returnsVoid == decide (kind = .set)
        | .error _ => true
    | _ => true

theorem returnsVoid_of_callsReturn {items : List CodeItem} (returns : callsReturn items = true)
    {operation : Method} {kind : PlaceholderKind} (member : .code (.call operation) ∈ items)
    (classified : classify operation = .ok kind) (accessed : kind ≠ .call) :
    operation.returnsVoid = decide (kind = .set) := by
  have here := List.all_eq_true.mp returns _ member
  simp only [classified, Bool.or_eq_true, beq_iff_eq] at here
  exact here.resolve_left accessed

namespace BalanceSample

open NestedSample

def capturing (values : List (Field × CapturedValue)) : Expander :=
  { expander with captures := ⟨some (Closure.object ⟨closureType, values, [], []⟩), none⟩ }

def isProperty : CapturedValue → Bool
  | .member (.property _) => true
  | _ => false

theorem memberConventions (values : List (Field × CapturedValue)) {items : List CodeItem}
    (returns : callsReturn items = true)
    (noProperties : values.all (fun entry => !isProperty entry.2) = true) :
    MemberConventions (capturing values) items := by
  have absent : ∀ site property,
      ¬ (capturing values).captures.Gives site (.member (.property property)) := by
    intro site property given
    have held := CaptureContext.mem_of_gives given
    rw [List.map_nil, List.append_nil] at held
    obtain ⟨entry, member, same⟩ := List.mem_map.mp held
    have here := List.all_eq_true.mp noProperties entry member
    rw [same] at here
    cases here
  exact {
    operation := fun operation kind member _ classified accessed =>
      returnsVoid_of_callsReturn returns member classified accessed
    closureGetter := fun kind getter member => by cases kind <;> cases member
    propertyGetter := fun site property given => absurd given (absent site property)
    propertySetter := fun site property given => absurd given (absent site property) }

def callsStatic : CodeItem → Bool
  | .code (.call method) => method.isStatic
  | _ => false

theorem conventions : Conventions expander (expander.trimmed body.items) where
  toMemberConventions := memberConventions closure.fields (by decide +kernel) (by decide)
  access := by
    have fields : (expander.trimmed body.items).all (fun item => !callsStatic item) = true := by
      decide +kernel
    intro method member accesses
    have here := List.all_eq_true.mp fields _ member
    simp only [callsStatic, Bool.not_eq_true'] at here
    simp only [accessLength?, here, Bool.false_and, Bool.false_eq_true, if_false] at accesses
    cases accesses
  object := by
    intro site object given
    have held := CaptureContext.mem_of_gives given
    have same : object = payload := by
      simpa [NestedSample.closure] using held
    rw [same]
    decide

def isDuplication : CodeItem → Bool
  | .code (.raw opcode _) => opcode == Opcode.dup
  | _ => false

theorem no_copies : ¬ CopiesNothing expander (expander.trimmed body.items) 0 := by
  have others : (expander.trimmed body.items).all (fun item => !isDuplication item) = true := by
    decide +kernel
  intro copies
  obtain ⟨_, ⟨operand, rfl⟩, member⟩ := copies.exists_duplication
  cases List.all_eq_true.mp others _ member

end BalanceSample

open NestedSample BalanceSample in
theorem expand_preserves_depth_three_deep :
    ∃ expanded accessors after,
      run (expander.expand body) workspace = (.ok (expanded, accessors), after) ∧
      depthBehind? body.items.dropLast 0 = some 0 ∧ depthBehind? expanded.items 0 = some 0 := by
  have isOk : (run (expander.expand body) workspace).1.toOption.isSome = true := by
    decide +kernel
  obtain ⟨⟨expanded, accessors⟩, done⟩ := Option.isSome_iff_exists.mp isOk
  have runs : depthBehind? (expander.trimmed body.items) 0 = some 0 := by decide +kernel
  exact ⟨expanded, accessors, _, run_eq_ok_of_toOption done, by decide +kernel,
    Expander.expand_preserves_depth Draft.makesGetters conventions (run_eq_ok_of_toOption done)
      runs no_copies⟩

namespace BalanceSample

open NestedSample

/-- Expansion succeeds, and its result does not leave what the template
leaves. -/
def Unbalances (expander : Expander) (body : Body) : Prop :=
  MemberConventions expander (expander.trimmed body.items) ∧
    ∃ expanded accessors after last,
      run (expander.expand body) workspace = (.ok (expanded, accessors), after) ∧
      depthBehind? (expander.trimmed body.items) 0 = some last ∧
      depthBehind? expanded.items 0 ≠ some last

theorem unbalances {expander : Expander} {body : Body} (last : Nat) (other : Option Nat)
    (conventions : MemberConventions expander (expander.trimmed body.items))
    (before : depthBehind? (expander.trimmed body.items) 0 = some last)
    (behind : (run (expander.expand body) workspace).1.toOption.map
      (fun result => depthBehind? result.1.items 0) = some other)
    (different : other ≠ some last) : Unbalances expander body := by
  obtain ⟨⟨expanded, accessors⟩, done, rfl⟩ := Option.map_eq_some_iff.mp behind
  exact ⟨conventions, expanded, accessors, _, last, run_eq_ok_of_toOption done, before, different⟩

def staticCount : Field := { count with flags := Field.staticFlag }

def copying : Body :=
  ⟨[], access ++ (read 1).items ++
    [.code (.raw Opcode.dup .none), .code (.call (operation 3 "Set" 2 voidType)), .code .ret]⟩

def surrogateOf : Method :=
  ⟨⟨0x06000003⟩, "Of", surrogateType, [valueType], some surrogateType, Method.staticFlag⟩

def withArgument : Body :=
  ⟨[], [.code (.argument .load 1), .code (.call surrogateOf)] ++ (read 1).items ++
    [.code (.call (operation 1 "Get" 1 valueType)), .code (.raw Opcode.pop .none), .code .ret]⟩

def dropping : Body :=
  ⟨[], (read 4).items ++ [.code (.raw Opcode.pop .none), .code .ret]⟩

end BalanceSample

open NestedSample BalanceSample in
theorem expand_unbalances :
    Unbalances (capturing [(captured 1, .member (.field staticCount))]) copying ∧
      Unbalances (capturing [(captured 1, .member (.field staticCount))]) withArgument ∧
      Unbalances (capturing [(captured 4, .object ⟨voidType, 1⟩)]) dropping :=
  ⟨unbalances 0 none (memberConventions _ (by decide +kernel) (by decide))
      (by decide +kernel) (by decide +kernel) (by decide),
    unbalances 0 (some 1) (memberConventions _ (by decide +kernel) (by decide))
      (by decide +kernel) (by decide +kernel) (by decide),
    unbalances 0 none (memberConventions _ (by decide +kernel) (by decide))
      (by decide +kernel) (by decide +kernel) (by decide)⟩

end CilTemplate
