import CilTemplate.Proofs.Expansion.Insertions

/-
Arguments of a template and of the method that it is expanded into.  Accesses to
declared parameters lead to the parameters with the same numbers, and receivers
are loaded for instance members.  An access of the template to its own receiver,
other than a load, passes for one to the receiver of the destination.
-/

namespace CilTemplate

open CilTemplate.Action

def Instruction.argumentAccess? {Target : Type} :
    Instruction Target → Option (Access × UInt16)
  | .argument access index => some (access, index)
  | .raw opcode operand => opcode.argumentAccess? operand
  | _ => none

/-- The member belongs to an object, whose place on the stack is in front of the
values. -/
def Instruction.TakesReceiver : Instruction Label → Prop
  | .field place _ _ => place = .ofObject
  | .call method => method.isStatic = false
  | _ => False

namespace ExpansionOptions

def receivers (isStatic : Bool) : Nat :=
  if isStatic then 0 else 1

/-- The number of the declared parameter that an argument index stands for. -/
def parameter? (isStatic : Bool) (index : UInt16) : Option Nat :=
  if receivers isStatic ≤ index.toNat then some (index.toNat - receivers isStatic) else none

theorem parameter?_eq_some {isStatic : Bool} {index : UInt16} (number : Nat)
    (same : index.toNat = number + receivers isStatic) :
    parameter? isStatic index = some number := by
  rw [parameter?, same, if_pos (Nat.le_add_left _ _), Nat.add_sub_cancel]

theorem offsetBetween_eq (templateIsStatic destinationIsStatic : Bool) :
    offsetBetween templateIsStatic destinationIsStatic =
      receivers destinationIsStatic - receivers templateIsStatic := by
  cases templateIsStatic <;> cases destinationIsStatic <;> rfl

theorem receivers_cases (isStatic : Bool) :
    receivers isStatic = 0 ∨ isStatic = false ∧ receivers isStatic = 1 := by
  cases isStatic
  · exact Or.inr ⟨rfl, rfl⟩
  · exact Or.inl rfl

end ExpansionOptions

def CodeItem.Still (item : CodeItem) : Prop :=
  ∀ instruction, item = .code instruction → instruction.argumentAccess? = none

theorem CodeItem.Still.of_code {instruction : Instruction Label}
    (still : instruction.argumentAccess? = none) : (CodeItem.code instruction).Still := by
  rintro _ ⟨⟩
  exact still

/-- A site that stands in the template at a place, with the items of its values. -/
structure ReplacedSite.StandsAt (expander : Expander) (template : List CodeItem)
    (site : ReplacedSite) (place : Nat) (values : List (List CodeItem)) : Prop where
  found : ∃ front behind, front.length = place ∧
    template = front ++ (site.access ++ (site.target ++ (values.flatten ++
      .code (.call site.operation) :: behind)))
  acts : ∃ kind, PlaceholderNamespace.classify site.operation = .ok kind ∧
    site.Acts expander values.length kind

/-- Places in ascending order, within a stretch of the template. -/
structure Ascends (first last : Nat) (origins : List (Option Nat)) : Prop where
  ascending : (origins.filterMap id).Pairwise (· < ·)
  within : ∀ place ∈ origins.filterMap id, first ≤ place ∧ place < last

/-- The items of the result with the places in the template that they come from,
if any.  It says for every access to an argument what it stands for. -/
inductive ArgumentsFrom (expander : Expander) (template : List CodeItem) :
    List (Option Nat) → List CodeItem → Prop
  | nil : ArgumentsFrom expander template [] []
  | other {origin : Option Nat} {origins : List (Option Nat)} {item : CodeItem}
      {items : List CodeItem} (still : item.Still)
      (rest : ArgumentsFrom expander template origins items) :
      ArgumentsFrom expander template (origin :: origins) (item :: items)
  /-- The receiver of an instance member.  Both replace one site: the load stands
  in front of the values of the site, and the member behind them. -/
  | receiver {site : ReplacedSite} {place : Nat} {sources : List (List CodeItem)}
      {inside origins : List (Option Nat)} {values items : List CodeItem}
      {member : Instruction Label} {more : List (Instruction Label)}
      (destination : expander.options.destinationIsStatic = false)
      (stands : site.StandsAt expander template place sources)
      (before : site.before = [.argument .load 0]) (after : site.after = member :: more)
      (takes : member.TakesReceiver)
      (ascends : Ascends (place + site.access.length + site.target.length)
        (place + site.access.length + site.target.length + sources.flatten.length) inside)
      (within : ArgumentsFrom expander template inside values)
      (rest : ArgumentsFrom expander template origins (more.map CodeItem.code ++ items)) :
      ArgumentsFrom expander template (none :: (inside ++ none :: origins))
        (.code (.argument .load 0) ::
          (values ++ .code member :: (more.map CodeItem.code ++ items)))
  /-- A declared parameter with its number. -/
  | parameter {place number : Nat} {access : Access} {source index : UInt16}
      {origins : List (Option Nat)} {items : List CodeItem}
      (found : template[place]? = some (.code (.argument access source)))
      (before : ExpansionOptions.parameter? expander.options.templateIsStatic source =
        some number)
      (after : ExpansionOptions.parameter? expander.options.destinationIsStatic index =
        some number)
      (rest : ArgumentsFrom expander template origins items) :
      ArgumentsFrom expander template (some place :: origins)
        (.code (.argument access index) :: items)
  /-- The template's own receiver becomes that of the destination. -/
  | ownReceiver {place : Nat} {access : Access} {origins : List (Option Nat)}
      {items : List CodeItem}
      (found : template[place]? = some (.code (.argument access 0)))
      (before : expander.options.templateIsStatic = false)
      (after : expander.options.destinationIsStatic = false) (changes : access ≠ .load)
      (rest : ArgumentsFrom expander template origins items) :
      ArgumentsFrom expander template (some place :: origins)
        (.code (.argument access 0) :: items)
  /-- Raw code stays as it is.  A template that was decoded accesses no argument
  with it. -/
  | untyped {place : Nat} {opcode : Opcode} {operand : Operand Label}
      {origins : List (Option Nat)} {items : List CodeItem}
      (found : template[place]? = some (.code (.raw opcode operand)))
      (rest : ArgumentsFrom expander template origins items) :
      ArgumentsFrom expander template (some place :: origins)
        (.code (.raw opcode operand) :: items)

namespace Ascends

variable {first middle last : Nat} {left right origins : List (Option Nat)}

theorem none (ascends : Ascends first last origins) : Ascends first last (.none :: origins) :=
  ⟨ascends.ascending, ascends.within⟩

theorem nil : Ascends first last [] :=
  ⟨.nil, List.forall_mem_nil _⟩

theorem widen {start stop : Nat} (ascends : Ascends first last origins) (less : start ≤ first)
    (more : last ≤ stop) : Ascends start stop origins where
  ascending := ascends.ascending
  within place member :=
    (ascends.within place member).imp less.trans fun below => Nat.lt_of_lt_of_le below more

theorem append (front : Ascends first middle left) (back : Ascends middle last right)
    (start : first ≤ middle) (stop : middle ≤ last) : Ascends first last (left ++ right) where
  ascending := by
    rw [List.filterMap_append, List.pairwise_append]
    refine ⟨front.ascending, back.ascending, ?_⟩
    intro earlier inFront later inBack
    exact Nat.lt_of_lt_of_le (front.within earlier inFront).2 (back.within later inBack).1
  within place member := by
    rw [List.filterMap_append, List.mem_append] at member
    rcases member with inFront | inBack
    · exact (front.widen (Nat.le_refl _) stop).within place inFront
    · exact (back.within place inBack).imp_left start.trans

theorem cons {place : Nat} (back : Ascends (place + 1) last origins) (stop : place < last) :
    Ascends place last (some place :: origins) := by
  have front : Ascends place (place + 1) [some place] :=
    ⟨List.pairwise_singleton _ _, List.forall_mem_singleton.mpr ⟨Nat.le_refl _, Nat.lt_succ_self _⟩⟩
  exact front.append back (Nat.le_succ _) stop

end Ascends

section

variable {expander : Expander} {objects : List CapturedObject}

theorem SiteCode.Accesses.still {access : Access} {member : Member} {needed : Bool}
    {instruction : Instruction Label}
    (accesses : SiteCode.Accesses access member needed instruction) :
    instruction.argumentAccess? = none ∧ (needed = true → instruction.TakesReceiver) := by
  cases accesses with
  | field access field =>
      refine ⟨rfl, fun needed => ?_⟩
      rw [Bool.not_eq_true'] at needed
      simp [Instruction.TakesReceiver, SiteCode.fieldPlace, needed]
  | localSlot => exact ⟨rfl, fun needed => absurd needed Bool.false_ne_true⟩
  | getter | setter => exact ⟨rfl, fun needed => (Bool.not_eq_true' _).mp needed⟩

/-- In front of the values there is at most the receiver of the member that is
accessed behind them. -/
theorem ReplacedSite.Acts.receiver {site : ReplacedSite} {kind : PlaceholderKind} {count : Nat}
    (acts : site.Acts expander count kind) :
    (site.before = [] ∨ site.before = [.argument .load 0] ∧
      expander.options.destinationIsStatic = false ∧
      ∃ member more, site.after = member :: more ∧ member.TakesReceiver) ∧
    ∀ instruction ∈ site.after, instruction.argumentAccess? = none := by
  have of_receiver : ∀ {needed : Bool} {name : String} {member : Instruction Label}
      {more : List (Instruction Label)},
      SiteCode.receiver expander.options needed name = .ok site.before →
      site.after = member :: more → (needed = true → member.TakesReceiver) →
      site.before = [] ∨ site.before = [.argument .load 0] ∧
        expander.options.destinationIsStatic = false ∧
        ∃ member more, site.after = member :: more ∧ member.TakesReceiver := by
    intro needed name member more found after takes
    cases needed with
    | false => exact Or.inl (Except.ok.inj found).symm
    | true =>
        obtain ⟨destination, before⟩ := SiteCode.receiver_eq_ok found
        exact Or.inr ⟨before, destination, member, more, after, takes rfl⟩
  cases acts with
  | member accesses target byValue answered code =>
      obtain ⟨needed, instruction, found, after, accessed⟩ := ofMember_eq_ok code
      obtain ⟨still, takes⟩ := accessed.still
      refine ⟨of_receiver found after takes, ?_⟩
      rw [after, List.forall_mem_singleton]
      exact still
  | @call method target code =>
      obtain ⟨_, found, cases_⟩ := ofCall_eq_ok code
      have takes : (!method.isStatic) = true → (.call method : Instruction Label).TakesReceiver :=
        fun needed => (Bool.not_eq_true' _).mp needed
      rcases cases_ with ⟨_, after⟩ | ⟨_, _, after⟩
      · refine ⟨of_receiver found after takes, ?_⟩
        rw [after, List.forall_mem_singleton]
        rfl
      · refine ⟨of_receiver found after takes, ?_⟩
        rw [after, List.forall_mem_cons, List.forall_mem_singleton]
        exact ⟨rfl, rfl⟩

theorem Loads.still {value : CapturedValue} {load : ExpandedItem}
    (loads : Loads expander.captures objects value load) (accessors : List Accessor) :
    ∀ item ∈ Expander.placeCalls accessors [load], item.Still := by
  cases loads with
  | literal literal =>
      obtain ⟨opcode, operand, rfl, _, still, _⟩ := Instruction.plainly_of_literal literal
      have noArgument : (.raw opcode operand : Instruction Label).argumentAccess? = none := still
      exact List.forall_mem_singleton.mpr (.of_code noArgument)
  | @object object known number found same given =>
      rw [Expander.placeCalls, Expander.placeCalls, List.append_nil]
      cases accessors[number]? with
      | none => exact List.forall_mem_nil _
      | some accessor => exact List.forall_mem_singleton.mpr (.of_code rfl)

theorem still_copyCode (copy : Option Local) :
    ∀ item ∈ (copyCode copy).map CodeItem.code, item.Still := by
  cases copy with
  | none => exact List.forall_mem_nil _
  | some slot =>
      exact List.forall_mem_cons.mpr ⟨.of_code rfl, List.forall_mem_singleton.mpr (.of_code rfl)⟩

end

/-- Code of the result that comes from a stretch of the template. -/
def ComesFrom (expander : Expander) (template : List CodeItem) (first length : Nat)
    (items : List CodeItem) : Prop :=
  ∃ origins, Ascends first (first + length) origins ∧
    ArgumentsFrom expander template origins items

section

open ExpansionOptions (offsetBetween offsetBetween_eq receivers receivers_cases parameter?_eq_some)

variable {expander : Expander} {template items : List CodeItem} {origins : List (Option Nat)}

namespace ArgumentsFrom

theorem append {others : List (Option Nat)} {more : List CodeItem}
    (front : ArgumentsFrom expander template origins items)
    (back : ArgumentsFrom expander template others more) :
    ArgumentsFrom expander template (origins ++ others) (items ++ more) := by
  induction front with
  | nil => exact back
  | other still _ rest => exact .other still rest
  | receiver destination stands before after takes ascends within _ _ rest =>
      rw [List.append_assoc] at rest
      simpa using ArgumentsFrom.receiver destination stands before after takes ascends within rest
  | parameter found before after _ rest => exact .parameter found before after rest
  | ownReceiver found before after changes _ rest =>
      exact .ownReceiver found before after changes rest
  | untyped found _ rest => exact .untyped found rest

variable (conventions : expander.options.argumentOffset =
  offsetBetween expander.options.templateIsStatic expander.options.destinationIsStatic)

include conventions

/-- An access that passes through names the same parameter on both sides, unless
it names the receiver on both. -/
theorem shifted_argument {place : Nat} {access : Access} {source : UInt16}
    (plain : (Instruction.argument access source : Instruction Label).Plain expander)
    (found : template[place]? = some (.code (.argument access source)))
    (rest : ArgumentsFrom expander template origins items) :
    ArgumentsFrom expander template (some place :: origins)
      (.code ((Instruction.argument access source).shifted expander.options.argumentOffset) ::
        items) := by
  obtain ⟨low, high⟩ := plain.argument access source rfl
  have small : (source.toNat + expander.options.argumentOffset).toNat < UInt16.size := by
    change _ < 65536
    omega
  have index := UInt16.toNat_ofNat_of_lt' small
  change ((source.toNat + expander.options.argumentOffset).toNat.toUInt16).toNat = _ at index
  rw [Instruction.shifted]
  generalize (source.toNat + expander.options.argumentOffset).toNat.toUInt16 = shifted at index
  rw [conventions, offsetBetween_eq] at index low
  by_cases declared : receivers expander.options.templateIsStatic ≤ source.toNat
  · have number := Nat.sub_add_cancel declared
    exact .parameter found (parameter?_eq_some _ number.symm)
      (parameter?_eq_some _ (by omega)) rest
  · -- Index zero stands for a receiver, which then the destination has as well.
    obtain ⟨template_, before⟩ := (receivers_cases expander.options.templateIsStatic).resolve_left
      (by omega)
    obtain ⟨destination, after⟩ :=
      (receivers_cases expander.options.destinationIsStatic).resolve_left (by omega)
    obtain rfl : source = 0 := UInt16.toNat_inj.mp (by change source.toNat = 0; omega)
    obtain rfl : shifted = 0 := UInt16.toNat_inj.mp (by change shifted.toNat = 0; omega)
    refine .ownReceiver found template_ destination ?_ rest
    rintro rfl
    exact plain.receiver (by rw [ExpansionOptions.receiverCaptures, template_]; rfl) rfl

theorem shared {place : Nat} {source : CodeItem} (passes : source.Passes expander)
    (found : template[place]? = some source)
    (rest : ArgumentsFrom expander template origins items) :
    ArgumentsFrom expander template (some place :: origins)
      (source.shifted expander.options.argumentOffset :: items) := by
  cases source with
  | mark label => exact .other (fun _ same => by cases same) rest
  | code instruction =>
      cases instruction with
      | argument access source => exact shifted_argument conventions passes found rest
      | raw opcode operand => exact .untyped found rest
      | _ => exact .other (.of_code rfl) rest

end ArgumentsFrom

namespace ComesFrom

variable {first length others : Nat} {more : List CodeItem}

theorem nil : ComesFrom expander template first 0 [] :=
  ⟨[], .nil, .nil⟩

theorem append (front : ComesFrom expander template first length items)
    (back : ComesFrom expander template (first + length) others more) :
    ComesFrom expander template first (length + others) (items ++ more) := by
  obtain ⟨left, ascendsLeft, here⟩ := front
  obtain ⟨right, ascendsRight, there⟩ := back
  rw [Nat.add_assoc] at ascendsRight
  exact ⟨left ++ right, ascendsLeft.append ascendsRight (by omega) (by omega), here.append there⟩

theorem own (still : ∀ item ∈ items, item.Still) :
    ComesFrom expander template first length items := by
  induction items with
  | nil => exact ⟨[], .nil, .nil⟩
  | cons item rest inductionHypothesis =>
      obtain ⟨here, later⟩ := List.forall_mem_cons.mp still
      obtain ⟨origins, ascends, behind⟩ := inductionHypothesis later
      exact ⟨none :: origins, ascends.none, .other here behind⟩

theorem site {site : ReplacedSite} {values : List (List CodeItem)}
    (stands : site.StandsAt expander template first values)
    (inside : ComesFrom expander template (first + site.access.length + site.target.length)
      values.flatten.length items) :
    ComesFrom expander template first
      (site.access.length + site.target.length + values.flatten.length + 1)
      (site.before.map CodeItem.code ++ (items ++ site.after.map CodeItem.code)) := by
  obtain ⟨_, _, acts⟩ := stands.acts
  obtain ⟨before, still⟩ := acts.receiver
  obtain ⟨origins, ascends, within⟩ := inside
  rcases before with nothing | ⟨same, destination, member, more, after, takes⟩
  · obtain ⟨others, ascendsBehind, behind⟩ : ComesFrom expander template
        (first + site.access.length + site.target.length + values.flatten.length) 1
        (site.after.map CodeItem.code) :=
      own (List.forall_mem_map.mpr fun instruction member => .of_code (still instruction member))
    have whole := ascends.append ascendsBehind (Nat.le_add_right _ _) (Nat.le_add_right _ _)
    rw [nothing]
    exact ⟨_, whole.widen (by omega) (by omega), within.append behind⟩
  · rw [after] at still
    obtain ⟨others, ascendsBehind, behind⟩ : ComesFrom expander template
        (first + site.access.length + site.target.length + values.flatten.length) 1
        (more.map CodeItem.code ++ []) := by
      rw [List.append_nil]
      exact own (List.forall_mem_map.mpr fun instruction member =>
        .of_code (still instruction (List.mem_cons_of_mem _ member)))
    have whole := (ascends.append ascendsBehind.none (Nat.le_add_right _ _)
      (Nat.le_add_right _ _)).none
    have loaded := ArgumentsFrom.receiver destination stands same after takes ascends within behind
    rw [List.append_nil] at loaded
    rw [same, after]
    exact ⟨_, whole.widen (by omega) (by omega), loaded⟩

end ComesFrom

section

variable {objects : List CapturedObject} (accessors : List Accessor)

mutual

/-- By induction on the trace, at its place in the template. -/
theorem Trace.comesFrom (conventions : expander.options.argumentOffset =
      offsetBetween expander.options.templateIsStatic expander.options.destinationIsStatic)
    (trace : Trace) (valid : trace.Valid expander objects)
    {front behind : List CodeItem} (found : template = front ++ (trace.items ++ behind)) :
    ComesFrom expander template front.length trace.items.length
      (Part.flatten (trace.output expander.options.argumentOffset accessors)) := by
  cases trace with
  | done => exact .nil
  | shared item rest =>
      rw [Trace.items_shared] at found ⊢
      have behindItem : template = (front ++ [item]) ++ (rest.items ++ behind) := by
        simp [found]
      have others := rest.comesFrom conventions valid.2 behindItem
      rw [List.length_append] at others
      have here : ComesFrom expander template front.length 1
          [item.shifted expander.options.argumentOffset] := by
        refine ⟨[some front.length], ?_, .shared conventions valid.1 ?_ .nil⟩
        · exact Ascends.nil.cons (Nat.lt_succ_self _)
        · rw [found]
          simp
      rw [List.length_cons, Nat.add_comm, Trace.output, Part.flatten_cons]
      exact here.append others
  | read read value load copy rest =>
      obtain ⟨_, loads, _, valid⟩ := valid
      rw [Trace.items_read] at found ⊢
      have behindRead : template = (front ++ read.items) ++ (rest.items ++ behind) := by
        rw [found, List.append_assoc, List.append_assoc]
      have others := rest.comesFrom conventions valid behindRead
      rw [List.length_append] at others
      have here : ComesFrom expander template front.length read.items.length
          (Expander.placeCalls accessors [load] ++ (copyCode copy).map CodeItem.code) :=
        .own (List.forall_mem_append.mpr ⟨loads.still accessors, still_copyCode copy⟩)
      have whole := here.append others
      rw [List.append_assoc] at whole
      rw [List.length_append, Trace.output, Part.flatten_cons, Part.flatten_cons]
      exact whole
  | site site values rest =>
      obtain ⟨stands, inside, valid⟩ := valid
      rw [Trace.items_site] at found ⊢
      have atPlace : site.StandsAt expander template front.length values.items :=
        ⟨⟨front, rest.items ++ behind, rfl, by simp [found]⟩, stands.acts⟩
      have inValues : template = (front ++ site.access ++ site.target) ++ (values.items.flatten ++
          (.code (.call site.operation) :: rest.items ++ behind)) := by
        simp [found]
      have behindCall : template = (front ++ site.access ++ site.target ++ values.items.flatten ++
          [.code (.call site.operation)]) ++ (rest.items ++ behind) := by
        simp [found]
      have within := values.comesFrom conventions inside inValues
      have others := rest.comesFrom conventions valid behindCall
      simp only [List.length_append, List.length_singleton] at within others
      have here := ComesFrom.site atPlace within
      have whole := here.append (by simpa only [Nat.add_assoc] using others)
      have length : (site.access ++ (site.target ++ (values.items.flatten ++
          .code (.call site.operation) :: rest.items))).length = site.access.length +
          site.target.length + values.items.flatten.length + 1 + rest.items.length := by
        simp only [List.length_append, List.length_cons]
        omega
      have output : Part.flatten ((Trace.site site values rest).output
          expander.options.argumentOffset accessors) =
          site.before.map CodeItem.code ++
            (Part.flatten (values.output expander.options.argumentOffset accessors).flatten ++
              site.after.map CodeItem.code) ++
            Part.flatten (rest.output expander.options.argumentOffset accessors) := by
        simp only [Trace.output, Part.flatten_cons, Part.flatten_append, Part.ownCode, Part.items,
          List.append_assoc]
      rw [length, output]
      exact whole

theorem TraceValues.comesFrom (conventions : expander.options.argumentOffset =
      offsetBetween expander.options.templateIsStatic expander.options.destinationIsStatic)
    (values : TraceValues) (valid : values.Valid expander objects)
    {front behind : List CodeItem} (found : template = front ++ (values.items.flatten ++ behind)) :
    ComesFrom expander template front.length values.items.flatten.length
      (Part.flatten (values.output expander.options.argumentOffset accessors).flatten) := by
  cases values with
  | none => exact .nil
  | value code rest =>
      have items : (TraceValues.value code rest).items.flatten =
          code.items ++ rest.items.flatten := rfl
      rw [items] at found ⊢
      have behindCode : template = (front ++ code.items) ++ (rest.items.flatten ++ behind) := by
        rw [found, List.append_assoc, List.append_assoc]
      have here := code.comesFrom conventions valid.1 (found.trans (by rw [List.append_assoc]))
      have others := rest.comesFrom conventions valid.2 behindCode
      rw [List.length_append] at others
      rw [List.length_append, TraceValues.output, List.flatten_cons, Part.flatten_append]
      exact here.append others

end

end

end

namespace Expander

variable {expander : Expander} {body expanded : Body} {accessors : List Accessor}
  {Builder : Type} [TypeBuilder Builder] {workspace after : Workspace Builder}

/-- Every access to an argument in the result is the load of a receiver that
expansion puts in, stands for the declared parameter that one instruction of the
template accesses, or changes the receiver as the template changes its own. -/
theorem expand_keeps_parameters
    (conventions : expander.options.argumentOffset =
      ExpansionOptions.offsetBetween expander.options.templateIsStatic
        expander.options.destinationIsStatic)
    (done : run (expander.expand body) workspace = (.ok (expanded, accessors), after)) :
    ∃ origins : List (Option Nat), (origins.filterMap id).Pairwise (· < ·) ∧
      ArgumentsFrom expander body.items origins expanded.items := by
  obtain ⟨output, pass, ran, defined, rfl⟩ := expand_eq_ok_iff.mp done
  obtain ⟨trace, made⟩ := exists_expandedAs ran accessors
  obtain ⟨more, whole⟩ := expander.trimmed_isPrefix body.items
  have found : body.items = [] ++ (trace.items ++ more) := by
    rw [← whole, ← made.traced.input]
    rfl
  obtain ⟨origins, ascends, from_⟩ := trace.comesFrom accessors conventions made.valid found
  rw [made.items_eq]
  exact ⟨origins, ascends.ascending, from_⟩

end Expander

namespace ArgumentsSample

open NestedSample

def drop : CodeItem := .code (.raw Opcode.pop .none)

def ownAddress : Body := ⟨[], [.code (.argument .address 0), drop, .code .ret]⟩

def toStatic : Expander := { expander with options := .between false true }

end ArgumentsSample

open NestedSample RemainderSample in
theorem expand_keeps_parameters_of_label :
    expander.options = .between false false ∧
    ∃ expanded accessors after,
      run (expander.expand labelled) workspace = (.ok (expanded, accessors), after) ∧
      expanded.items.length = 13 ∧
      ∃ origins : List (Option Nat), (origins.filterMap id).Pairwise (· < ·) ∧
        ArgumentsFrom expander labelled.items origins expanded.items := by
  obtain ⟨expanded, accessors, after, done, length, _⟩ := run_expand
  exact ⟨rfl, expanded, accessors, after, done, length,
    Expander.expand_keeps_parameters rfl done⟩

open NestedSample ArgumentsSample in
/-- The template's own receiver becomes the receiver of the destination, and is
refused where the destination has none. -/
theorem expand_passes_own_receiver :
    expander.options = .between false false ∧
    (∃ after, run (expander.expand ownAddress) workspace =
      (.ok (⟨[], [.code (.argument .address 0), drop]⟩, []), after)) ∧
    ∃ after, run (toStatic.expand ownAddress) workspace =
      (.error (.invalidArgumentIndex (-1)), after) :=
  ⟨rfl, ⟨_, run_eq_ok_of_toOption (by decide +kernel)⟩, _, run_eq_of_result (by decide +kernel)⟩

end CilTemplate
