import CilTemplate.Proofs.Expansion.Depth

/-
The arguments of a call as a partition.  Straight code falls into steps: a store
of a local that is loaded again at once is one step, and so is any other
instruction.  The slicer succeeds exactly where the steps fall into balanced
groups, one for each argument.  There is only one way to group them, and its
groups are the spans that the slicer gives.
-/

namespace CilTemplate

/-- Items that belong together, with what they add to the stack. -/
structure CodeStep where
  items : List CodeItem
  effect : Int

/-- The instruction stores a local that the next item loads again.  A raw access
does not count, for it names a slot and not a local. -/
def Reloads (instruction : Instruction Label) (next : CodeItem) : Prop :=
  ∃ stored loaded : Local, instruction = .localSlot .store stored ∧
    next = .code (.localSlot .load loaded) ∧ stored.identity = loaded.identity

inductive Steps : List CodeItem → List CodeStep → Prop
  | done : Steps [] []
  | pair {instruction : Instruction Label} {next : CodeItem} {rest : List CodeItem}
      {steps : List CodeStep} (reloads : Reloads instruction next) (others : Steps rest steps) :
      Steps (.code instruction :: next :: rest) (⟨[.code instruction, next], 0⟩ :: steps)
  | single {instruction : Instruction Label} {pops pushes : Nat} {rest : List CodeItem}
      {steps : List CodeStep} (effect : instruction.HasEffect pops pushes)
      (alone : ∀ next ∈ rest.head?, ¬ Reloads instruction next) (others : Steps rest steps) :
      Steps (.code instruction :: rest)
        (⟨[.code instruction], (pushes : Int) - pops⟩ :: steps)

namespace CodeStep

def code (steps : List CodeStep) : List CodeItem :=
  steps.flatMap items

def net (steps : List CodeStep) : Int :=
  (steps.map effect).sum

/-- The steps add one value, and no proper suffix of them adds any. -/
structure Balanced (steps : List CodeStep) : Prop where
  total : net steps = 1
  suffixes : ∀ suffix, suffix <:+ steps → suffix ≠ steps → net suffix ≤ 0

/-- The steps fall into so many balanced groups. -/
structure Partition (steps : List CodeStep) (arity : Nat) (groups : List (List CodeStep)) :
    Prop where
  whole : groups.flatten = steps
  count : groups.length = arity
  balanced : ∀ group ∈ groups, Balanced group

end CodeStep

/-- An instruction that lets control pass straight on and says itself what it
takes and leaves. -/
def CodeItem.IsStatic (item : CodeItem) : Prop :=
  ∃ instruction pops pushes, item = .code instruction ∧ instruction.HasEffect pops pushes

theorem isStatic_of_depthBehind? {items : List CodeItem} {depth last : Nat}
    (done : depthBehind? items depth = some last) : ∀ item ∈ items, item.IsStatic := by
  induction items generalizing depth with
  | nil => exact fun _ absent => by cases absent
  | cons item rest inductionHypothesis =>
      cases item with
      | mark label => cases done
      | code instruction =>
          obtain ⟨pops, pushes, effect, _, others⟩ := hasEffect_of_depthBehind? done
          exact List.forall_mem_cons.mpr
            ⟨⟨instruction, pops, pushes, rfl, effect⟩, inductionHypothesis others⟩

namespace StackUnit

theorem passesOn_iff {instruction : Instruction Label} {next : CodeItem} :
    passesOn instruction next = true ↔ Reloads instruction next := by
  constructor
  · intro pair
    obtain ⟨stored, loaded, rfl, rfl⟩ := slots_of_passesOn pair
    exact ⟨stored, loaded, rfl, rfl, eq_of_beq pair⟩
  · rintro ⟨stored, loaded, rfl, rfl, same⟩
    exact beq_iff_eq.mpr same

theorem passesOn_eq_false_iff {instruction : Instruction Label} {next : CodeItem} :
    passesOn instruction next = false ↔ ¬ Reloads instruction next := by
  rw [← passesOn_iff, Bool.not_eq_true]

end StackUnit

namespace Steps

open StackUnit CodeStep

variable {items left right : List CodeItem} {steps other : List CodeStep}

theorem of_static (items : List CodeItem) (static : ∀ item ∈ items, item.IsStatic) :
    ∃ steps, Steps items steps := by
  cases items with
  | nil => exact ⟨[], .done⟩
  | cons item rest =>
      obtain ⟨⟨instruction, pops, pushes, rfl, effect⟩, others⟩ := List.forall_mem_cons.mp static
      by_cases alone : ∀ next ∈ rest.head?, ¬ Reloads instruction next
      · obtain ⟨steps, found⟩ := of_static rest others
        exact ⟨_, .single effect alone found⟩
      · cases rest with
        | nil => exact absurd (fun _ absent => by cases absent) alone
        | cons next behind =>
            obtain ⟨steps, found⟩ := of_static behind (List.forall_mem_cons.mp others).2
            have reloads : Reloads instruction next := by
              by_contra apart
              apply alone
              rintro _ ⟨⟩
              exact apart
            exact ⟨_, .pair reloads found⟩
termination_by items.length

theorem unique (first : Steps items steps) (second : Steps items other) : steps = other := by
  induction first generalizing other with
  | done =>
      cases second
      rfl
  | pair reloads others inductionHypothesis =>
      cases second with
      | pair _ behind => rw [inductionHypothesis behind]
      | single _ alone _ => exact absurd reloads (alone _ rfl)
  | single effect alone others inductionHypothesis =>
      cases second with
      | pair reloads _ => exact absurd reloads (alone _ rfl)
      | single again _ behind =>
          obtain ⟨rfl, rfl⟩ := effect.unique again
          rw [inductionHypothesis behind]

theorem code_eq (found : Steps items steps) : code steps = items := by
  induction found with
  | done => rfl
  | pair _ _ inductionHypothesis => exact congrArg (_ :: _ :: ·) inductionHypothesis
  | single _ _ _ inductionHypothesis => exact congrArg (_ :: ·) inductionHypothesis

theorem units (found : Steps items steps) (base position : Nat) :
    ∃ units, ofItems base position items = .ok units ∧
      units.map StackUnit.effect = steps.map CodeStep.effect := by
  induction found generalizing position with
  | done => exact ⟨[], rfl, rfl⟩
  | pair reloads _ inductionHypothesis =>
      obtain ⟨others, behind, effects⟩ := inductionHypothesis (position + 2)
      have pair := passesOn_iff.mpr reloads
      obtain ⟨stored, loaded, rfl, rfl, _⟩ := reloads
      refine ⟨⟨position, position + 2, 1, 1⟩ :: others, ofItems_cons_eq_ok.mpr
        ⟨_, rfl, rfl, Or.inr ⟨_, _, others, rfl, pair, rfl, behind⟩⟩, ?_⟩
      rw [List.map_cons, List.map_cons, effects]
      rfl
  | @single instruction pops pushes _ _ effect alone _ inductionHypothesis =>
      obtain ⟨others, behind, effects⟩ := inductionHypothesis (position + 1)
      have here : StackUnit.single position instruction =
          .ok ⟨position, position + 1, pops, pushes⟩ :=
        single_eq_ok.mpr ⟨rfl, rfl, effect.pops, effect.pushes⟩
      refine ⟨_ :: others, ofItems_cons_eq_ok.mpr ⟨instruction, rfl, effect.straight,
        Or.inl ⟨_, others, rfl, here, ?_, behind⟩⟩, ?_⟩
      · exact fun next member => passesOn_eq_false_iff.mpr (alone next member)
      · rw [List.map_cons, List.map_cons, effects]
        rfl

theorem of_units {base position : Nat} {items : List CodeItem} {units : List StackUnit}
    (found : ofItems base position items = .ok units) :
    ∃ steps, Steps items steps ∧ units.map StackUnit.effect = steps.map CodeStep.effect := by
  cases items with
  | nil =>
      cases found
      exact ⟨[], .done, rfl⟩
  | cons item rest =>
      obtain ⟨instruction, rfl, straight, single | pair⟩ := ofItems_cons_eq_ok.mp found
      · obtain ⟨unit, others, rfl, alone, noPair, behind⟩ := single
        obtain ⟨_, _, popped, pushed⟩ := single_eq_ok.mp alone
        obtain ⟨steps, isSteps, effects⟩ := of_units behind
        refine ⟨_, .single ⟨popped, pushed, straight⟩
          (fun next member => passesOn_eq_false_iff.mp (noPair next member)) isSteps, ?_⟩
        rw [List.map_cons, List.map_cons, effects]
        rfl
      · obtain ⟨next, behind, others, rfl, pair, rfl, sliced⟩ := pair
        obtain ⟨steps, isSteps, effects⟩ := of_units sliced
        refine ⟨_, .pair (passesOn_iff.mp pair) isSteps, ?_⟩
        rw [List.map_cons, List.map_cons, effects]
        rfl
termination_by items.length

theorem append (first : Steps left steps) (second : Steps right other)
    (apart : EndsBefore left right) : Steps (left ++ right) (steps ++ other) := by
  induction first with
  | done => exact second
  | pair reloads _ inductionHypothesis =>
      exact .pair reloads (inductionHypothesis apart.tail.tail)
  | @single instruction _ _ rest _ effect alone _ inductionHypothesis =>
      refine .single effect ?_ (inductionHypothesis apart.tail)
      cases rest with
      | nil => exact fun next member => passesOn_eq_false_iff.mp (apart instruction rfl next member)
      | cons => exact alone

theorem split (steps : List CodeStep) (found : Steps items (steps ++ other)) :
    Steps (code steps) steps ∧ Steps (code other) other ∧
      EndsBefore (code steps) (code other) := by
  induction steps generalizing items with
  | nil =>
      have own : code other = items := found.code_eq
      rw [own]
      exact ⟨.done, found, endsBefore_nil items⟩
  | cons step steps inductionHypothesis =>
      cases found with
      | pair reloads others =>
          obtain ⟨front, back, apart⟩ := inductionHypothesis others
          refine ⟨.pair reloads front, back, ?_⟩
          apply EndsBefore.cons _ (fun empty => by cases empty)
          apply apart.cons
          obtain ⟨_, _, _, rfl, _⟩ := reloads
          rintro _ _ ⟨⟩ _ _
          rfl
      | @single instruction _ _ rest _ effect alone others =>
          obtain ⟨front, back, apart⟩ := inductionHypothesis others
          have behind : rest = code steps ++ code other := by
            rw [← others.code_eq]
            exact List.flatMap_append
          rw [behind] at alone
          refine ⟨.single effect ?_ front, back, ?_⟩
          · intro next member
            have inFront : (code steps).head? = some next := member
            apply alone next
            rw [List.head?_append, inFront]
            rfl
          · apply apart.cons
            rintro empty _ ⟨⟩ next member
            apply passesOn_eq_false_iff.mpr (alone next _)
            rw [empty]
            exact member

end Steps

namespace CodeStep

open StackUnit

variable {items : List CodeItem} {steps : List CodeStep} {groups : List (List CodeStep)}

theorem code_flatten (groups : List (List CodeStep)) :
    code groups.flatten = (groups.map code).flatten := by
  rw [code, List.flatMap_def, List.map_flatten, List.flatten_flatten, List.map_map]
  rfl

theorem balanced_iff {units : List StackUnit}
    (effects : units.map StackUnit.effect = steps.map effect) :
    Balanced steps ↔ ComputeValue units := by
  have nets : ∀ count, StackUnit.net (units.drop count) = net (steps.drop count) := by
    intro count
    rw [StackUnit.net, net, List.map_drop, List.map_drop, effects]
  have lengths : units.length = steps.length := by
    rw [← List.length_map, effects, List.length_map]
  constructor
  · intro balanced
    refine ⟨(nets 0).trans balanced.total, ?_⟩
    intro count below
    rw [nets]
    apply balanced.suffixes _ (List.drop_suffix _ _)
    intro same
    have shorter := congrArg List.length same
    rw [List.length_drop] at shorter
    omega
  · intro value
    refine ⟨(nets 0).symm.trans value.total, ?_⟩
    intro suffix isSuffix proper
    have longer : suffix.length < steps.length := by
      refine Nat.lt_of_le_of_ne isSuffix.length_le ?_
      exact fun same => proper (isSuffix.eq_of_length same)
    have bound := value.suffixes (steps.length - suffix.length - 1) (by omega)
    rw [Nat.sub_add_cancel (by omega), nets, ← List.suffix_iff_eq_drop.mp isSuffix] at bound
    exact bound

theorem computesValue_iff (found : Steps items steps) : ComputesValue items ↔ Balanced steps := by
  obtain ⟨units, isUnits, effects⟩ := found.units 0 0
  rw [balanced_iff effects]
  constructor
  · rintro ⟨own, same, value⟩
    rw [Except.ok.inj (isUnits.symm.trans same)]
    exact value
  · exact fun value => ⟨units, isUnits, value⟩

theorem separate_of_balanced (found : Steps items groups.flatten)
    (balanced : ∀ group ∈ groups, Balanced group) : Separate (groups.map code) := by
  induction groups generalizing items with
  | nil => exact ⟨fun _ absent => (by cases absent), List.isChain_nil⟩
  | cons group rest inductionHypothesis =>
      obtain ⟨own, others⟩ := List.forall_mem_cons.mp balanced
      obtain ⟨front, back, apart⟩ := found.split group
      rw [code_flatten] at apart
      exact .cons ((computesValue_iff front).mpr own) apart (inductionHypothesis back others)

theorem balanced_of_separate {pieces : List (List CodeItem)} (separate : Separate pieces) :
    ∃ groups : List (List CodeStep), groups.map code = pieces ∧
      Steps pieces.flatten groups.flatten ∧ ∀ group ∈ groups, Balanced group := by
  induction pieces with
  | nil => exact ⟨[], rfl, .done, fun _ absent => by cases absent⟩
  | cons piece rest inductionHypothesis =>
      obtain ⟨groups, rfl, others, balanced⟩ := inductionHypothesis separate.tail
      have value := separate.values piece List.mem_cons_self
      obtain ⟨units, isUnits, _⟩ := id value
      obtain ⟨group, own, _⟩ := Steps.of_units isUnits
      exact ⟨group :: groups, congrArg (· :: _) own.code_eq, own.append others separate.endsBefore,
        List.forall_mem_cons.mpr ⟨(computesValue_iff own).mp value, balanced⟩⟩

theorem eq_of_code_eq {others : List (List CodeStep)} (found : Steps items groups.flatten)
    (again : Steps items others.flatten) (same : groups.map code = others.map code) :
    groups = others := by
  induction groups generalizing items others with
  | nil => exact (List.map_eq_nil_iff.mp same.symm).symm
  | cons group rest inductionHypothesis =>
      obtain ⟨other, further, rfl, sameFirst, sameRest⟩ := List.map_eq_cons_iff.mp same.symm
      obtain ⟨front, back, _⟩ := found.split group
      obtain ⟨otherFront, otherBack, _⟩ := again.split other
      rw [sameFirst] at otherFront
      rw [code_flatten, sameRest, ← code_flatten] at otherBack
      rw [front.unique otherFront, inductionHypothesis back otherBack sameRest.symm]

variable {arity : Nat}

theorem Partition.separate (partition : Partition steps arity groups) (found : Steps items steps) :
    Separate (groups.map code) :=
  separate_of_balanced (partition.whole.symm ▸ found) partition.balanced

theorem Partition.flatten_code (partition : Partition steps arity groups)
    (found : Steps items steps) : (groups.map code).flatten = items := by
  rw [← code_flatten, partition.whole, found.code_eq]

theorem Partition.argumentSpans_eq (partition : Partition steps arity groups)
    (found : Steps items steps) (base : Nat) :
    argumentSpans base items arity = .ok (Span.following 0 (groups.map code)) := by
  have sliced := argumentSpans_of_separate base (partition.separate found)
  rwa [partition.flatten_code found, List.length_map, partition.count] at sliced

theorem Partition.map_of_following (partition : Partition steps arity groups)
    (found : Steps items steps) :
    (Span.following 0 (groups.map code)).map (fun span => span.of items) = groups.map code := by
  have spanned := of_following [] (groups.map code)
  rwa [List.nil_append, partition.flatten_code found] at spanned

theorem Partition.unique {others : List (List CodeStep)} (partition : Partition steps arity groups)
    (other : Partition steps arity others) (found : Steps items steps) : others = groups := by
  have sameSpans := (other.argumentSpans_eq found 0).symm.trans (partition.argumentSpans_eq found 0)
  have sameCode := other.map_of_following found
  rw [Except.ok.inj sameSpans, partition.map_of_following found] at sameCode
  exact eq_of_code_eq (other.whole.symm ▸ found) (partition.whole.symm ▸ found) sameCode.symm

theorem exists_partition {base : Nat} {spans : List Span} (found : Steps items steps)
    (done : argumentSpans base items arity = .ok spans) :
    ∃ groups, Partition steps arity groups := by
  obtain ⟨pieces, flatten, length, separate, _⟩ := argumentSpans_eq_ok done
  obtain ⟨groups, rfl, whole, balanced⟩ := balanced_of_separate separate
  rw [flatten] at whole
  exact ⟨groups, whole.unique found, by rw [← length, List.length_map], balanced⟩

end CodeStep

open CodeStep in
/-- Slicing static code succeeds exactly if its steps fall into as many balanced
groups as there are arguments.  There is one way to group them, and the slicer
gives the spans of the groups.  They follow one another and cover the code, and
what each of them holds is, sliced by itself, one argument. -/
theorem argumentSpans_finds_partition {items : List CodeItem}
    (static : ∀ item ∈ items, item.IsStatic) (base arity : Nat) :
    ∃ steps, Steps items steps ∧ (∀ other, Steps items other → other = steps) ∧
      ((∃ spans, argumentSpans base items arity = .ok spans) ↔
        ∃ groups, Partition steps arity groups) ∧
      ∀ groups, Partition steps arity groups →
        let spans := Span.following 0 (groups.map code)
        (∀ other, Partition steps arity other → other = groups) ∧
        argumentSpans base items arity = .ok spans ∧
        spans.map (fun span => span.of items) = groups.map code ∧
        (groups.map code).flatten = items ∧
        ∀ span ∈ spans, ∀ elsewhere,
          argumentSpans elsewhere (span.of items) 1 = .ok [⟨0, (span.of items).length⟩] := by
  obtain ⟨steps, found⟩ := Steps.of_static items static
  refine ⟨steps, found, fun other again => again.unique found, ?_, ?_⟩
  · constructor
    · rintro ⟨spans, done⟩
      exact exists_partition found done
    · rintro ⟨groups, partition⟩
      exact ⟨_, partition.argumentSpans_eq found base⟩
  · intro groups partition
    have spanned := partition.map_of_following found
    refine ⟨fun other again => partition.unique again found, partition.argumentSpans_eq found base,
      spanned, partition.flatten_code found, ?_⟩
    intro span member elsewhere
    have piece : span.of items ∈ groups.map code := spanned ▸ List.mem_map_of_mem member
    exact argumentSpans_of_computesValue elsewhere ((partition.separate found).values _ piece)

namespace PartitionSample

def value : CilType := ⟨⟨0x02000001⟩, "Demo", "Value", "Demo", .reference, 1⟩

def slot : Local := ⟨.index 0, none, ⟨value, false⟩⟩

def scale : Method := ⟨⟨0x06000001⟩, "Scale", value, [value, value], some value, 0⟩

def items : List CodeItem :=
  [.code (.argument .load 1), .code (.localSlot .store slot), .code (.localSlot .load slot),
    .code (.argument .load 2), .code (.argument .load 3), .code (.call scale),
    .code (.argument .load 4)]

end PartitionSample

open PartitionSample CodeStep in
theorem argumentSpans_finds_partition_of_store :
    ∃ steps, Steps items steps ∧ ∃ groups, Partition steps 2 groups ∧
      argumentSpans 0 items 2 = .ok [⟨0, 6⟩, ⟨6, 7⟩] ∧
      Span.following 0 (groups.map code) = [⟨0, 6⟩, ⟨6, 7⟩] := by
  have depth : depthBehind? items 0 = some 2 := by decide
  have sliced : argumentSpans 0 items 2 = .ok [⟨0, 6⟩, ⟨6, 7⟩] := by decide
  obtain ⟨steps, found, _, slices, finds⟩ :=
    argumentSpans_finds_partition (isStatic_of_depthBehind? depth) 0 2
  obtain ⟨groups, partition⟩ := slices.mp ⟨_, sliced⟩
  obtain ⟨_, spans, _⟩ := finds groups partition
  exact ⟨steps, found, groups, partition, sliced, Except.ok.inj (spans.symm.trans sliced)⟩

end CilTemplate
