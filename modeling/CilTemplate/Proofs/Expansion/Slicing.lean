import CilTemplate.Placeholder.Arguments
import Mathlib.Algebra.Ring.Int.Defs
import Mathlib.Data.List.Chain

/-
Where code splits into arguments.  The stack effects of the units decide: an
argument leaves one value, and no part of it up to its end leaves a value by
itself.  The backward walk finds these arguments again.
-/

namespace CilTemplate

namespace StackUnit

def effect (unit : StackUnit) : Int :=
  unit.pushes - unit.pops

def net (units : List StackUnit) : Int :=
  (units.map effect).sum

/-- The units leave one value, for which all of them are needed. -/
structure ComputeValue (units : List StackUnit) : Prop where
  total : net units = 1
  suffixes : ∀ count < units.length, net (units.drop (count + 1)) ≤ 0

instance (units : List StackUnit) : Decidable (ComputeValue units) :=
  decidable_of_iff (net units = 1 ∧ ∀ count < units.length, net (units.drop (count + 1)) ≤ 0)
    ⟨fun both => ⟨both.1, both.2⟩, fun value => ⟨value.total, value.suffixes⟩⟩

theorem net_cons (unit : StackUnit) (units : List StackUnit) :
    net (unit :: units) = unit.effect + net units :=
  List.sum_cons

/-- The invariant of the walk: the balance is the effect of the units behind
it, less one. -/
theorem collect_within (arity missing stop : Nat) (found : List Span)
    (first : StackUnit) (earlier walk back : List StackUnit)
    (value : ComputeValue (first :: (walk.reverse ++ back))) :
    collect arity (missing + 1) stop (net back - 1) found (walk ++ first :: earlier) =
      collect arity missing first.start (-1) (⟨first.start, stop⟩ :: found) earlier := by
  induction walk generalizing back with
  | nil =>
      have total := value.total
      simp only [List.reverse_nil, List.nil_append, net_cons, effect] at total
      have balance : net back - 1 + first.pushes - first.pops = 0 := by omega
      simp [collect, balance]
  | cons unit walk inductionHypothesis =>
      have shape : first :: ((unit :: walk).reverse ++ back) =
          first :: (walk.reverse ++ unit :: back) := by simp
      rw [shape] at value
      have below : walk.length < (first :: (walk.reverse ++ unit :: back)).length := by
        simp only [List.length_cons, List.length_append, List.length_reverse]
        omega
      have suffix := value.suffixes walk.length below
      have dropped : (first :: (walk.reverse ++ unit :: back)).drop (walk.length + 1) =
          unit :: back := by
        rw [List.drop_succ_cons, ← List.length_reverse, List.drop_left]
      rw [dropped, net_cons, effect] at suffix
      have balance : net back - 1 + unit.pushes - unit.pops = net (unit :: back) - 1 := by
        rw [net_cons, effect]
        omega
      have negative : net (unit :: back) - 1 < 0 := by
        rw [net_cons, effect]
        omega
      have further := inductionHypothesis (unit :: back) value
      rw [List.cons_append, collect]
      simp only [balance]
      rw [if_neg (by omega), if_neg (by omega), further]

theorem collect_argument (arity missing stop : Nat) (found : List Span)
    (units earlier : List StackUnit) (value : ComputeValue units) :
    ∃ first, units.head? = some first ∧
      collect arity (missing + 1) stop (-1) found (units.reverse ++ earlier) =
        collect arity missing first.start (-1) (⟨first.start, stop⟩ :: found) earlier := by
  cases units with
  | nil =>
      have total := value.total
      contradiction
  | cons first rest =>
      refine ⟨first, rfl, ?_⟩
      have walked := collect_within arity missing stop found first earlier rest.reverse []
        (by simpa using value)
      simpa [net] using walked

def shift (offset : Nat) (unit : StackUnit) : StackUnit :=
  { unit with start := unit.start + offset, stop := unit.stop + offset }

theorem net_shift (offset : Nat) (units : List StackUnit) :
    net (units.map (shift offset)) = net units := by
  rw [net, net, List.map_map]
  rfl

theorem ComputeValue.shift {units : List StackUnit} (value : ComputeValue units) (offset : Nat) :
    ComputeValue (units.map (shift offset)) where
  total := by rw [net_shift]; exact value.total
  suffixes := by
    intro count below
    rw [List.length_map] at below
    rw [← List.map_drop, net_shift]
    exact value.suffixes count below

theorem straightLine_eq_ok {item : CodeItem} {token : Nat} {instruction : Instruction Label} :
    straightLine item token = .ok instruction ↔
      item = .code instruction ∧ instruction.isControlTransfer = false := by
  cases item with
  | mark label => simp [straightLine]
  | code found =>
      cases transfers : found.isControlTransfer with
      | true =>
          simp only [straightLine, transfers, if_true, reduceCtorEq, CodeItem.code.injEq,
            false_iff, not_and]
          rintro rfl
          simp [transfers]
      | false =>
          simp only [straightLine, transfers, Bool.false_eq_true, if_false, Except.ok.injEq,
            CodeItem.code.injEq]
          constructor
          · rintro rfl
            exact ⟨rfl, transfers⟩
          · exact And.left

theorem single_eq_ok {position : Nat} {instruction : Instruction Label} {unit : StackUnit} :
    single position instruction = .ok unit ↔
      unit.start = position ∧ unit.stop = position + 1 ∧
        instruction.stackPops = .ok unit.pops ∧ instruction.stackPushes = .ok unit.pushes := by
  simp only [single, bind_eq_ok, pure, Except.pure, Except.ok.injEq]
  constructor
  · rintro ⟨pops, popped, pushes, pushed, rfl⟩
    exact ⟨rfl, rfl, popped, pushed⟩
  · rintro ⟨start, stop, popped, pushed⟩
    refine ⟨unit.pops, popped, unit.pushes, pushed, ?_⟩
    rw [← stop, ← start]

theorem slots_of_passesOn {instruction : Instruction Label} {next : CodeItem}
    (pair : passesOn instruction next = true) :
    ∃ stored loaded, instruction = .localSlot .store stored ∧
      next = .code (.localSlot .load loaded) := by
  unfold passesOn at pair
  split at pair
  · exact ⟨_, _, rfl, rfl⟩
  · cases pair

/-- The first units come from one instruction, or from a store and a load of the
same local. -/
theorem ofItems_cons_eq_ok {base position : Nat} {item : CodeItem} {rest : List CodeItem}
    {units : List StackUnit} :
    ofItems base position (item :: rest) = .ok units ↔
      ∃ instruction, item = .code instruction ∧ instruction.isControlTransfer = false ∧
        ((∃ unit others, units = unit :: others ∧ single position instruction = .ok unit ∧
            (∀ next ∈ rest.head?, passesOn instruction next = false) ∧
            ofItems base (position + 1) rest = .ok others) ∨
          ∃ next behind others, rest = next :: behind ∧ passesOn instruction next = true ∧
            units = ⟨position, position + 2, 1, 1⟩ :: others ∧
            ofItems base (position + 2) behind = .ok others) := by
  have noNext : ∀ {instruction : Instruction Label}, ∀ next ∈ ([] : List CodeItem).head?,
      passesOn instruction next = false := by
    intro _ _ absent
    cases absent
  constructor
  · intro found
    cases rest with
    | nil =>
        obtain ⟨instruction, straight, sliced⟩ := bind_eq_ok.mp found
        obtain ⟨unit, alone, same⟩ := bind_eq_ok.mp sliced
        obtain ⟨isCode, transferless⟩ := straightLine_eq_ok.mp straight
        exact ⟨instruction, isCode, transferless,
          Or.inl ⟨unit, [], (Except.ok.inj same).symm, alone, noNext, rfl⟩⟩
    | cons next rest =>
        obtain ⟨instruction, straight, sliced⟩ := bind_eq_ok.mp found
        obtain ⟨isCode, transferless⟩ := straightLine_eq_ok.mp straight
        refine ⟨instruction, isCode, transferless, ?_⟩
        split at sliced
        · rename_i pair
          obtain ⟨others, behind, same⟩ := bind_eq_ok.mp sliced
          exact Or.inr ⟨next, rest, others, rfl, pair, (Except.ok.inj same).symm, behind⟩
        · rename_i noPair
          obtain ⟨unit, alone, sliced⟩ := bind_eq_ok.mp sliced
          obtain ⟨others, behind, same⟩ := bind_eq_ok.mp sliced
          refine Or.inl ⟨unit, others, (Except.ok.inj same).symm, alone, ?_, behind⟩
          rintro _ ⟨⟩
          exact Bool.not_eq_true _ ▸ noPair
  · rintro ⟨instruction, rfl, transferless, single | pair⟩
    · obtain ⟨unit, others, rfl, alone, noPair, behind⟩ := single
      have straight : straightLine (.code instruction) (base + position) = .ok instruction :=
        straightLine_eq_ok.mpr ⟨rfl, transferless⟩
      cases rest with
      | nil =>
          cases behind
          exact bind_eq_ok.mpr ⟨instruction, straight, bind_eq_ok.mpr ⟨unit, alone, rfl⟩⟩
      | cons next rest =>
          refine bind_eq_ok.mpr ⟨instruction, straight, ?_⟩
          rw [noPair next rfl]
          exact bind_eq_ok.mpr ⟨unit, alone, bind_eq_ok.mpr ⟨others, behind, rfl⟩⟩
    · obtain ⟨next, rest, others, rfl, pair, rfl, behind⟩ := pair
      refine bind_eq_ok.mpr ⟨instruction, straightLine_eq_ok.mpr ⟨rfl, transferless⟩, ?_⟩
      rw [pair]
      exact bind_eq_ok.mpr ⟨others, behind, rfl⟩

theorem single_shift {position : Nat} {instruction : Instruction Label} {unit : StackUnit}
    (found : single position instruction = .ok unit) (offset : Nat) :
    single (position + offset) instruction = .ok (unit.shift offset) := by
  obtain ⟨start, stop, popped, pushed⟩ := single_eq_ok.mp found
  refine single_eq_ok.mpr ⟨congrArg (· + offset) start, ?_, popped, pushed⟩
  rw [shift, stop, Nat.add_right_comm]

theorem ofItems_shift (base : Nat) {position : Nat} {items : List CodeItem}
    {units : List StackUnit} (found : ofItems base position items = .ok units)
    (other offset : Nat) :
    ofItems other (position + offset) items = .ok (units.map (shift offset)) := by
  cases items with
  | nil =>
      cases found
      rfl
  | cons item rest =>
      obtain ⟨instruction, rfl, straight, first | pair⟩ := ofItems_cons_eq_ok.mp found
      · obtain ⟨unit, others, rfl, alone, noPair, behind⟩ := first
        have shifted := ofItems_shift base behind other offset
        rw [Nat.add_right_comm] at shifted
        exact ofItems_cons_eq_ok.mpr ⟨instruction, rfl, straight,
          Or.inl ⟨_, _, rfl, single_shift alone offset, noPair, shifted⟩⟩
      · obtain ⟨next, behind, others, rfl, pair, rfl, sliced⟩ := pair
        have shifted := ofItems_shift base sliced other offset
        rw [Nat.add_right_comm] at shifted
        refine ofItems_cons_eq_ok.mpr ⟨instruction, rfl, straight,
          Or.inr ⟨next, behind, _, rfl, pair, ?_, shifted⟩⟩
        rw [List.map_cons, shift, Nat.add_right_comm]
termination_by items.length

/-- No unit reaches from the end of one piece of code into the next. -/
def EndsBefore (left right : List CodeItem) : Prop :=
  ∀ stored ∈ left.getLast?.bind CodeItem.instruction?, ∀ next ∈ right.head?,
    passesOn stored next = false

theorem endsBefore_nil (right : List CodeItem) : EndsBefore [] right :=
  fun _ absent => by cases absent

theorem EndsBefore.tail {item : CodeItem} {left right : List CodeItem}
    (apart : EndsBefore (item :: left) right) : EndsBefore left right := by
  cases left with
  | nil => exact endsBefore_nil right
  | cons next rest =>
      intro stored last
      apply apart stored
      rw [List.getLast?_cons_cons]
      exact last

theorem ofItems_append {base position : Nat} {left right : List CodeItem}
    {leftUnits rightUnits : List StackUnit} (apart : EndsBefore left right)
    (first : ofItems base position left = .ok leftUnits)
    (second : ofItems base (position + left.length) right = .ok rightUnits) :
    ofItems base position (left ++ right) = .ok (leftUnits ++ rightUnits) := by
  cases left with
  | nil =>
      cases first
      exact second
  | cons item rest =>
      obtain ⟨instruction, rfl, straight, alone | pair⟩ := ofItems_cons_eq_ok.mp first
      · obtain ⟨unit, others, rfl, alone, noPair, behind⟩ := alone
        rw [List.length_cons, Nat.add_comm rest.length, ← Nat.add_assoc] at second
        refine ofItems_cons_eq_ok.mpr ⟨instruction, rfl, straight,
          Or.inl ⟨unit, others ++ rightUnits, rfl, alone, ?_,
            ofItems_append apart.tail behind second⟩⟩
        cases rest with
        | nil => exact apart instruction rfl
        | cons => exact noPair
      · obtain ⟨next, behind, others, rfl, pair, rfl, sliced⟩ := pair
        rw [List.length_cons, List.length_cons, Nat.add_assoc, Nat.add_comm behind.length,
          ← Nat.add_assoc] at second
        exact ofItems_cons_eq_ok.mpr ⟨instruction, rfl, straight,
          Or.inr ⟨next, behind ++ right, others ++ rightUnits, rfl, pair, rfl,
            ofItems_append apart.tail.tail sliced second⟩⟩
termination_by left.length

theorem start_of_ofItems {base position : Nat} {items : List CodeItem} {units : List StackUnit}
    (found : ofItems base position items = .ok units) :
    ∀ first ∈ units.head?, first.start = position := by
  intro first member
  cases items with
  | nil =>
      cases found
      cases member
  | cons item rest =>
      obtain ⟨instruction, rfl, _, ⟨unit, _, rfl, alone, _, _⟩ | ⟨_, _, _, _, _, rfl, _⟩⟩ :=
        ofItems_cons_eq_ok.mp found
      · cases member
        exact (single_eq_ok.mp alone).1
      · cases member
        rfl

end StackUnit

/-- The code leaves one value, for which all of it is needed. -/
def ComputesValue (items : List CodeItem) : Prop :=
  ∃ units, StackUnit.ofItems 0 0 items = .ok units ∧ StackUnit.ComputeValue units

instance (items : List CodeItem) : Decidable (ComputesValue items) :=
  match found : StackUnit.ofItems 0 0 items with
  | .ok units =>
      decidable_of_iff (StackUnit.ComputeValue units)
        ⟨fun value => ⟨units, found, value⟩, fun ⟨_, same, value⟩ => by
          rw [found] at same
          cases same
          exact value⟩
  | .error _ => isFalse fun ⟨_, same, _⟩ => by
      rw [found] at same
      cases same

/-- The stack effects of the joined pieces separate them again. -/
structure Separate (pieces : List (List CodeItem)) : Prop where
  values : ∀ piece ∈ pieces, ComputesValue piece
  boundaries : pieces.IsChain StackUnit.EndsBefore

instance (left right : List CodeItem) : Decidable (StackUnit.EndsBefore left right) :=
  inferInstanceAs (Decidable (∀ stored ∈ left.getLast?.bind CodeItem.instruction?,
    ∀ next ∈ right.head?, StackUnit.passesOn stored next = false))

instance (pieces : List (List CodeItem)) : Decidable (Separate pieces) :=
  decidable_of_iff ((∀ piece ∈ pieces, ComputesValue piece) ∧
      pieces.IsChain StackUnit.EndsBefore)
    ⟨fun both => ⟨both.1, both.2⟩, fun separate => ⟨separate.values, separate.boundaries⟩⟩

namespace Separate

theorem tail {piece : List CodeItem} {rest : List (List CodeItem)}
    (separate : Separate (piece :: rest)) : Separate rest where
  values := fun other member => separate.values other (List.mem_cons_of_mem _ member)
  boundaries := separate.boundaries.tail

theorem ne_nil {pieces : List (List CodeItem)} (separate : Separate pieces)
    {piece : List CodeItem} (member : piece ∈ pieces) : piece ≠ [] := by
  rintro rfl
  rcases separate.values [] member with ⟨units, found, value⟩
  cases found
  exact absurd value.total (by decide)

theorem endsBefore {piece : List CodeItem} {rest : List (List CodeItem)}
    (separate : Separate (piece :: rest)) : StackUnit.EndsBefore piece rest.flatten := by
  cases rest with
  | nil =>
      intro stored last next member
      cases member
  | cons second further =>
      have adjacent := (List.isChain_cons_cons.mp separate.boundaries).1
      have filled := separate.ne_nil (List.mem_cons_of_mem _ List.mem_cons_self)
      intro stored last next member
      apply adjacent stored last next
      rwa [List.flatten_cons, List.head?_append_of_ne_nil _ filled] at member

theorem cons {piece : List CodeItem} {rest : List (List CodeItem)} (value : ComputesValue piece)
    (apart : StackUnit.EndsBefore piece rest.flatten) (separate : Separate rest) :
    Separate (piece :: rest) := by
  refine ⟨List.forall_mem_cons.mpr ⟨value, separate.values⟩, ?_⟩
  cases rest with
  | nil => exact List.isChain_singleton piece
  | cons next further =>
      refine List.isChain_cons_cons.mpr ⟨?_, separate.boundaries⟩
      intro stored last following member
      apply apart stored last following
      rw [List.flatten_cons, List.head?_append, Option.mem_def.mp member]
      rfl

end Separate

def Span.following (position : Nat) : List (List CodeItem) → List Span
  | [] => []
  | piece :: rest =>
      ⟨position, position + piece.length⟩ :: Span.following (position + piece.length) rest

theorem of_following (before : List CodeItem) (pieces : List (List CodeItem)) :
    (Span.following before.length pieces).map (fun span => span.of (before ++ pieces.flatten)) =
      pieces := by
  induction pieces generalizing before with
  | nil => rfl
  | cons piece rest inductionHypothesis =>
      have others := inductionHypothesis (before ++ piece)
      rw [List.append_assoc, List.length_append] at others
      rw [Span.following, List.map_cons, List.flatten_cons, others]
      congr 1
      rw [Span.of, ← List.append_assoc, ← List.length_append, List.take_left, List.drop_left]

/-- The units of separate pieces are those of each piece, and the walk over
them finds the pieces. -/
theorem collect_pieces (base : Nat) {pieces : List (List CodeItem)} (separate : Separate pieces)
    (position : Nat) :
    ∃ units, StackUnit.ofItems base position pieces.flatten = .ok units ∧
      ∀ arity missing found earlier,
        StackUnit.collect arity (missing + pieces.length) (position + pieces.flatten.length) (-1)
            found (units.reverse ++ earlier) =
          StackUnit.collect arity missing position (-1)
            (Span.following position pieces ++ found) earlier := by
  induction pieces generalizing position with
  | nil => exact ⟨[], rfl, fun _ _ _ _ => rfl⟩
  | cons piece rest inductionHypothesis =>
      obtain ⟨own, ownFound, value⟩ := separate.values piece List.mem_cons_self
      have placed := StackUnit.ofItems_shift 0 ownFound base position
      rw [Nat.zero_add] at placed
      obtain ⟨others, othersFound, walkOthers⟩ :=
        inductionHypothesis separate.tail (position + piece.length)
      refine ⟨own.map (StackUnit.shift position) ++ others,
        StackUnit.ofItems_append separate.endsBefore placed othersFound, ?_⟩
      intro arity missing found earlier
      obtain ⟨first, head, cut⟩ := StackUnit.collect_argument arity missing
        (position + piece.length) (Span.following (position + piece.length) rest ++ found)
        (own.map (StackUnit.shift position)) earlier (value.shift position)
      have start : first.start = position := StackUnit.start_of_ofItems placed first head
      have walked := walkOthers arity (missing + 1) found
        ((own.map (StackUnit.shift position)).reverse ++ earlier)
      rw [List.reverse_append, List.append_assoc, List.flatten_cons, List.length_append,
        List.length_cons, ← Nat.add_assoc position, Nat.add_comm rest.length,
        ← Nat.add_assoc missing, walked, cut, start]
      rfl

theorem argumentSpans_of_separate (base : Nat) {arguments : List (List CodeItem)}
    (separate : Separate arguments) :
    argumentSpans base arguments.flatten arguments.length =
      .ok (Span.following 0 arguments) := by
  obtain ⟨units, found, walked⟩ := collect_pieces base separate 0
  have whole := walked arguments.length 0 [] []
  rw [Nat.zero_add, Nat.zero_add, List.append_nil, List.append_nil] at whole
  rw [argumentSpans, found]
  simp only [bind, Except.bind, whole, StackUnit.collect]

theorem argumentSpans_of_computesValue (base : Nat) {items : List CodeItem}
    (value : ComputesValue items) :
    argumentSpans base items 1 = .ok [⟨0, items.length⟩] := by
  have alone : Separate [items] := ⟨List.forall_mem_singleton.mpr value, .singleton items⟩
  have sliced := argumentSpans_of_separate base alone
  rwa [List.flatten_singleton, List.length_singleton, Span.following, Nat.zero_add] at sliced

end CilTemplate
