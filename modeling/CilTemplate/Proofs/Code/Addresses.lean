import CilTemplate.Code.Decode
import CilTemplate.Proofs.Code.Correspondence

/-
Labels in the place of addresses.  The label of an address is marked in front
of the instruction at this address.
-/

namespace CilTemplate
namespace AddressedCode

theorem mem_distinct {address : Nat} {addresses : List Nat} :
    address ∈ distinct addresses ↔ address ∈ addresses := by
  induction addresses with
  | nil => exact Iff.rfl
  | cons first rest inductionHypothesis =>
      simp only [distinct, List.mem_cons, List.mem_filter, inductionHypothesis, bne_iff_ne]
      constructor
      · rintro (same | ⟨later, _⟩)
        · exact Or.inl same
        · exact Or.inr later
      · rintro (same | later)
        · exact Or.inl same
        · by_cases same : address = first
          · exact Or.inl same
          · exact Or.inr ⟨later, same⟩

theorem mem_targets {code : AddressedCode} {address : Nat} :
    address ∈ code.targets ↔
      ∃ entry ∈ code.instructions, address ∈ entry.2.targets := by
  rw [targets, mem_distinct, List.mem_flatMap]

def itemsOf (targets : List Nat) (instructions : List (Nat × Instruction Nat)) : List CodeItem :=
  instructions.flatMap fun (address, instruction) =>
    markAt targets address ++ [.code (instruction.mapTargets (labelOf targets))]

theorem instructions_markAt (targets : List Nat) (address : Nat) :
    (markAt targets address).filterMap CodeItem.instruction? = [] := by
  unfold markAt
  split <;> rfl

theorem instructions_itemsOf (targets : List Nat) (instructions : List (Nat × Instruction Nat)) :
    (itemsOf targets instructions).filterMap CodeItem.instruction? =
      instructions.map fun entry => entry.2.mapTargets (labelOf targets) := by
  induction instructions with
  | nil => rfl
  | cons entry rest inductionHypothesis =>
      rw [itemsOf, List.flatMap_cons, List.filterMap_append, List.filterMap_append,
        instructions_markAt]
      exact congrArg (_ :: ·) inductionHypothesis

theorem instructions_items (code : AddressedCode) :
    code.items.filterMap CodeItem.instruction? =
      code.instructions.map fun entry => entry.2.mapTargets (labelOf code.targets) := by
  change (itemsOf code.targets code.instructions ++ markAt code.targets code.length).filterMap
    CodeItem.instruction? = _
  rw [List.filterMap_append, instructions_itemsOf, instructions_markAt, List.append_nil]

theorem identity_labelOf_inj {targets : List Nat} {left right : Nat} (leftMember : left ∈ targets)
    (rightMember : right ∈ targets)
    (same : (labelOf targets left).identity = (labelOf targets right).identity) : left = right := by
  have number : targets.idxOf left = targets.idxOf right := Identity.index.inj same
  have leftBound := List.idxOf_lt_length_of_mem leftMember
  have rightBound := List.idxOf_lt_length_of_mem rightMember
  have leftAt : targets[targets.idxOf left]? = some left :=
    List.getElem?_eq_some_iff.mpr ⟨leftBound, List.getElem_idxOf leftBound⟩
  have rightAt : targets[targets.idxOf right]? = some right :=
    List.getElem?_eq_some_iff.mpr ⟨rightBound, List.getElem_idxOf rightBound⟩
  rw [number, rightAt] at leftAt
  exact (Option.some.inj leftAt).symm

theorem placeIn_markAt {targets : List Nat} {start address : Nat} (member : address ∈ targets)
    (rest : List CodeItem) :
    Body.placeIn (markAt targets start ++ rest) (labelOf targets address).identity =
      if start = address then some 0
      else Body.placeIn rest (labelOf targets address).identity := by
  unfold markAt
  by_cases isTarget : targets.contains start = true
  · rw [if_pos isTarget]
    by_cases same : start = address
    · rw [same, if_pos rfl]
      simp [Body.placeIn]
    · have different : (labelOf targets start).identity ≠ (labelOf targets address).identity :=
        fun equal => same (identity_labelOf_inj (List.contains_iff_mem.mp isTarget) member equal)
      simp [Body.placeIn, different, same]
  · have different : start ≠ address := by
      rintro rfl
      exact isTarget (List.contains_iff_mem.mpr member)
    rw [if_neg isTarget, if_neg different]
    rfl

theorem placeIn_items {targets : List Nat} {instructions : List (Nat × Instruction Nat)}
    {length index address : Nat} (member : address ∈ targets)
    (ascending : (instructions.map Prod.fst ++ [length]).Pairwise (· < ·))
    (found : (instructions.map Prod.fst ++ [length])[index]? = some address) :
    Body.placeIn (itemsOf targets instructions ++ markAt targets length)
      (labelOf targets address).identity = some index := by
  induction instructions generalizing index with
  | nil =>
      cases index with
      | zero =>
          have same : length = address := Option.some.inj found
          have here := @placeIn_markAt targets length address member []
          rw [List.append_nil, if_pos same] at here
          exact here
      | succ index => cases found
  | cons entry rest inductionHypothesis =>
      obtain ⟨smallest, restAscending⟩ := List.pairwise_cons.mp ascending
      rw [itemsOf, List.flatMap_cons, List.append_assoc, List.append_assoc, placeIn_markAt member]
      cases index with
      | zero =>
          have same : entry.1 = address := Option.some.inj found
          rw [if_pos same]
      | succ index =>
          have later := inductionHypothesis restAscending found
          have different : entry.1 ≠ address :=
            Nat.ne_of_lt (smallest address (List.mem_of_getElem? found))
          rw [if_neg different]
          simp only [List.cons_append, List.nil_append, Body.placeIn]
          exact Option.map_eq_some_iff.mpr ⟨index, later, rfl⟩

end AddressedCode
end CilTemplate
