import CilTemplate.Proofs.Code.Addresses
import CilTemplate.Proofs.Emission.Parallel

/-
Code at other addresses.  Labels are numbered in the order in which the targets
are named, so they stay the same when the addresses change.
-/

namespace CilTemplate

namespace AddressedCode

section Relocation

variable {move : Nat → Nat} {addresses : List Nat}

theorem idxOf_map {address : Nat}
    (separate : ∀ other ∈ addresses, move other = move address → other = address) :
    (addresses.map move).idxOf (move address) = addresses.idxOf address := by
  induction addresses with
  | nil => rfl
  | cons first rest inductionHypothesis =>
      obtain ⟨here, later⟩ := List.forall_mem_cons.mp separate
      have heads : (move first == move address) = (first == address) := by
        rw [Bool.eq_iff_iff, beq_iff_eq, beq_iff_eq]
        exact ⟨here, congrArg move⟩
      rw [List.map_cons, List.idxOf_cons, List.idxOf_cons, inductionHypothesis later, heads]

theorem distinct_map
    (separate : ∀ left ∈ addresses, ∀ right ∈ addresses, move left = move right → left = right) :
    distinct (addresses.map move) = (distinct addresses).map move := by
  induction addresses with
  | nil => rfl
  | cons first rest inductionHypothesis =>
      have later := inductionHypothesis fun left leftMember right rightMember =>
        separate left (List.mem_cons_of_mem _ leftMember) right (List.mem_cons_of_mem _ rightMember)
      rw [List.map_cons, distinct, distinct, later, List.map_cons, List.filter_map]
      congr 2
      apply List.filter_congr
      intro address member
      have known := List.mem_cons_of_mem first (mem_distinct.mp member)
      rw [Function.comp_apply, Bool.eq_iff_iff, bne_iff_ne, bne_iff_ne]
      exact not_congr ⟨separate address known first List.mem_cons_self, congrArg move⟩

/-- An instruction that stands elsewhere, with targets that do, and that may
have become a short `leave`. -/
def Moved (move : Nat → Nat) (before after : Nat × Instruction Nat) : Prop :=
  after.1 = move before.1 ∧ Instruction.Narrows (before.2.mapTargets move) after.2

variable {before after : List (Nat × Instruction Nat)} {length : Nat}

theorem targets_of_moved (moved : List.Forall₂ (Moved move) before after) :
    (after.flatMap fun entry => entry.2.targets) =
      (before.flatMap fun entry => entry.2.targets).map move := by
  induction moved with
  | nil => rfl
  | cons first _ inductionHypothesis =>
      rw [List.flatMap_cons, List.flatMap_cons, List.map_append, inductionHypothesis,
        first.2.targets_eq, Instruction.targets_mapTargets]

theorem labelOf_moved {targets : List Nat} {address : Nat}
    (separate : ∀ other ∈ targets, move other = move address → other = address) :
    labelOf (targets.map move) (move address) = labelOf targets address := by
  rw [labelOf, labelOf, idxOf_map separate]

theorem markAt_moved {targets : List Nat} {address : Nat}
    (separate : ∀ other ∈ targets, move other = move address → other = address) :
    markAt (targets.map move) (move address) = markAt targets address := by
  have same : (targets.map move).contains (move address) = targets.contains address := by
    rw [Bool.eq_iff_iff, List.contains_iff_mem, List.contains_iff_mem, List.mem_map]
    constructor
    · rintro ⟨other, member, equal⟩
      rw [← separate other member equal]
      exact member
    · exact fun member => ⟨address, member, rfl⟩
  rw [markAt, markAt, same, labelOf_moved separate]

theorem forall₂_markAt (targets : List Nat) (address : Nat) :
    List.Forall₂ CodeItem.Narrows (markAt targets address) (markAt targets address) := by
  unfold markAt
  split
  · exact .cons (.mark _) .nil
  · exact .nil

theorem itemsOf_moved {targets : List Nat} (moved : List.Forall₂ (Moved move) before after)
    (apart : ∀ entry ∈ before, ∀ address, address = entry.1 ∨ address ∈ entry.2.targets →
      ∀ other ∈ targets, move other = move address → other = address) :
    List.Forall₂ CodeItem.Narrows (itemsOf targets before) (itemsOf (targets.map move) after) := by
  induction moved with
  | nil => exact .nil
  | @cons entry other _ _ first _ inductionHypothesis =>
      obtain ⟨here, later⟩ := List.forall_mem_cons.mp apart
      rcases entry with ⟨address, instruction⟩
      rcases other with ⟨_, other⟩
      obtain ⟨rfl, narrows⟩ : _ = move address ∧ _ := first
      rw [itemsOf, itemsOf, List.flatMap_cons, List.flatMap_cons]
      refine List.rel_append ?_ (inductionHypothesis later)
      dsimp only
      rw [markAt_moved (here address (Or.inl rfl))]
      refine List.rel_append (forall₂_markAt _ _) (.cons (.code ?_) .nil)
      have renamed := narrows.mapTargets (labelOf (targets.map move))
      have labels : instruction.mapTargets (fun target =>
          labelOf (targets.map move) (move target)) = instruction.mapTargets (labelOf targets) :=
        Instruction.mapTargets_congr fun target isTarget =>
          labelOf_moved (here target (Or.inr isTarget))
      rw [Instruction.mapTargets_mapTargets, labels] at renamed
      exact renamed

theorem items_of_moved {starts : List Nat}
    (separate : ∀ left ∈ starts, ∀ right ∈ starts, move left = move right → left = right)
    (moved : List.Forall₂ (Moved move) before after)
    (addresses : ∀ entry ∈ before, entry.1 ∈ starts) (atEnd : length ∈ starts)
    (landing : ∀ entry ∈ before, ∀ target ∈ entry.2.targets, target ∈ starts) :
    List.Forall₂ CodeItem.Narrows (items ⟨before, length⟩) (items ⟨after, move length⟩) := by
  have inStarts : ∀ target ∈ (AddressedCode.mk before length).targets, target ∈ starts := by
    intro target member
    obtain ⟨entry, isEntry, isTarget⟩ := mem_targets.mp member
    exact landing entry isEntry target isTarget
  have named : (AddressedCode.mk after (move length)).targets =
      (AddressedCode.mk before length).targets.map move := by
    change distinct (after.flatMap fun entry => entry.2.targets) =
      (distinct (before.flatMap fun entry => entry.2.targets)).map move
    rw [targets_of_moved moved]
    apply distinct_map
    intro left leftMember right rightMember
    exact separate left (inStarts left (mem_distinct.mpr leftMember)) right
      (inStarts right (mem_distinct.mpr rightMember))
  have apart : ∀ address ∈ starts, ∀ other ∈ (AddressedCode.mk before length).targets,
      move other = move address → other = address :=
    fun address member other isTarget => separate other (inStarts other isTarget) address member
  rw [items, items, named]
  dsimp only
  rw [markAt_moved (apart length atEnd)]
  refine List.rel_append (itemsOf_moved moved ?_) (forall₂_markAt _ length)
  rintro entry member address (rfl | isTarget)
  · exact apart _ (addresses entry member)
  · exact apart _ (landing entry member address isTarget)

end Relocation

end AddressedCode

end CilTemplate
