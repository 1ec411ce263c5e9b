import CilTemplate.Proofs.Code.KnownOpcodes
import CilTemplate.Proofs.Expansion.Cutting

/-
The depth of the stack along straight code, as the instructions declare it.
Code that computes a value starts with an instruction that leaves one and never
reaches below it again; only when it starts with a copy of the value on top it
reaches for that value.
-/

namespace CilTemplate

def Opcode.dup : Opcode := ⟨0x25⟩

namespace Instruction

def depthBehind? (instruction : Instruction Label) (depth : Nat) : Option Nat :=
  match instruction.stackPops, instruction.stackPushes with
  | .ok pops, .ok pushes => if pops ≤ depth then some (depth - pops + pushes) else none
  | _, _ => none

/-- What an instruction takes and leaves, and that control goes straight on. -/
structure HasEffect (instruction : Instruction Label) (pops pushes : Nat) : Prop where
  pops : instruction.stackPops = .ok pops
  pushes : instruction.stackPushes = .ok pushes
  straight : instruction.isControlTransfer = false

end Instruction

/-- The depth behind straight code that is entered with some depth.  There is
none behind a label or a transfer, or where values are missing. -/
def depthBehind? : List CodeItem → Nat → Option Nat
  | [], depth => some depth
  | .mark _ :: _, _ => none
  | .code instruction :: rest, depth =>
      if instruction.isControlTransfer then none
      else (instruction.depthBehind? depth).bind (depthBehind? rest)

variable {items left right : List CodeItem} {depth middle last pops pushes : Nat}
  {instruction : Instruction Label}

theorem depthBehind?_append (left right : List CodeItem) (depth : Nat) :
    depthBehind? (left ++ right) depth = (depthBehind? left depth).bind (depthBehind? right) := by
  induction left generalizing depth with
  | nil => rfl
  | cons item rest inductionHypothesis =>
      cases item with
      | mark label => rfl
      | code instruction =>
          simp only [List.cons_append, depthBehind?]
          split
          · rfl
          · rw [Option.bind_assoc]
            exact congrArg _ (funext inductionHypothesis)

theorem depthBehind?_append_of (first : depthBehind? left depth = some middle) :
    depthBehind? (left ++ right) depth = depthBehind? right middle := by
  rw [depthBehind?_append, first]
  rfl

theorem Instruction.HasEffect.depthBehind? (effect : instruction.HasEffect pops pushes)
    (enough : pops ≤ depth) (rest : List CodeItem) :
    CilTemplate.depthBehind? (.code instruction :: rest) depth =
      CilTemplate.depthBehind? rest (depth - pops + pushes) := by
  simp only [CilTemplate.depthBehind?, effect.straight, Instruction.depthBehind?, effect.pops,
    effect.pushes, if_pos enough]
  rfl

theorem Instruction.HasEffect.alone (effect : instruction.HasEffect pops pushes) (depth : Nat) :
    CilTemplate.depthBehind? [.code instruction] (depth + pops) = some (depth + pushes) := by
  rw [effect.depthBehind? (Nat.le_add_left pops depth), Nat.add_sub_cancel]
  rfl

theorem hasEffect_of_depthBehind? {rest : List CodeItem}
    (done : depthBehind? (.code instruction :: rest) depth = some last) :
    ∃ pops pushes, instruction.HasEffect pops pushes ∧ pops ≤ depth ∧
      depthBehind? rest (depth - pops + pushes) = some last := by
  rw [depthBehind?] at done
  split at done
  · cases done
  · rename_i straight
    obtain ⟨middle, first, others⟩ := Option.bind_eq_some_iff.mp done
    unfold Instruction.depthBehind? at first
    split at first
    · rename_i pops pushes popped pushed
      split at first
      · rename_i enough
        rw [← Option.some.inj first] at others
        exact ⟨pops, pushes, ⟨popped, pushed, Bool.not_eq_true _ ▸ straight⟩, enough, others⟩
      · cases first
    · cases first

theorem Instruction.HasEffect.raw {opcode : Opcode}
    (known : ∃ info, opcode.info? = some info ∧ info.pops = .fixed pops ∧
      info.pushes = .fixed pushes ∧ info.flow.isControlTransfer = false)
    (operand : Operand Label) :
    (.raw opcode operand : Instruction Label).HasEffect pops pushes := by
  obtain ⟨info, found, popped, pushed, straight⟩ := known
  constructor
  · simp only [stackPops, Instruction.pops, found, Option.map_some, Option.getD_some, popped]
  · simp only [stackPushes, Instruction.pushes, found, Option.map_some, Option.getD_some, pushed]
  · simp only [isControlTransfer, found, Option.all_some, straight]

theorem Instruction.HasEffect.argument (access : Access) (index : UInt16) :
    (.argument access index : Instruction Label).HasEffect access.pops access.pushes :=
  ⟨rfl, rfl, rfl⟩

theorem Instruction.HasEffect.localSlot (access : Access) (slot : Local) :
    (.localSlot access slot : Instruction Label).HasEffect access.pops access.pushes :=
  ⟨rfl, rfl, rfl⟩

theorem Instruction.HasEffect.field (place : FieldPlace) (access : Access) (field : Field) :
    (.field place access field : Instruction Label).HasEffect (place.pops + access.pops)
      access.pushes :=
  ⟨rfl, rfl, rfl⟩

theorem Instruction.HasEffect.call (method : Method) :
    (.call method : Instruction Label).HasEffect method.callPops method.callPushes :=
  ⟨rfl, rfl, rfl⟩

theorem depthBehind?_add (done : depthBehind? items depth = some last) (spare : Nat) :
    depthBehind? items (depth + spare) = some (last + spare) := by
  induction items generalizing depth with
  | nil => exact congrArg (fun last => some (last + spare)) (Option.some.inj done)
  | cons item rest inductionHypothesis =>
      cases item with
      | mark label => cases done
      | code instruction =>
          obtain ⟨pops, pushes, effect, enough, others⟩ := hasEffect_of_depthBehind? done
          rw [effect.depthBehind? (Nat.le_add_right_of_le enough), ← inductionHypothesis others]
          congr 1
          omega

theorem pushes_of_known : ∀ entry ∈ Opcode.known, ∀ count, entry.2.pushes = .fixed count →
    count ≤ 1 ∨ entry.1 = Opcode.dup := by
  have checked : ∀ entry ∈ Opcode.known,
      (match entry.2.pushes with
        | .fixed count => decide (count ≤ 1)
        | .dynamic => true) = true ∨ entry.1 = Opcode.dup := by
    decide +kernel
  intro entry member count fixed
  have here := checked entry member
  rw [fixed] at here
  exact here.imp of_decide_eq_true id

def Instruction.Duplicates (instruction : Instruction Label) : Prop :=
  ∃ operand, instruction = .raw Opcode.dup operand

theorem Instruction.Duplicates.hasEffect (duplicates : instruction.Duplicates) :
    instruction.HasEffect 1 2 := by
  obtain ⟨operand, rfl⟩ := duplicates
  exact .raw (by decide) operand

theorem Instruction.HasEffect.unique (left : instruction.HasEffect pops pushes)
    {otherPops otherPushes : Nat} (right : instruction.HasEffect otherPops otherPushes) :
    pops = otherPops ∧ pushes = otherPushes :=
  ⟨Except.ok.inj (left.pops.symm.trans right.pops),
    Except.ok.inj (left.pushes.symm.trans right.pushes)⟩

theorem Instruction.HasEffect.pushes_le_one (effect : instruction.HasEffect pops pushes) :
    pushes ≤ 1 ∨ instruction.Duplicates := by
  have pushed := effect.pushes
  unfold stackPushes at pushed
  split at pushed
  case h_1 count fixed =>
    rw [← Except.ok.inj pushed]
    cases instruction with
    | raw opcode operand =>
        cases info : opcode.info? with
        | none =>
            simp only [Instruction.pushes, info] at fixed
            cases fixed
        | some found =>
            simp only [Instruction.pushes, info] at fixed
            rcases pushes_of_known _ (Opcode.mem_known_of_info? info) count fixed with few | rfl
            · exact Or.inl few
            · exact Or.inr ⟨operand, rfl⟩
    | argument access index => cases access <;> cases fixed <;> exact Or.inl (by decide)
    | localSlot access slot => cases access <;> cases fixed <;> exact Or.inl (by decide)
    | field place access field => cases access <;> cases fixed <;> exact Or.inl (by decide)
    | branch condition target => cases fixed; exact Or.inl (by decide)
    | call method => cases fixed
    | ret => cases fixed; exact Or.inl (by decide)
  case h_2 method _ _ =>
    rw [← Except.ok.inj pushed, Method.callPushes]
    exact Or.inl (by split <;> decide)
  case h_3 => cases pushed

/-- An instruction that leaves a value above some others has not reached below
its own ones. -/
theorem Instruction.HasEffect.enough (effect : instruction.HasEffect pops pushes)
    (filled : 0 < depth) (leaves : pops < depth + pushes) : pops ≤ depth := by
  rcases effect.pushes_le_one with few | duplicates
  · omega
  · obtain ⟨rfl, rfl⟩ := effect.unique duplicates.hasEffect
    exact filled

namespace StackUnit

open Instruction

theorem hasEffect_of_single {position : Nat} {unit : StackUnit}
    (alone : single position instruction = .ok unit)
    (straight : instruction.isControlTransfer = false) :
    instruction.HasEffect unit.pops unit.pushes := by
  obtain ⟨_, _, popped, pushed⟩ := single_eq_ok.mp alone
  exact ⟨popped, pushed, straight⟩

theorem net_nil : net [] = 0 :=
  rfl

theorem net_passed (start stop : Nat) (units : List StackUnit) :
    net (⟨start, stop, 1, 1⟩ :: units) = net units := by
  rw [net_cons]
  exact Int.zero_add _

theorem ComputeValue.behind {unit : StackUnit} {units : List StackUnit}
    (value : ComputeValue (unit :: units)) (count : Nat) : net (units.drop count) ≤ 0 := by
  by_cases below : count < units.length
  · exact value.suffixes count (Nat.lt_succ_of_lt below)
  · rw [List.drop_eq_nil_of_le (Nat.le_of_not_lt below)]
    exact Int.le_refl 0

/-- The first instruction brings the value, perhaps as a copy, and the others
take nothing of it away. -/
theorem ComputeValue.first {unit : StackUnit} {units : List StackUnit}
    (value : ComputeValue (unit :: units))
    (effect : instruction.HasEffect unit.pops unit.pushes) :
    net units = 0 ∧ (instruction.HasEffect 0 1 ∨ instruction.Duplicates) := by
  have total := value.total
  have others : net units ≤ 0 := value.behind 0
  rw [net_cons, StackUnit.effect] at total
  rcases effect.pushes_le_one with few | duplicates
  · have popless : unit.pops = 0 := by omega
    have one : unit.pushes = 1 := by omega
    rw [popless, one] at effect
    exact ⟨by omega, Or.inl effect⟩
  · obtain ⟨pops, pushes⟩ := effect.unique duplicates.hasEffect
    exact ⟨by omega, Or.inr duplicates⟩

theorem depthBehind?_unit {unit : StackUnit} {units : List StackUnit}
    (effect : instruction.HasEffect unit.pops unit.pushes)
    (total : depth + net (unit :: units) = last) (whole : net (unit :: units) < last)
    (behind : net units < last) :
    ∃ middle : Nat, middle + net units = last ∧
      ∀ rest, depthBehind? (.code instruction :: rest) depth = depthBehind? rest middle := by
  rw [net_cons, StackUnit.effect] at total whole
  have enough : unit.pops ≤ depth := effect.enough (by omega) (by omega)
  exact ⟨depth - unit.pops + unit.pushes, by omega, effect.depthBehind? enough⟩

/-- Code whose units leave a value from each point on never runs out of
values. -/
theorem depthBehind?_of_ofItems {base position depth last : Nat} {items : List CodeItem}
    {units : List StackUnit}
    (found : ofItems base position items = .ok units) (total : depth + net units = last)
    (suffixes : ∀ count, net (units.drop count) < last) :
    depthBehind? items depth = some last := by
  cases items with
  | nil =>
      cases found
      rw [net_nil] at total
      exact congrArg some (by omega)
  | cons item rest =>
      have whole := suffixes 0
      have further := fun count => suffixes (count + 1)
      obtain ⟨instruction, rfl, straight, first | pair⟩ := ofItems_cons_eq_ok.mp found
      · obtain ⟨unit, others, rfl, alone, _, behind⟩ := first
        obtain ⟨middle, left, first⟩ := depthBehind?_unit (hasEffect_of_single alone straight)
          total whole (suffixes 1)
        rw [first]
        exact depthBehind?_of_ofItems behind left further
      · obtain ⟨next, behind, others, rfl, pair, rfl, sliced⟩ := pair
        obtain ⟨stored, loaded, rfl, rfl⟩ := slots_of_passesOn pair
        rw [List.drop_zero, net_passed] at whole
        rw [net_passed] at total
        have filled : 1 ≤ depth := by omega
        have same : depth - Access.store.pops + Access.store.pushes - Access.load.pops +
            Access.load.pushes = depth := Nat.sub_add_cancel filled
        rw [(HasEffect.localSlot .store stored).depthBehind? filled,
          (HasEffect.localSlot .load loaded).depthBehind? (Nat.zero_le _), same]
        exact depthBehind?_of_ofItems sliced (by omega) further
termination_by items.length

end StackUnit

/-- Code that computes a value starts with the value or with a copy of the one
on top, and does not go below it again. -/
theorem ComputesValue.split (value : ComputesValue items) :
    ∃ instruction rest, items = .code instruction :: rest ∧ depthBehind? rest 1 = some 1 ∧
      (instruction.HasEffect 0 1 ∨ instruction.Duplicates) := by
  obtain ⟨units, found, value⟩ := value
  cases items with
  | nil =>
      cases found
      cases value.total
  | cons item rest =>
      obtain ⟨instruction, rfl, straight, first | pair⟩ := StackUnit.ofItems_cons_eq_ok.mp found
      · obtain ⟨unit, others, rfl, alone, _, behind⟩ := first
        obtain ⟨balanced, shape⟩ :=
          value.first (StackUnit.hasEffect_of_single alone straight)
        refine ⟨instruction, rest, rfl, ?_, shape⟩
        apply StackUnit.depthBehind?_of_ofItems behind
        · rw [balanced]
          rfl
        · exact fun count => Int.lt_of_le_of_lt (value.behind count) Int.one_pos
      · obtain ⟨next, behind, others, rfl, _, rfl, _⟩ := pair
        have total := value.total
        have rest : StackUnit.net others ≤ 0 := value.behind 0
        rw [StackUnit.net_passed] at total
        omega

/-- Code that computes a value leaves one more.  Where it starts with a copy there
has to be something to copy. -/
theorem ComputesValue.depthBehind? (value : ComputesValue items)
    (filled : ∀ instruction, items.head? = some (.code instruction) →
      instruction.Duplicates → 0 < depth) :
    CilTemplate.depthBehind? items depth = some (depth + 1) := by
  obtain ⟨instruction, rest, rfl, others, fresh | copies⟩ := value.split
  · have more := depthBehind?_add others depth
    rw [fresh.depthBehind? (Nat.zero_le _), Nat.sub_zero, Nat.add_comm depth, more]
  · have more := depthBehind?_add others depth
    have enough := filled instruction rfl copies
    rw [copies.hasEffect.depthBehind? enough, show depth - 1 + 2 = 1 + depth by omega, more,
      Nat.add_comm]

theorem depthBehind?_values {pieces : List (List CodeItem)}
    (values : ∀ piece ∈ pieces, ComputesValue piece) (filled : 0 < depth) :
    depthBehind? pieces.flatten depth = some (depth + pieces.length) := by
  induction pieces generalizing depth with
  | nil => rfl
  | cons piece rest inductionHypothesis =>
      obtain ⟨first, others⟩ := List.forall_mem_cons.mp values
      rw [List.flatten_cons, depthBehind?_append_of (first.depthBehind? fun _ _ _ => filled),
        inductionHypothesis others (Nat.succ_pos depth), List.length_cons, Nat.succ_add_eq_add_succ]

end CilTemplate
