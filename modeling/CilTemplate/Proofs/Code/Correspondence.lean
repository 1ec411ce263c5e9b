import CilTemplate.Code.Body
import CilTemplate.Code.Form

/-
When two bodies are the same code.  Their labels and locals have identities of
their own, so a target is compared by the instruction that it denotes and a
local by its slot.
-/

namespace CilTemplate

namespace Operand

variable {Target Renamed Other : Type}

theorem mapTargets_mapTargets (operand : Operand Target) (first : Target → Renamed)
    (second : Renamed → Other) :
    (operand.mapTargets first).mapTargets second =
      operand.mapTargets fun target => second (first target) := by
  cases operand with
  | switch targets => simp [mapTargets]
  | _ => rfl

theorem mapTargets_congr {operand : Operand Target} {first second : Target → Renamed}
    (same : ∀ target ∈ operand.targets, first target = second target) :
    operand.mapTargets first = operand.mapTargets second := by
  cases operand with
  | label target => exact congrArg Operand.label (same target (List.mem_singleton_self target))
  | switch targets => exact congrArg Operand.switch (List.map_congr_left same)
  | _ => rfl

theorem mapTargets_of_targets_eq_nil {operand : Operand Target} (closed : operand.targets = [])
    (rename : Target → Target) : operand.mapTargets rename = operand := by
  cases operand with
  | label target => cases closed
  | switch targets =>
      have empty : targets = [] := closed
      rw [empty]
      rfl
  | _ => rfl

theorem targets_mapTargets (operand : Operand Target) (rename : Target → Renamed) :
    (operand.mapTargets rename).targets = operand.targets.map rename := by
  cases operand <;> rfl

end Operand

namespace Instruction

variable {Target Renamed Other : Type}

def mapLocal (rename : Local → Local) : Instruction Target → Instruction Target
  | localSlot access slot => localSlot access (rename slot)
  | other => other

theorem mapTargets_mapTargets (instruction : Instruction Target) (first : Target → Renamed)
    (second : Renamed → Other) :
    (instruction.mapTargets first).mapTargets second =
      instruction.mapTargets fun target => second (first target) := by
  cases instruction with
  | raw opcode operand =>
      exact congrArg (raw opcode) (operand.mapTargets_mapTargets first second)
  | _ => rfl

theorem mapTargets_congr {instruction : Instruction Target} {first second : Target → Renamed}
    (same : ∀ target ∈ instruction.targets, first target = second target) :
    instruction.mapTargets first = instruction.mapTargets second := by
  cases instruction with
  | branch condition target =>
      exact congrArg (branch condition) (same target (List.mem_singleton_self target))
  | raw opcode operand => exact congrArg (raw opcode) (Operand.mapTargets_congr same)
  | _ => rfl

theorem targets_mapTargets (instruction : Instruction Target) (rename : Target → Renamed) :
    (instruction.mapTargets rename).targets = instruction.targets.map rename := by
  cases instruction with
  | raw opcode operand => exact operand.targets_mapTargets rename
  | _ => rfl

theorem mapLocal_mapTargets (instruction : Instruction Target) (ofLocal : Local → Local)
    (rename : Target → Renamed) :
    (instruction.mapTargets rename).mapLocal ofLocal =
      (instruction.mapLocal ofLocal).mapTargets rename := by
  cases instruction <;> rfl

theorem mapLocal_mapLocal (instruction : Instruction Target) (first second : Local → Local) :
    (instruction.mapLocal first).mapLocal second =
      instruction.mapLocal fun slot => second (first slot) := by
  cases instruction <;> rfl

/-- The same instruction, except that a long `leave` may have become a short one. -/
inductive Narrows : Instruction Target → Instruction Target → Prop
  | same (instruction : Instruction Target) : Narrows instruction instruction
  | leave (target : Target) :
      Narrows (raw Opcode.leave (.label target)) (raw Opcode.leaveS (.label target))

theorem targets_mapLocal (instruction : Instruction Target) (ofLocal : Local → Local) :
    (instruction.mapLocal ofLocal).targets = instruction.targets := by
  cases instruction <;> rfl

theorem Narrows.targets_eq {before after : Instruction Target} (narrows : Narrows before after) :
    after.targets = before.targets := by
  cases narrows <;> rfl

theorem Narrows.mapTargets {before after : Instruction Target} (narrows : Narrows before after)
    (rename : Target → Renamed) :
    Narrows (before.mapTargets rename) (after.mapTargets rename) := by
  cases narrows with
  | same => exact .same _
  | leave target => exact .leave (rename target)

theorem Narrows.mapLocal {before after : Instruction Target} (narrows : Narrows before after)
    (ofLocal : Local → Local) : Narrows (before.mapLocal ofLocal) (after.mapLocal ofLocal) := by
  cases narrows with
  | same => exact .same _
  | leave target => exact .leave target

end Instruction

namespace Body

def declareAll (known : List Local) : List Local → List Local
  | [] => known
  | slot :: rest =>
      if known.any fun declared => declared.identity == slot.identity then declareAll known rest
      else declareAll (known ++ [slot]) rest

def declared (body : Body) : List Local :=
  declareAll [] body.locals

def inSlot (body : Body) (slot : Local) : Local :=
  let number := body.declared.findIdx fun declared => declared.identity == slot.identity
  ⟨.index number, none, ((body.declared[number]?).getD slot).declaration⟩

/-- The number of instructions in front of the mark of a label. -/
def placeIn : List CodeItem → Identity → Option Nat
  | [], _ => none
  | .mark label :: rest, identity =>
      if label.identity = identity then some 0 else placeIn rest identity
  | .code _ :: rest, identity => (placeIn rest identity).map (· + 1)

/-- The instruction that a label denotes, by its number; the end of the body
is denoted by the number of all instructions. -/
def place? (body : Body) (label : Label) : Option Nat :=
  placeIn body.items label.identity

/-- An instruction without the identities that belong to its body. -/
def view (body : Body) (instruction : Instruction Label) : Instruction (Option Nat) :=
  (instruction.mapTargets body.place?).mapLocal body.inSlot

end Body
end CilTemplate
