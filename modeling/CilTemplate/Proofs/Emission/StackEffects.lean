import CilTemplate.Proofs.Code.TypedForms
import CilTemplate.Proofs.Emission.Encode
import CilTemplate.Proofs.Emission.StackPaths
import CilTemplate.Proofs.Expansion.Depth

/-
The two counts of what an instruction takes from the stack and leaves on it.
Arguments are cut out of code by the one, and the emitter follows the other
while it writes.
-/

namespace CilTemplate

open CilTemplate.Action
open CilTemplate.EmitterCall

section Counts

variable {Target Renamed : Type}

/-- The opcode takes and leaves these numbers of values, whatever its operand. -/
def Opcode.hasCounts (opcode : Opcode) (pops pushes : Nat) : Bool :=
  opcode.info?.any fun info => info.pops == .fixed pops && info.pushes == .fixed pushes

/-- The second instruction takes and leaves what the first does. -/
structure Instruction.SameEffect (first : Instruction Target) (second : Instruction Renamed) :
    Prop where
  pops : second.stackPops = first.stackPops
  pushes : second.stackPushes = first.stackPushes

namespace Instruction

theorem sameEffect_mapTargets (instruction : Instruction Target) (rename : Target → Renamed) :
    instruction.SameEffect (instruction.mapTargets rename) := by
  cases instruction with
  | raw opcode operand => cases operand <;> exact ⟨rfl, rfl⟩
  | _ => exact ⟨rfl, rfl⟩

theorem isControlTransfer_mapTargets (instruction : Instruction Target)
    (rename : Target → Renamed) :
    (instruction.mapTargets rename).isControlTransfer = instruction.isControlTransfer := by
  cases instruction <;> rfl

theorem SameEffect.of_hasCounts {first : Instruction Target} {pops pushes : Nat}
    {opcode : Opcode} (counts : opcode.hasCounts pops pushes = true) (operand : Operand Renamed)
    (taken : first.stackPops = .ok pops) (left : first.stackPushes = .ok pushes) :
    first.SameEffect (.raw opcode operand) := by
  cases known : opcode.info? with
  | none =>
      rw [Opcode.hasCounts, known] at counts
      cases counts
  | some info =>
      rw [Opcode.hasCounts, known] at counts
      obtain ⟨samePops, samePushes⟩ := Bool.and_eq_true_iff.mp counts
      constructor
      · rw [taken]
        simp [stackPops, Instruction.pops, known, beq_iff_eq.mp samePops]
      · rw [left]
        simp [stackPushes, Instruction.pushes, known, beq_iff_eq.mp samePushes]

end Instruction

theorem Flow.isControlTransfer_of_endsPath {flow : Flow} (ends : flow.endsPath = true) :
    flow.isControlTransfer = true := by
  revert ends
  cases flow <;> decide

theorem Access.opcodes_haveCounts (access : Access) :
    (∀ opcode ∈ access.argumentForms.opcodes,
      opcode.hasCounts access.pops access.pushes = true) ∧
    ∀ opcode ∈ access.localForms.opcodes,
      opcode.hasCounts access.pops access.pushes = true := by
  cases access <;> decide +kernel

theorem Access.opcodes_goOn (access : Access) :
    (∀ opcode ∈ access.argumentForms.opcodes, endsPath opcode = false) ∧
      ∀ opcode ∈ access.localForms.opcodes, endsPath opcode = false := by
  cases access <;> decide +kernel

theorem FieldPlace.opcode_hasCounts (place : FieldPlace) (access : Access) :
    (place.opcode access).hasCounts (place.pops + access.pops) access.pushes = true := by
  cases place <;> cases access <;> decide +kernel

theorem BranchCondition.longOpcode_hasCounts (condition : BranchCondition) :
    condition.longOpcode.hasCounts condition.pops 0 = true := by
  cases condition <;> decide +kernel

theorem Instruction.sameEffect_of_encoding? {handled : Instruction Nat}
    {slots : List (Identity × UInt16)} {opcode : Opcode} {operand : Operand Nat}
    (encoding : handled.encoding? slots = some (opcode, operand)) (noReturn : handled ≠ .ret) :
    handled.SameEffect (.raw opcode operand) := by
  cases handled with
  | argument access index =>
      have member := @SlotForms.encode_mem Nat access.argumentForms index
      rw [Option.some.inj encoding] at member
      exact .of_hasCounts (access.opcodes_haveCounts.1 opcode member) operand rfl rfl
  | localSlot access slot =>
      obtain ⟨index, _, same⟩ := Option.map_eq_some_iff.mp encoding
      have member := @SlotForms.encode_mem Nat access.localForms index
      rw [same] at member
      exact .of_hasCounts (access.opcodes_haveCounts.2 opcode member) operand rfl rfl
  | field place access found =>
      obtain ⟨rfl, rfl⟩ := Prod.mk.inj (Option.some.inj encoding)
      exact .of_hasCounts (place.opcode_hasCounts access) _ rfl rfl
  | branch condition target =>
      obtain ⟨rfl, rfl⟩ := Prod.mk.inj (Option.some.inj encoding)
      exact .of_hasCounts condition.longOpcode_hasCounts _ rfl rfl
  | call method =>
      obtain ⟨rfl, rfl⟩ := Prod.mk.inj (Option.some.inj encoding)
      unfold Method.callOpcode
      split <;> exact ⟨rfl, rfl⟩
  | ret => exact absurd rfl noReturn
  | raw opcode operand =>
      obtain ⟨rfl, rfl⟩ := Prod.mk.inj (Option.some.inj encoding)
      exact ⟨rfl, rfl⟩

theorem Instruction.endsPath_of_encoding? {handled : Instruction Nat}
    {slots : List (Identity × UInt16)} {opcode : Opcode} {operand : Operand Nat}
    (encoding : handled.encoding? slots = some (opcode, operand))
    (straight : handled.isControlTransfer = false) : endsPath opcode = false := by
  cases handled with
  | argument access index =>
      have member := @SlotForms.encode_mem Nat access.argumentForms index
      rw [Option.some.inj encoding] at member
      exact access.opcodes_goOn.1 opcode member
  | localSlot access slot =>
      obtain ⟨index, _, same⟩ := Option.map_eq_some_iff.mp encoding
      have member := @SlotForms.encode_mem Nat access.localForms index
      rw [same] at member
      exact access.opcodes_goOn.2 opcode member
  | field place access found =>
      obtain ⟨rfl, _⟩ := Prod.mk.inj (Option.some.inj encoding)
      cases place <;> cases access <;> decide +kernel
  | branch condition target => cases straight
  | call method =>
      obtain ⟨rfl, _⟩ := Prod.mk.inj (Option.some.inj encoding)
      unfold Method.callOpcode
      split <;> decide +kernel
  | ret => cases straight
  | raw opcode operand =>
      obtain ⟨rfl, _⟩ := Prod.mk.inj (Option.some.inj encoding)
      cases known : opcode.info? with
      | none =>
          rw [isControlTransfer, known] at straight
          cases straight
      | some info =>
          rw [isControlTransfer, known, Option.all_some] at straight
          rw [endsPath, known, Option.any_some]
          cases ends : info.flow.endsPath with
          | false => rfl
          | true =>
              rw [Flow.isControlTransfer_of_endsPath ends] at straight
              cases straight

theorem Instruction.ne_ret_of_stackPops {opcode : Opcode} {operand : Operand Target} {pops : Nat}
    (taken : (Instruction.raw opcode operand).stackPops = .ok pops) : opcode ≠ Opcode.ret := by
  rintro rfl
  cases operand <;> cases taken

end Counts

section Steps

variable {pops pushes : Nat}

theorem Emitter.depth_of_emit {opcode : Opcode} {operand : Operand Nat} {before after : Emitter}
    (taken : (Instruction.raw opcode operand).stackPops = .ok pops)
    (left : (Instruction.raw opcode operand).stackPushes = .ok pushes)
    (reachable : before.reachable = true)
    (done : run (emit opcode operand) before = (.ok (), after)) :
    (pops : Int) ≤ before.depth ∧ after.depth = before.depth - pops + pushes ∧
      after.reachable = !endsPath opcode := by
  obtain ⟨info, followedPops, followedPushes, known, effect, emits, reached⟩ := run_emit done
  obtain ⟨piece, writes, _⟩ := emits.written
  have declared := declaredEffect_of_stackEffect known effect writes
  rw [declaredEffect_eq (Instruction.ne_ret_of_stackPops taken) taken left] at declared
  obtain ⟨rfl, rfl⟩ := Prod.mk.inj (Except.ok.inj declared)
  have follows := emits.follows
  rw [reachable] at follows reached
  have enough := follows.noUnderflow rfl
  exact ⟨by omega, follows.depth_eq_of_reachable, by rw [reached, endsPath, known]; rfl⟩

namespace Encoder

variable {before after encoder : Encoder Emitter} {instruction : Instruction Label}

/-- One step of the emitter is what the instruction declares of itself. -/
theorem depth_of_encodeInstruction (taken : instruction.stackPops = .ok pops)
    (left : instruction.stackPushes = .ok pushes) (reachable : before.sink.reachable = true)
    (done : run (encodeInstruction instruction) before = (.ok (), after)) :
    (pops : Int) ≤ before.sink.depth ∧
      after.sink.depth = before.sink.depth - pops + pushes ∧
        (instruction.isControlTransfer = false → after.sink.reachable = true) := by
  rcases emission_of_encodeInstruction done with
    @⟨middle, handled, opcode, operand, _, onlyMarks, targets, encoding, emitted⟩
  have named := instruction.sameEffect_mapTargets middle.handle?
  rw [targets] at named
  have numbered := handled.sameEffect_mapTargets (some : Nat → Option Nat)
  have noReturn : handled ≠ .ret := by
    rintro rfl
    rw [← named.pops] at taken
    cases taken
  have written := Instruction.sameEffect_of_encoding? encoding noReturn
  rw [← named.pops, numbered.pops, ← written.pops] at taken
  rw [← named.pushes, numbered.pushes, ← written.pushes] at left
  obtain ⟨enough, followed, reached⟩ := Emitter.depth_of_emit taken left
    (onlyMarks.reachable.trans reachable) (sink_of_emit emitted).1
  rw [onlyMarks.depth] at enough followed
  refine ⟨enough, followed, ?_⟩
  intro straight
  rw [← instruction.isControlTransfer_mapTargets middle.handle?, targets,
    Instruction.isControlTransfer_mapTargets] at straight
  rw [reached, Instruction.endsPath_of_encoding? encoding straight]
  rfl

/-- By induction on the items, the emitter comes to the depth at which straight
code is left, and none of the code lacks a value. -/
theorem depthBehind?_of_encodeItems {items : List CodeItem} {depth : Nat}
    (straight : ∀ item ∈ items, ∃ instruction pops pushes,
      item = .code instruction ∧ instruction.HasEffect pops pushes)
    (reachable : before.sink.reachable = true) (start : before.sink.depth = depth)
    (done : run (encodeItems items) before = (.ok (), after)) :
    ∃ last : Nat, depthBehind? items depth = some last ∧ after.sink.depth = last ∧
      after.sink.reachable = true := by
  induction items generalizing before depth with
  | nil =>
      obtain ⟨_, rfl⟩ := Prod.mk.inj done
      exact ⟨depth, rfl, start, reachable⟩
  | cons item rest inductionHypothesis =>
      obtain ⟨⟨instruction, pops, pushes, rfl, effect⟩, others⟩ := List.forall_mem_cons.mp straight
      obtain ⟨_, middle, first, later⟩ := run_bind_eq_ok.mp done
      obtain ⟨enough, followed, reached⟩ :=
        depth_of_encodeInstruction effect.pops effect.pushes reachable first
      rw [start] at enough followed
      have next : middle.sink.depth = ((depth - pops + pushes : Nat) : Int) := by omega
      obtain ⟨last, behind, ended⟩ :=
        inductionHypothesis others (reached effect.straight) next later
      refine ⟨last, ?_, ended⟩
      rw [effect.depthBehind? (by omega), behind]

/-- What an instruction says of its own effect is what the emitter follows where
control arrives. -/
theorem encodeInstruction_follows_stack (taken : instruction.stackPops = .ok pops)
    (left : instruction.stackPushes = .ok pushes) (reachable : encoder.sink.reachable = true) :
    (∀ after, run (encodeInstruction instruction) encoder = (.ok (), after) →
      (pops : Int) ≤ encoder.sink.depth ∧
        after.sink.depth = encoder.sink.depth - pops + pushes) ∧
    (encoder.sink.depth < pops →
      ∃ error after, run (encodeInstruction instruction) encoder = (.error error, after)) := by
  constructor
  · intro after done
    obtain ⟨enough, followed, _⟩ := depth_of_encodeInstruction taken left reachable done
    exact ⟨enough, followed⟩
  · intro missing
    apply exists_error_of_ne_ok
    intro _ after done
    obtain ⟨enough, _⟩ := depth_of_encodeInstruction taken left reachable done
    omega

end Encoder
end Steps

namespace StackEffectsSample

def valueType : CilType := ⟨⟨0x02000001⟩, "Demo", "Value", "Demo", .reference, 1⟩

def scale : Method :=
  ⟨⟨0x06000001⟩, "Scale", valueType, [valueType, valueType], some valueType, 0⟩

def behindLoads (count : Nat) : Encoder Emitter :=
  let loads := List.replicate count (EmitterCall.emit Opcode.ldnull .none)
  .onto (run (performAll loads) Emitter.empty).2 EncoderOptions.standard

end StackEffectsSample

open StackEffectsSample in
theorem encodeInstruction_follows_stack_of_call :
    (∃ after, run (Encoder.encodeInstruction (.call scale)) (behindLoads 3) = (.ok (), after) ∧
      after.sink.depth = 1) ∧
    ∃ error after,
      run (Encoder.encodeInstruction (.call scale)) (behindLoads 2) = (.error error, after) := by
  obtain ⟨follows, _⟩ := @Encoder.encodeInstruction_follows_stack 3 1 (behindLoads 3)
    (.call scale) rfl rfl (by decide +kernel)
  obtain ⟨_, fails⟩ := @Encoder.encodeInstruction_follows_stack 3 1 (behindLoads 2)
    (.call scale) rfl rfl (by decide +kernel)
  have done : run (Encoder.encodeInstruction (.call scale)) (behindLoads 3) = (.ok (), _) :=
    run_eq_ok_of_toOption (by decide +kernel)
  have three : (behindLoads 3).sink.depth = 3 := by decide +kernel
  refine ⟨⟨_, done, ?_⟩, fails (by decide +kernel)⟩
  obtain ⟨_, followed⟩ := follows _ done
  rw [followed, three]
  rfl

end CilTemplate
