import CilTemplate.Proofs.Code.TypedForms
import CilTemplate.Proofs.Emission.Encode
import CilTemplate.Proofs.Emission.Reached
import CilTemplate.Proofs.Emission.Validation

/-
Code that is rejected.  A body is checked before anything is asked of the
emitter, and what passes the check is not rejected while it is written, except
for one label: the check sees one body at a time, and an earlier body may have
marked the label.
-/

namespace CilTemplate

open CilTemplate.Action

/-- The errors by which code is rejected for what it says. -/
def Error.isRejection : Error → Bool
  | .duplicateLabel _ | .undefinedLabel _ | .unknownLocal _ | .wrongOperandType _ _
  | .notImplemented _ => true
  | _ => false

namespace Action

variable {State Result Next : Type}

/-- Where the action fails, it is not a rejection. -/
def NeverRejects (action : Action State Result) : Prop :=
  ∀ (state after : State) (error : Error),
    run action state = (.error error, after) → error.isRejection = false

namespace NeverRejects

theorem pure (value : Result) : NeverRejects (pure value : Action State Result) := by
  rintro _ _ _ ⟨⟩

theorem get : NeverRejects (get : Action State State) := by
  rintro _ _ _ ⟨⟩

theorem set (next : State) : NeverRejects (set next : Action State PUnit) := by
  rintro _ _ _ ⟨⟩

theorem modify (change : State → State) :
    NeverRejects (modify change : Action State PUnit) := by
  rintro _ _ _ ⟨⟩

theorem throw_bind {error : Error} (other : error.isRejection = false)
    (next : Result → Action State Next) :
    NeverRejects ((throw error : Action State Result) >>= next) := by
  intro state after found failed
  rw [run_bind, run_throw] at failed
  cases failed
  exact other

theorem throw {error : Error} (other : error.isRejection = false) :
    NeverRejects (throw error : Action State Result) := by
  rintro _ _ _ ⟨⟩
  exact other

theorem lift (step : StateM State Result) :
    NeverRejects (ExceptT.lift step : Action State Result) := by
  intro state after error failed
  rw [run_lift] at failed
  cases failed

theorem ofExcept {result : Except Error Result}
    (other : ∀ error, result = .error error → error.isRejection = false) :
    NeverRejects (Action.ofExcept result : Action State Result) := by
  rintro _ _ error ⟨⟩
  exact other error rfl

theorem bind {action : Action State Result} {next : Result → Action State Next}
    (first : NeverRejects action) (rest : ∀ value, NeverRejects (next value)) :
    NeverRejects (action >>= next) := by
  intro state after error failed
  rcases run_bind_eq_error.mp failed with early | ⟨value, middle, _, late⟩
  · exact first state after error early
  · exact rest value middle after error late

end NeverRejects
end Action

namespace Emitter

theorem stackEffect_not_rejected {opcode : Opcode} {info : OpcodeInfo} {operand : Operand Nat}
    {depth : Int} {error : Error} (failed : stackEffect opcode info operand depth = .error error) :
    error.isRejection = false := by
  rcases stackEffect_eq_error failed with ⟨count, rfl⟩ | rfl <;> rfl

theorem neverRejects_updateDepth (mnemonic : String) (pops pushes : Int) :
    NeverRejects (updateDepth mnemonic pops pushes) := by
  unfold updateDepth
  refine NeverRejects.get.bind fun emitter => ?_
  dsimp only
  split
  · exact (NeverRejects.set _).bind fun _ => .throw_bind rfl _
  · refine (NeverRejects.set _).bind fun _ => ?_
    split
    · exact .throw_bind rfl _
    · exact .modify _

theorem neverRejects_recordDepth (label : Nat) : NeverRejects (recordDepth label) := by
  unfold recordDepth
  refine NeverRejects.get.bind fun emitter => ?_
  split
  · split
    · split
      · exact .throw rfl
      · exact .pure ()
    · exact .set _
  · exact .pure ()

theorem neverRejects_recordDepths (labels : List Nat) : NeverRejects (recordDepths labels) := by
  induction labels with
  | nil => exact .pure ()
  | cons label rest inductionHypothesis =>
      exact (neverRejects_recordDepth label).bind fun _ => inductionHypothesis

theorem neverRejects_emitPiece {opcode : Opcode} {info : OpcodeInfo} {operand : Operand Nat}
    (fits : operand.fits info.operand = true) (noSignature : ∀ blob, operand ≠ .signature blob)
    (pops pushes : Int) : NeverRejects (emitPiece opcode info operand pops pushes) := by
  have pushed : ∀ piece, NeverRejects (pushPiece piece) := fun _ => .modify _
  have follows := neverRejects_updateDepth info.mnemonic pops pushes
  have plain : ∀ {action : Action Emitter (List UInt8)}, NeverRejects action →
      NeverRejects (do
        let bytes ← action
        pushPiece (.plain (opcode.bytes ++ bytes))
        updateDepth info.mnemonic pops pushes) :=
    fun written => written.bind fun _ => (pushed _).bind fun _ => follows
  cases operand with
  | signature blob => exact absurd rfl (noSignature blob)
  | label target =>
      have branch : ∀ piece, NeverRejects (do
          pushPiece piece
          updateDepth info.mnemonic pops pushes
          recordDepth target) :=
        fun piece => (pushed piece).bind fun _ => follows.bind fun _ =>
          neverRejects_recordDepth target
      unfold emitPiece
      rcases Bool.or_eq_true_iff.mp fits with long | short
      · rw [beq_iff_eq.mp long]
        exact branch _
      · rw [beq_iff_eq.mp short]
        exact branch _
  | switch targets =>
      unfold emitPiece
      rw [beq_iff_eq.mp fits]
      refine follows.bind fun _ => (neverRejects_recordDepths targets).bind fun _ => ?_
      dsimp only
      split
      · exact .throw_bind rfl _
      · exact pushed _
  | immediate value =>
      have kind := beq_iff_eq.mp fits
      unfold emitPiece operandBytes
      rw [kind]
      cases value <;> exact plain (.pure _)
  | string text =>
      unfold emitPiece operandBytes
      rw [beq_iff_eq.mp fits]
      exact plain ((NeverRejects.get.bind fun _ => (NeverRejects.set _).bind fun _ => .pure _).bind
        fun _ => .pure _)
  | _ =>
      unfold emitPiece operandBytes
      rw [beq_iff_eq.mp fits]
      exact plain (.pure _)

theorem neverRejects_emit {opcode : Opcode} {operand : Operand Nat}
    (writable : Encoder.checkRaw opcode operand = .ok ()) :
    NeverRejects (emit opcode operand) := by
  obtain ⟨info, known, fits, noSignature⟩ := Encoder.checkRaw_eq_ok_iff.mp writable
  rw [emit, known]
  refine NeverRejects.get.bind fun emitter =>
    (NeverRejects.ofExcept fun _ => stackEffect_not_rejected).bind fun effect =>
      (neverRejects_emitPiece fits noSignature effect.1 effect.2).bind fun _ => ?_
  split
  · exact .modify _
  · exact .pure ()

theorem neverRejects_enterLabel (label : Nat) : NeverRejects (enterLabel label) := by
  unfold enterLabel
  refine NeverRejects.get.bind fun emitter => ?_
  dsimp only
  split
  · split
    · exact (NeverRejects.set _).bind fun _ => .modify _
    · split
      · exact .throw_bind rfl _
      · exact .modify _
  · split
    · exact (NeverRejects.set _).bind fun _ => .modify _
    · exact (NeverRejects.set _).bind fun _ => .modify _

theorem rejection_of_markLabel {label : Nat} {emitter after : Emitter} {error : Error}
    (bound : label < emitter.marks.size) (rejection : error.isRejection = true)
    (failed : run (markLabel label) emitter = (.error error, after)) :
    (∃ place, emitter.marks[label]? = some (some place)) ∧
      error = .duplicateLabel (Layout.labelText label) ∧ after = emitter := by
  simp only [markLabel, run_bind, run_get, run_ite, run_throw] at failed
  split at failed
  · obtain ⟨same, _⟩ := Prod.mk.inj failed
    rw [← Except.error.inj same] at rejection
    cases rejection
  · split at failed
    · rename_i unknown
      rw [Array.getElem?_eq_getElem bound] at unknown
      cases unknown
    · rename_i place marked
      obtain ⟨same, rfl⟩ := Prod.mk.inj failed
      exact ⟨⟨place, marked⟩, (Except.error.inj same).symm, rfl⟩
    · rw [neverRejects_enterLabel label _ _ error failed] at rejection
      cases rejection

end Emitter

namespace Encoder

theorem checkRaw_of_encoding? {instruction : Instruction Nat}
    {slots : List (Identity × UInt16)} {opcode : Opcode} {operand : Operand Nat}
    (writable : instruction.Writable)
    (encoding : instruction.encoding? slots = some (opcode, operand)) :
    checkRaw opcode operand = .ok () := by
  cases instruction with
  | argument access index =>
      have form := @SlotForms.checkRaw_encode Nat _ access.areWritable_forms.1 index
      rw [Option.some.inj encoding] at form
      exact form
  | localSlot access slot =>
      obtain ⟨index, _, same⟩ := Option.map_eq_some_iff.mp encoding
      have form := @SlotForms.checkRaw_encode Nat _ access.areWritable_forms.2 index
      rw [same] at form
      exact form
  | field place access found =>
      obtain ⟨rfl, rfl⟩ := Prod.mk.inj (Option.some.inj encoding)
      refine checkRaw_of_takes ?_ (rfl : Operand.fits (.field found) .field = true) nofun
      cases place <;> cases access <;> decide +kernel
  | branch condition target =>
      obtain ⟨rfl, rfl⟩ := Prod.mk.inj (Option.some.inj encoding)
      refine checkRaw_of_takes ?_ (rfl : Operand.fits (.label target) .branch = true) nofun
      cases condition <;> decide +kernel
  | call method =>
      obtain ⟨rfl, rfl⟩ := Prod.mk.inj (Option.some.inj encoding)
      refine checkRaw_of_takes ?_ (rfl : Operand.fits (.method method) .method = true) nofun
      unfold Method.callOpcode
      split <;> decide +kernel
  | ret =>
      obtain ⟨rfl, rfl⟩ := Prod.mk.inj (Option.some.inj encoding)
      exact checkRaw_of_takes (by decide +kernel) (rfl : Operand.fits .none .none = true) nofun
  | raw opcode operand =>
      obtain ⟨rfl, rfl⟩ := Prod.mk.inj (Option.some.inj encoding)
      exact writable

theorem checkRaw_mapTargets {Target Renamed : Type} (opcode : Opcode) (operand : Operand Target)
    (rename : Target → Renamed) :
    checkRaw opcode (operand.mapTargets rename) = checkRaw opcode operand := by
  cases operand <;> rfl

theorem neverRejects_onSink {Sink Result : Type} {action : Action Sink Result}
    (never : NeverRejects action) : NeverRejects (onSink action) := by
  intro encoder after error failed
  rw [onSink, run_onPart] at failed
  obtain ⟨early, _⟩ := Prod.mk.inj failed
  exact never _ _ error (Prod.ext early rfl)

theorem neverRejects_labelHandle (label : Label) :
    NeverRejects (labelHandle label : Action (Encoder Emitter) Nat) := by
  refine NeverRejects.get.bind fun encoder => ?_
  split
  · exact .pure _
  · exact (neverRejects_onSink (.lift _)).bind fun _ => (NeverRejects.modify _).bind fun _ =>
      .pure _

theorem neverRejects_labelHandles (labels : List Label) :
    NeverRejects (labelHandles labels : Action (Encoder Emitter) (List Nat)) := by
  induction labels with
  | nil => exact .pure []
  | cons label rest inductionHypothesis =>
      exact (neverRejects_labelHandle label).bind fun _ => inductionHypothesis.bind fun _ => .pure _

theorem neverRejects_operandWithHandles (operand : Operand Label) :
    NeverRejects (operandWithHandles operand : Action (Encoder Emitter) (Operand Nat)) := by
  cases operand with
  | label target => exact (neverRejects_labelHandle target).bind fun _ => .pure _
  | switch targets => exact (neverRejects_labelHandles targets).bind fun _ => .pure _
  | _ => exact .pure _

theorem neverRejects_emit {opcode : Opcode} {operand : Operand Nat}
    (writable : checkRaw opcode operand = .ok ()) :
    NeverRejects (emit opcode operand : Action (Encoder Emitter) Unit) :=
  NeverRejects.get.bind fun _ => (NeverRejects.modify _).bind fun _ =>
    neverRejects_onSink (Emitter.neverRejects_emit writable)

theorem not_rejected_of_encodeInstruction {instruction : Instruction Label}
    {encoder after : Encoder Emitter} {error : Error} (writable : instruction.Writable)
    (declared : ∀ slot ∈ instruction.slot?, slot.identity ∈ encoder.slots.map Prod.fst)
    (failed : run (encodeInstruction instruction) encoder = (.error error, after)) :
    error.isRejection = false := by
  have emitted : ∀ (handled : Instruction Nat) {form : Opcode × Operand Nat},
      handled.Writable → handled.encoding? encoder.slots = some form →
        NeverRejects (emit form.1 form.2 : Action (Encoder Emitter) Unit) :=
    fun _ _ writable encoding => neverRejects_emit (checkRaw_of_encoding? writable encoding)
  cases instruction with
  | argument access index =>
      exact emitted (.argument access index) trivial rfl _ _ _ failed
  | localSlot access slot =>
      obtain ⟨index, found⟩ :=
        Option.isSome_iff_exists.mp (isSome_lookup_iff.mpr (declared slot rfl))
      rcases run_bind_eq_error.mp failed with missing | ⟨_, _, known, failed⟩
      · rw [slotIndex, run_bind, run_get] at missing
        simp only [found, run_pure] at missing
        cases missing
      · obtain ⟨same, _⟩ := run_slotIndex known
        refine emitted (.localSlot access slot) trivial ?_ _ _ _ failed
        rw [Instruction.encoding?, same]
        rfl
  | field place access found =>
      exact emitted (.field place access found) trivial rfl _ _ _ failed
  | branch condition target =>
      rcases run_bind_eq_error.mp failed with early | ⟨handle, _, _, failed⟩
      · exact neverRejects_labelHandle target _ _ _ early
      · exact emitted (.branch condition handle) trivial rfl _ _ _ failed
  | call method => exact emitted (.call method) trivial rfl _ _ _ failed
  | ret => exact emitted .ret trivial rfl _ _ _ failed
  | raw opcode operand =>
      rcases run_bind_eq_error.mp failed with unchecked | ⟨_, start, checked, failed⟩
      · rw [run_ofExcept, writable] at unchecked
        cases unchecked
      · rcases run_bind_eq_error.mp failed with early | ⟨handled, middle, renamed, failed⟩
        · exact neverRejects_operandWithHandles operand _ _ _ early
        · obtain ⟨targets, _, _⟩ := run_operandWithHandles renamed
          have stillWritable : checkRaw opcode handled = .ok () := by
            rw [← checkRaw_mapTargets opcode handled some, ← targets, checkRaw_mapTargets]
            exact writable
          exact neverRejects_emit stillWritable _ _ _ failed

end Encoder
end CilTemplate
