import CilTemplate.Proofs.Emission.Pieces
import Mathlib.Data.List.Forall2

/-
Two encoders side by side.  They write the same code, except that one of them
has some short forms of `leave` where the other has long ones, and they end
with the same handles, marks, depths and strings.
-/

namespace CilTemplate

open CilTemplate.Action

/-- The same code with some long forms of `leave` made short. -/
inductive CodeItem.Narrows : CodeItem → CodeItem → Prop
  | mark (label : Label) : Narrows (.mark label) (.mark label)
  | code {before after : Instruction Label} (narrows : Instruction.Narrows before after) :
      Narrows (.code before) (.code after)

namespace Encoder

/-- Encoders that differ in what they log and in the sizes of their pieces. -/
structure Mirrors (left right : Encoder Emitter) : Prop where
  sink : left.sink.Mirrors right.sink
  slots : right.slots = left.slots
  labels : right.labels = left.labels

/-- Where the first action succeeds the second does, and they leave alike
encoders behind. -/
def Parallels {Result : Type} (first second : Action (Encoder Emitter) Result) : Prop :=
  ∀ left right after value, Mirrors left right → run first left = (.ok value, after) →
    ∃ last, run second right = (.ok value, last) ∧ Mirrors after last

namespace Parallels

variable {Result Next : Type}

theorem bind {first second : Action (Encoder Emitter) Result}
    {next later : Result → Action (Encoder Emitter) Next} (starts : Parallels first second)
    (continues : ∀ value, Parallels (next value) (later value)) :
    Parallels (first >>= next) (second >>= later) := by
  intro left right after value mirrors done
  obtain ⟨middle, between, begun, rest⟩ := run_bind_eq_ok.mp done
  obtain ⟨reached, begins, mirrored⟩ := starts _ _ _ _ mirrors begun
  obtain ⟨last, ends, finished⟩ := continues middle _ _ _ _ mirrored rest
  exact ⟨last, run_bind_eq_ok.mpr ⟨middle, reached, begins, ends⟩, finished⟩

theorem pure (value : Result) :
    Parallels (pure value : Action (Encoder Emitter) Result) (pure value) := by
  intro left right after found mirrors done
  obtain ⟨same, rfl⟩ := Prod.mk.inj done
  rw [← Except.ok.inj same]
  exact ⟨right, rfl, mirrors⟩

theorem get_bind {next later : Encoder Emitter → Action (Encoder Emitter) Next}
    (continues : ∀ left right, Mirrors left right → Parallels (next left) (later right)) :
    Parallels (get >>= next) (get >>= later) := by
  intro left right after value mirrors done
  rw [run_bind, run_get] at done ⊢
  exact continues left right mirrors _ _ _ _ mirrors done

theorem note (text other : String) : Parallels (note text) (note other) := by
  intro left right after value mirrors done
  obtain ⟨log, noted⟩ := run_note text left
  obtain ⟨otherLog, otherNoted⟩ := run_note other right
  rw [noted] at done
  obtain ⟨_, rfl⟩ := Prod.mk.inj done
  exact ⟨_, otherNoted, mirrors.sink, mirrors.slots, mirrors.labels⟩

theorem onSink {first second : Action Emitter Result}
    (each : ∀ left right after value, left.Mirrors right →
      run first left = (.ok value, after) →
        ∃ last, run second right = (.ok value, last) ∧ after.Mirrors last) :
    Parallels (onSink first) (onSink second) := by
  intro left right after value mirrors done
  rw [run_onSink] at done
  obtain ⟨outcome, rfl⟩ := Prod.mk.inj done
  obtain ⟨last, same, mirrored⟩ := each _ _ _ _ mirrors.sink (Prod.ext outcome rfl)
  refine ⟨{ right with sink := last }, ?_, mirrored, mirrors.slots, mirrors.labels⟩
  rw [run_onSink, same]

theorem defineLabel :
    Parallels (Encoder.onSink (ExceptT.lift CodeSink.defineLabel))
      (Encoder.onSink (ExceptT.lift CodeSink.defineLabel)) := by
  apply onSink
  intro left right after value mirrors done
  have size : right.marks.size = left.marks.size := by rw [mirrors.same]; rfl
  obtain ⟨same, rfl⟩ := Prod.mk.inj done
  refine ⟨{ right with marks := right.marks.push none }, ?_, ?_, mirrors.count,
    mirrors.position_le⟩
  · rw [← Except.ok.inj same, ← size]
    rfl
  · rw [mirrors.same]
    rfl

theorem labelHandle (label : Label) :
    Parallels (labelHandle label) (labelHandle label) := by
  apply get_bind
  intro left right mirrors
  rw [mirrors.labels]
  cases left.labels.lookup label.identity with
  | some handle => exact pure handle
  | none =>
      refine bind defineLabel fun handle => bind ?_ fun _ => pure handle
      intro left right after value mirrors done
      obtain ⟨same, rfl⟩ := Prod.mk.inj done
      refine ⟨_, rfl, mirrors.sink, mirrors.slots, ?_⟩
      simp only [mirrors.labels]

theorem labelHandles (labels : List Label) :
    Parallels (labelHandles labels) (labelHandles labels) := by
  induction labels with
  | nil => exact pure []
  | cons label rest inductionHypothesis =>
      exact bind (labelHandle label) fun handle =>
        bind inductionHypothesis fun handles => pure (handle :: handles)

theorem operandWithHandles (operand : Operand Label) :
    Parallels (operandWithHandles operand) (operandWithHandles operand) := by
  unfold Encoder.operandWithHandles
  split
  · exact bind (labelHandle _) fun handle => pure (Operand.label handle)
  · exact bind (labelHandles _) fun handles => pure (Operand.switch handles)
  · exact pure _

theorem emit (opcode : Opcode) (operand : Operand Nat) :
    Parallels (emit opcode operand) (emit opcode operand) :=
  get_bind fun _ _ _ => bind (note _ _) fun _ =>
    onSink fun _ _ _ _ mirrors done => mirrors.emit done

theorem emitLeave (handle : Nat) :
    Parallels (Encoder.emit Opcode.leave (.label handle))
      (Encoder.emit Opcode.leaveS (.label handle)) :=
  get_bind fun _ _ _ => bind (note _ _) fun _ =>
    onSink fun _ _ _ _ mirrors done => mirrors.emitLeave done

theorem slotIndex (slot : Local) :
    Parallels (slotIndex slot) (slotIndex slot) := by
  apply get_bind
  intro left right mirrors
  rw [mirrors.slots]
  cases left.slots.lookup slot.identity with
  | some index => exact pure index
  | none =>
      intro left right after value mirrors done
      cases done

theorem ofExcept (result : Except Error Result) :
    Parallels (Action.ofExcept result : Action (Encoder Emitter) Result)
      (Action.ofExcept result) := by
  intro left right after value mirrors done
  obtain ⟨same, rfl⟩ := Prod.mk.inj done
  exact ⟨right, by rw [run_ofExcept, same], mirrors⟩

theorem encodeInstruction_label (opcode : Opcode) (target : Label) :
    (Encoder.encodeInstruction (.raw opcode (.label target)) : Action (Encoder Emitter) Unit) = (do
      Action.ofExcept (checkRaw opcode (.label target))
      let handle ← Encoder.labelHandle target
      Encoder.emit opcode (.label handle)) := by
  simp only [Encoder.encodeInstruction, Encoder.operandWithHandles, bind_assoc, pure_bind]

theorem encodeInstruction {before after : Instruction Label}
    (narrows : Instruction.Narrows before after) :
    Parallels (encodeInstruction before) (encodeInstruction after) := by
  cases narrows with
  | same =>
      cases before with
      | argument access index => exact emit _ _
      | localSlot access slot => exact bind (slotIndex slot) fun index => emit _ _
      | field place access found => exact emit _ _
      | branch condition target => exact bind (labelHandle target) fun handle => emit _ _
      | call method => exact emit _ _
      | ret => exact emit _ _
      | raw opcode operand =>
          exact bind (ofExcept _) fun _ =>
            bind (operandWithHandles operand) fun handled => emit opcode handled
  | leave target =>
      have checked : checkRaw Opcode.leaveS (.label target) = .ok () := by
        obtain ⟨_, short, _, known⟩ := Emitter.info?_leave
        simp only [checkRaw, known]
        rfl
      rw [encodeInstruction_label, encodeInstruction_label]
      refine bind ?_ fun _ => bind (labelHandle target) fun handle => emitLeave handle
      intro left right after value mirrors done
      obtain ⟨_, rfl⟩ := Prod.mk.inj done
      exact ⟨right, by rw [run_ofExcept, checked], mirrors⟩

theorem markLabel (handle : Nat) :
    Parallels (Encoder.onSink (CodeSink.markLabel handle))
      (Encoder.onSink (CodeSink.markLabel handle)) :=
  onSink fun _ _ _ _ mirrors done => mirrors.markLabel done

theorem encodeItem {before after : CodeItem} (narrows : CodeItem.Narrows before after) :
    Parallels (encodeItem before) (encodeItem after) := by
  cases narrows with
  | mark label =>
      exact bind (labelHandle label) fun handle => bind (note _ _) fun _ => markLabel handle
  | code narrows => exact encodeInstruction narrows

theorem encodeItems {before after : List CodeItem}
    (narrows : List.Forall₂ CodeItem.Narrows before after) :
    Parallels (encodeItems before) (encodeItems after) := by
  induction narrows with
  | nil => exact pure ()
  | cons first _ inductionHypothesis => exact bind (encodeItem first) fun _ => inductionHypothesis

theorem declareLocals (locals : List Local) :
    Parallels (declareLocals locals) (declareLocals locals) := by
  induction locals with
  | nil => exact pure ()
  | cons slot rest inductionHypothesis =>
      apply get_bind
      intro left right mirrors
      rw [mirrors.slots]
      split
      · refine bind (onSink fun _ _ _ _ mirrors done => mirrors.of_ignoresPieces
          (Emitter.ignoresPieces_declareLocal slot.declaration) done) fun index =>
            bind ?_ fun _ => inductionHypothesis
        intro left right after value mirrors done
        obtain ⟨_, rfl⟩ := Prod.mk.inj done
        refine ⟨_, rfl, mirrors.sink, ?_, mirrors.labels⟩
        simp only [mirrors.slots]
      · exact inductionHypothesis

end Parallels

section Bodies

variable {before after : Body}

theorem labels_of_narrows {before after : List CodeItem}
    (narrows : List.Forall₂ CodeItem.Narrows before after) :
    after.filterMap CodeItem.label? = before.filterMap CodeItem.label? := by
  induction narrows with
  | nil => rfl
  | cons first _ inductionHypothesis =>
      cases first with
      | mark label => exact congrArg (label :: ·) inductionHypothesis
      | code => exact inductionHypothesis

theorem instructions_of_narrows {before after : List CodeItem}
    (narrows : List.Forall₂ CodeItem.Narrows before after) :
    List.Forall₂ Instruction.Narrows (before.filterMap CodeItem.instruction?)
      (after.filterMap CodeItem.instruction?) := by
  induction narrows with
  | nil => exact .nil
  | cons first _ inductionHypothesis =>
      cases first with
      | mark label => exact inductionHypothesis
      | code narrows => exact .cons narrows inductionHypothesis

theorem checkInstruction_of_narrows {marked known : List Identity}
    {before after : Instruction Label} (narrows : Instruction.Narrows before after)
    (checked : checkInstruction marked known before = .ok ()) :
    checkInstruction marked known after = .ok () := by
  cases narrows with
  | same => exact checked
  | leave target =>
      obtain ⟨_, short, _, shortKnown⟩ := Emitter.info?_leave
      unfold checkInstruction at checked ⊢
      dsimp only [Instruction.targets, Operand.targets] at checked ⊢
      split at checked
      · cases checked
      · simp only [checkRaw, shortKnown]
        rfl

theorem checkInstructions_of_narrows {marked known : List Identity}
    {before after : List (Instruction Label)}
    (narrows : List.Forall₂ Instruction.Narrows before after)
    (checked : checkInstructions marked known before = .ok ()) :
    checkInstructions marked known after = .ok () := by
  induction narrows with
  | nil => exact checked
  | cons first _ inductionHypothesis =>
      obtain ⟨_, here, rest⟩ := bind_eq_ok.mp checked
      exact bind_eq_ok.mpr
        ⟨(), checkInstruction_of_narrows first here, inductionHypothesis rest⟩

theorem validate_of_narrows {slots : List (Identity × UInt16)}
    (locals : after.locals = before.locals)
    (narrows : List.Forall₂ CodeItem.Narrows before.items after.items)
    (valid : validate slots before = .ok ()) : validate slots after = .ok () := by
  have labels : after.labels = before.labels := labels_of_narrows narrows
  obtain ⟨_, marks, checked⟩ := bind_eq_ok.mp valid
  refine bind_eq_ok.mpr ⟨(), by rw [labels]; exact marks, ?_⟩
  rw [labels, locals]
  exact checkInstructions_of_narrows (instructions_of_narrows narrows) checked

/-- A body with some long forms of `leave` made short is written where the body
is, and all that differs is the size of its pieces. -/
theorem parallels_encodeBody (locals : after.locals = before.locals)
    (narrows : List.Forall₂ CodeItem.Narrows before.items after.items) :
    Parallels (encodeBody before) (encodeBody after) := by
  apply Parallels.get_bind
  intro left right mirrors
  refine Parallels.bind ?_ fun _ => ?_
  · intro start other final value alike done
    obtain ⟨valid, rfl⟩ := Prod.mk.inj done
    rw [mirrors.slots]
    exact ⟨other, by rw [run_ofExcept, validate_of_narrows locals narrows valid], alike⟩
  · rw [locals]
    refine (Parallels.declareLocals _).bind fun _ => ?_
    unfold writeItems
    rw [labels_of_narrows narrows]
    exact (Parallels.labelHandles _).bind fun _ => Parallels.encodeItems narrows

end Bodies

end Encoder
end CilTemplate
