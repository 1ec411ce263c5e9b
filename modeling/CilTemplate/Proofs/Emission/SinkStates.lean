import CilTemplate.Proofs.Emission.Encode

/-
What an encoder does to the state of its sink.  It reaches the sink only by
requests, so what each request keeps, a whole body keeps, whether it is written
or not.
-/

namespace CilTemplate

open CilTemplate.Action

/-- Every request to the sink has a property. -/
structure CodeSink.Every {Sink : Type} [CodeSink Sink]
    (holds : ∀ {Result : Type}, Action Sink Result → Prop) : Prop where
  declareLocal : ∀ declaration, holds (CodeSink.declareLocal declaration)
  defineLabel : holds (ExceptT.lift CodeSink.defineLabel)
  markLabel : ∀ label, holds (CodeSink.markLabel label)
  emit : ∀ opcode operand, holds (CodeSink.emit opcode operand)

theorem CodeSink.Every.mono {Sink : Type} [CodeSink Sink]
    {holds weaker : ∀ {Result : Type}, Action Sink Result → Prop} (every : CodeSink.Every holds)
    (implies : ∀ {Result : Type} {action : Action Sink Result}, holds action → weaker action) :
    CodeSink.Every weaker where
  declareLocal declaration := implies (every.declareLocal declaration)
  defineLabel := implies every.defineLabel
  markLabel label := implies (every.markLabel label)
  emit opcode operand := implies (every.emit opcode operand)

/-- Every request to the sink keeps a property of it, met or refused. -/
abbrev CodeSink.Keeps {Sink : Type} [CodeSink Sink] (invariant : Sink → Prop) : Prop :=
  CodeSink.Every (Maintains invariant)

namespace CodeSink.Keeps

variable {Sink : Type} {invariant : Sink → Prop}

theorem note (text : String) :
    Maintains (fun encoder : Encoder Sink => invariant encoder.sink) (Encoder.note text) := by
  intro encoder held
  obtain ⟨log, noted⟩ := Encoder.run_note text encoder
  rw [noted]
  exact held

theorem slotIndex (slot : Local) :
    Maintains (fun encoder : Encoder Sink => invariant encoder.sink) (Encoder.slotIndex slot) := by
  refine Maintains.get.bind fun encoder => ?_
  split
  · exact .pure _
  · exact .throw _

variable [CodeSink Sink] (keeps : CodeSink.Keeps invariant)

include keeps

theorem labelHandle (label : Label) :
    Maintains (fun encoder : Encoder Sink => invariant encoder.sink)
      (Encoder.labelHandle label) := by
  refine Maintains.get.bind fun encoder => ?_
  split
  · exact .pure _
  · exact Maintains.bind (fun encoder held => keeps.defineLabel encoder.sink held) fun handle =>
      Maintains.bind (fun _ held => held) fun _ => .pure handle

theorem labelHandles (labels : List Label) :
    Maintains (fun encoder : Encoder Sink => invariant encoder.sink)
      (Encoder.labelHandles labels) := by
  induction labels with
  | nil => exact .pure []
  | cons label rest inductionHypothesis =>
      exact (keeps.labelHandle label).bind fun _ => inductionHypothesis.bind fun _ => .pure _

theorem operandWithHandles (operand : Operand Label) :
    Maintains (fun encoder : Encoder Sink => invariant encoder.sink)
      (Encoder.operandWithHandles operand) := by
  cases operand with
  | label target => exact (keeps.labelHandle target).bind fun _ => .pure _
  | switch targets => exact (keeps.labelHandles targets).bind fun _ => .pure _
  | _ => exact .pure _

theorem emits (opcode : Opcode) (operand : Operand Nat) :
    Maintains (fun encoder : Encoder Sink => invariant encoder.sink)
      (Encoder.emit opcode operand) :=
  Maintains.get.bind fun _ => (note _).bind fun _ =>
    fun encoder held => keeps.emit opcode operand encoder.sink held

theorem encodeInstruction (instruction : Instruction Label) :
    Maintains (fun encoder : Encoder Sink => invariant encoder.sink)
      (Encoder.encodeInstruction instruction) := by
  cases instruction with
  | localSlot access slot => exact (slotIndex slot).bind fun _ => keeps.emits _ _
  | branch condition target => exact (keeps.labelHandle target).bind fun _ => keeps.emits _ _
  | raw opcode operand =>
      exact (Maintains.ofExcept _).bind fun _ => (keeps.operandWithHandles operand).bind
        fun _ => keeps.emits _ _
  | _ => exact keeps.emits _ _

theorem encodeItems (items : List CodeItem) :
    Maintains (fun encoder : Encoder Sink => invariant encoder.sink)
      (Encoder.encodeItems items) := by
  induction items with
  | nil => exact .pure ()
  | cons item rest inductionHypothesis =>
      refine Maintains.bind ?_ fun _ => inductionHypothesis
      cases item with
      | mark label =>
          exact (keeps.labelHandle label).bind fun handle => (note _).bind fun _ =>
            fun encoder held => keeps.markLabel handle encoder.sink held
      | code instruction => exact keeps.encodeInstruction instruction

theorem declareLocals (locals : List Local) :
    Maintains (fun encoder : Encoder Sink => invariant encoder.sink)
      (Encoder.declareLocals locals) := by
  induction locals with
  | nil => exact .pure ()
  | cons slot rest inductionHypothesis =>
      refine Maintains.get.bind fun encoder => ?_
      dsimp only
      split
      · exact Maintains.bind
          (fun encoder held => keeps.declareLocal slot.declaration encoder.sink held)
          fun _ => Maintains.bind (fun _ held => held) fun _ => inductionHypothesis
      · exact inductionHypothesis

/-- By induction on the locals and the items of the body. -/
theorem encodeBody (body : Body) :
    Maintains (fun encoder : Encoder Sink => invariant encoder.sink)
      (Encoder.encodeBody body) :=
  Maintains.get.bind fun _ => (Maintains.ofExcept _).bind fun _ =>
    (keeps.declareLocals body.locals).bind fun _ =>
      (keeps.labelHandles _).bind fun _ => keeps.encodeItems body.items

end CodeSink.Keeps
end CilTemplate
