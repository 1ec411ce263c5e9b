import CilTemplate.Code.Body
import CilTemplate.Code.Form
import CilTemplate.Log
import CilTemplate.Sink.CodeSink

/-
Method bodies written to a sink.  The encoder knows the slots of locals and
the handles of labels, and keeps them from one body to the next.  A body is
checked as a whole before the sink is asked for anything.
-/

namespace CilTemplate

/-- The level of the lines that list what is written; no level, no lines. -/
structure EncoderOptions where
  logLevel : Option LogLevel
deriving DecidableEq

def EncoderOptions.standard : EncoderOptions := ⟨some .debug⟩

structure Encoder (Sink : Type) where
  sink : Sink
  options : EncoderOptions
  slots : List (Identity × UInt16)
  labels : List (Identity × Nat)
  log : Log

namespace Encoder

variable {Sink Result : Type}

def onto (sink : Sink) (options : EncoderOptions) : Encoder Sink :=
  ⟨sink, options, [], [], #[]⟩

/-- A raw instruction can be written when its opcode has a meaning and its
operand has the right shape and is not a signature. -/
def checkRaw {Target : Type} (opcode : Opcode) (operand : Operand Target) : Except Error Unit :=
  match opcode.info? with
  | none => .error (.notSupported (.reservedOpcode opcode))
  | some info =>
      if operand.fits info.operand then
        match operand with
        | .signature _ => .error (.notImplemented (.signatureOperand info.mnemonic))
        | _ => .ok ()
      else .error (.wrongOperandType info.mnemonic info.operand)

def checkMarks (marked : List Identity) : List Label → Except Error Unit
  | [] => .ok ()
  | label :: rest =>
      if marked.contains label.identity then .error (.duplicateLabel label.name)
      else checkMarks (label.identity :: marked) rest

def checkInstruction (marked known : List Identity) (instruction : Instruction Label) :
    Except Error Unit :=
  match instruction.targets.find? fun target => !marked.contains target.identity with
  | some target => .error (.undefinedLabel target.name)
  | none =>
      match instruction with
      | .localSlot _ slot =>
          if known.contains slot.identity then .ok ()
          else .error (.unknownLocal slot.text)
      | .raw opcode operand => checkRaw opcode operand
      | _ => .ok ()

def checkInstructions (marked known : List Identity) :
    List (Instruction Label) → Except Error Unit
  | [] => .ok ()
  | instruction :: rest => do
      checkInstruction marked known instruction
      checkInstructions marked known rest

/-- The code stands on its own: every label is marked at most once, every
target is marked, every local is known or declared and every raw instruction
can be written. -/
def validate (slots : List (Identity × UInt16)) (body : Body) : Except Error Unit := do
  checkMarks [] body.labels
  checkInstructions (body.labels.map Label.identity)
    (slots.map Prod.fst ++ body.locals.map Local.identity) body.instructions

def bindLocal (slot : Local) (index : UInt16) : Action (Encoder Sink) Unit :=
  modify fun encoder => { encoder with slots := (slot.identity, index) :: encoder.slots }

def onSink (action : Action Sink Result) : Action (Encoder Sink) Result :=
  action.onPart fun ⟨sink, options, slots, labels, log⟩ =>
    (sink, fun sink => ⟨sink, options, slots, labels, log⟩)

def slotIndex (slot : Local) : Action (Encoder Sink) UInt16 := do
  let encoder ← get
  match encoder.slots.lookup slot.identity with
  | some index => pure index
  | none => throw (.unknownLocal slot.text)

def note (text : String) : Action (Encoder Sink) Unit :=
  modify fun encoder =>
    match encoder.options.logLevel with
    | some level => { encoder with log := encoder.log.push ⟨level, text⟩ }
    | none => encoder

variable [CodeSink Sink]

/-- The handle of a label, which is defined when it is first needed. -/
def labelHandle (label : Label) : Action (Encoder Sink) Nat := do
  let encoder ← get
  match encoder.labels.lookup label.identity with
  | some handle => pure handle
  | none =>
      let handle ← onSink (ExceptT.lift CodeSink.defineLabel)
      modify fun encoder =>
        { encoder with labels := (label.identity, handle) :: encoder.labels }
      pure handle

def labelHandles : List Label → Action (Encoder Sink) (List Nat)
  | [] => pure []
  | label :: rest => do
      let handle ← labelHandle label
      let handles ← labelHandles rest
      pure (handle :: handles)

def emit (opcode : Opcode) (operand : Operand Nat) : Action (Encoder Sink) Unit := do
  let encoder ← get
  let operandText := operand.textWith (CodeSink.labelText encoder.sink) "[" "]"
  note ("    " ++ opcode.mnemonic ++ if operand.isNone then "" else " " ++ operandText)
  onSink (CodeSink.emit opcode operand)

def operandWithHandles : Operand Label → Action (Encoder Sink) (Operand Nat)
  | .label target => do
      let handle ← labelHandle target
      pure (.label handle)
  | .switch targets => do
      let handles ← labelHandles targets
      pure (.switch handles)
  | operand => pure (operand.mapTargets fun _ => 0)

def encodeInstruction (instruction : Instruction Label) : Action (Encoder Sink) Unit :=
  match instruction with
  | .argument access index => do
      let (opcode, operand) := access.argumentForms.encode index
      emit opcode operand
  | .localSlot access slot => do
      let index ← slotIndex slot
      let (opcode, operand) := access.localForms.encode index
      emit opcode operand
  | .field place access field => emit (place.opcode access) (.field field)
  | .branch condition target => do
      let handle ← labelHandle target
      emit condition.longOpcode (.label handle)
  | .call method => emit method.callOpcode (.method method)
  | .ret => emit Opcode.ret .none
  | .raw opcode operand => do
      Action.ofExcept (checkRaw opcode operand)
      let operand ← operandWithHandles operand
      emit opcode operand

def encodeItem (item : CodeItem) : Action (Encoder Sink) Unit :=
  match item with
  | .mark label => do
      let handle ← labelHandle label
      note (label.name ++ ":")
      onSink (CodeSink.markLabel handle)
  | .code instruction => encodeInstruction instruction

def encodeItems : List CodeItem → Action (Encoder Sink) Unit
  | [] => pure ()
  | item :: rest => do
      encodeItem item
      encodeItems rest

/-- Labels are defined in the order of their marks, before any code. -/
def writeItems (items : List CodeItem) : Action (Encoder Sink) Unit := do
  let _ ← labelHandles (items.filterMap CodeItem.label?)
  encodeItems items

def declareLocals : List Local → Action (Encoder Sink) Unit
  | [] => pure ()
  | slot :: rest => do
      let encoder ← get
      if (encoder.slots.lookup slot.identity).isNone then
        let index ← onSink (CodeSink.declareLocal slot.declaration)
        bindLocal slot index
      declareLocals rest

/-- Writes a body.  Locals that have no slot yet are declared first. -/
def encodeBody (body : Body) : Action (Encoder Sink) Unit := do
  let encoder ← get
  Action.ofExcept (validate encoder.slots body)
  declareLocals body.locals
  writeItems body.items

def encodeItemList (items : List CodeItem) : Action (Encoder Sink) Unit := do
  let encoder ← get
  Action.ofExcept (validate encoder.slots ⟨[], items⟩)
  writeItems items

end Encoder
end CilTemplate
