import CilTemplate.Sink.CodeSink
import CilTemplate.Sink.Layout
import CilTemplate.Sink.UserStrings

/-
The sink that produces bytes.  It follows the depth of the evaluation stack
through the code as it is emitted, remembers the depth at which each label is
entered, and keeps the code as pieces that are laid out at the end.
-/

namespace CilTemplate

structure EmittedBody where
  code : List UInt8
  maxStack : Nat
  locals : List LocalDeclaration
  strings : List (String × Token)
deriving DecidableEq

structure Emitter where
  pieces : Array Piece
  marks : Array (Option Nat)
  locals : Array LocalDeclaration
  strings : UserStrings
  depth : Int
  maxDepth : Nat
  labelDepths : List (Nat × Int)
  reachable : Bool

namespace Emitter

def empty : Emitter where
  pieces := #[]
  marks := #[]
  locals := #[]
  strings := UserStrings.empty
  depth := 0
  maxDepth := 0
  labelDepths := []
  reachable := true

def withStrings (emitter : Emitter) (known : List (String × Token)) : Emitter :=
  { emitter with
    strings := known.foldl (fun strings (text, token) => strings.seed text token)
      emitter.strings }

def layout (emitter : Emitter) : Layout :=
  ⟨emitter.pieces.toList, emitter.marks⟩

def position (emitter : Emitter) : Nat :=
  emitter.pieces.foldl (fun total piece => total + piece.size) 0

def declareLocal (declaration : LocalDeclaration) : Action Emitter UInt16 := do
  let emitter ← get
  let slot := emitter.locals.size
  if 0xFFFF < slot then throw (.notSupported .tooManyLocals)
  modify fun emitter => { emitter with locals := emitter.locals.push declaration }
  pure slot.toUInt16

def defineLabel : StateM Emitter Nat := do
  let emitter ← get
  let label := emitter.marks.size
  modify fun emitter => { emitter with marks := emitter.marks.push none }
  pure label

/-- A label that a branch has entered with some depth continues with it where
control does not fall through; where it does, the depths must agree. -/
def enterLabel (label : Nat) : Action Emitter Unit := do
  let emitter ← get
  match emitter.labelDepths.lookup label with
  | some expected =>
      if !emitter.reachable then set { emitter with depth := expected }
      else if expected ≠ emitter.depth then
        throw (.malformed (.depthAtMark (Layout.labelText label) expected emitter.depth))
  | none =>
      if emitter.reachable then
        set { emitter with labelDepths := (label, emitter.depth) :: emitter.labelDepths }
      else set { emitter with depth := 0 }
  modify fun emitter => { emitter with reachable := true }

/-- The position of a mark is a four-byte number. -/
def markLabel (label : Nat) : Action Emitter Unit := do
  let emitter ← get
  if 0xFFFFFFFF < emitter.position then throw (.malformed .codeTooLong)
  match emitter.marks[label]? with
  | none => throw (.undefinedLabel (Layout.labelText label))
  | some (some _) => throw (.duplicateLabel (Layout.labelText label))
  | some none =>
      set { emitter with
        marks := emitter.marks.setIfInBounds label (some emitter.pieces.size) }
      enterLabel label

def effectCount (count : Nat) : Except Error Int :=
  if count < 0x80000000 then .ok count else .error (.malformed (.effectTooLarge count))

/-- The numbers of values that an instruction takes and leaves.  A call takes
what its callee says, and a return takes a value if there is one. -/
def stackEffect (opcode : Opcode) (info : OpcodeInfo) (operand : Operand Nat) (depth : Int) :
    Except Error (Int × Int) := do
  let callee : Option Method :=
    match operand with
    | .method method => some method
    | _ => none
  let pops : Int ←
    match info.pops, callee with
    | .fixed count, _ => pure count
    | .dynamic, some method =>
        effectCount (if opcode = Opcode.newobj then method.parameterCount else method.callPops)
    | .dynamic, none =>
        if opcode = Opcode.ret then pure (min depth 1)
        else throw (.notSupported (.unknownEffect info.mnemonic))
  let pushes : Int :=
    match info.pushes, callee with
    | .fixed count, _ => count
    | .dynamic, some method => if opcode = Opcode.newobj then 1 else method.callPushes
    | .dynamic, none => 0
  pure (pops, pushes)

/-- Code that control cannot reach may take more values than there are. -/
def updateDepth (mnemonic : String) (pops pushes : Int) : Action Emitter Unit := do
  let emitter ← get
  let left := emitter.depth - pops
  if left < 0 ∧ emitter.reachable then
    set { emitter with depth := left }
    throw (.malformed (.underflow mnemonic left pops))
  let depth := max left 0 + pushes
  set { emitter with depth := depth }
  if depth < 0 ∨ 0xFFFF < depth then throw (.malformed (.depthTooLarge depth))
  modify fun emitter => { emitter with maxDepth := max emitter.maxDepth depth.toNat }

/-- A label is entered with one depth from everywhere. -/
def recordDepth (label : Nat) : Action Emitter Unit := do
  let emitter ← get
  if emitter.reachable then
    match emitter.labelDepths.lookup label with
    | some expected =>
        if expected ≠ emitter.depth then
          throw (.malformed (.depthAtBranch (Layout.labelText label) expected emitter.depth))
    | none =>
        set { emitter with labelDepths := (label, emitter.depth) :: emitter.labelDepths }

def recordDepths : List Nat → Action Emitter Unit
  | [] => pure ()
  | label :: rest => do
      recordDepth label
      recordDepths rest

def pushPiece (piece : Piece) : Action Emitter Unit :=
  modify fun emitter => { emitter with pieces := emitter.pieces.push piece }

def internString (text : String) : Action Emitter Token := do
  let emitter ← get
  let (token, strings) := emitter.strings.intern text
  set { emitter with strings := strings }
  pure token

def operandBytes (info : OpcodeInfo) (operand : Operand Nat) : Action Emitter (List UInt8) := do
  let tokenBytes (token : Token) := LittleEndian.toBytes 4 token.value.toNat
  match info.operand, operand with
  | .signature, _ => throw (.notImplemented (.signatureToken info.mnemonic))
  | .string, .string text =>
      let token ← internString text
      pure (tokenBytes token)
  | .none, .none => pure []
  | .type, .type type => pure (tokenBytes type.token)
  | .field, .field field => pure (tokenBytes field.token)
  | .method, .method method => pure (tokenBytes method.token)
  | .token, .symbol symbol => pure (tokenBytes symbol.token)
  | kind, .immediate value =>
      if value.kind = kind then pure value.bytes
      else throw (.wrongOperandType info.mnemonic info.operand)
  | _, _ => throw (.wrongOperandType info.mnemonic info.operand)

def emitPiece (opcode : Opcode) (info : OpcodeInfo) (operand : Operand Nat)
    (pops pushes : Int) : Action Emitter Unit :=
  match info.operand, operand with
  | .shortBranch, .label target => do
      pushPiece (.narrowBranch opcode target)
      updateDepth info.mnemonic pops pushes
      recordDepth target
  | .branch, .label target => do
      pushPiece (.branch opcode target)
      updateDepth info.mnemonic pops pushes
      recordDepth target
  | .switch, .switch targets => do
      updateDepth info.mnemonic pops pushes
      recordDepths targets
      if 0xFFFFFFFF < targets.length then throw (.invalidBranch .tableTooLarge)
      pushPiece (.switch targets)
  | .shortBranch, _ | .branch, _ | .switch, _ =>
      throw (.wrongOperandType info.mnemonic info.operand)
  | _, _ => do
      let bytes ← operandBytes info operand
      pushPiece (.plain (opcode.bytes ++ bytes))
      updateDepth info.mnemonic pops pushes

def emit (opcode : Opcode) (operand : Operand Nat) : Action Emitter Unit := do
  match opcode.info? with
  | none => throw (.notSupported (.reservedOpcode opcode))
  | some info =>
      let emitter ← get
      let (pops, pushes) ← Action.ofExcept (stackEffect opcode info operand emitter.depth)
      emitPiece opcode info operand pops pushes
      if info.flow.endsPath then
        modify fun emitter => { emitter with reachable := false }

instance : CodeSink Emitter where
  declareLocal := declareLocal
  defineLabel := defineLabel
  markLabel := markLabel
  emit := emit
  labelText _ := Layout.labelText

def finish (emitter : Emitter) : Except Error EmittedBody := do
  let layout ← emitter.layout.narrowed
  let code ← layout.code
  pure
    { code := code
      maxStack := emitter.maxDepth
      locals := emitter.locals.toList
      strings := emitter.strings.entries.toList }

end Emitter
end CilTemplate
