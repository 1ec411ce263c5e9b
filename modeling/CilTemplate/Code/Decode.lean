import CilTemplate.Bytes.Cursor
import CilTemplate.Code.Body
import CilTemplate.Code.Form
import CilTemplate.Log

/-
Method bodies from bytes.  The bytes are first read as instructions whose
branches name addresses.  Every address that a branch names must be the start
of an instruction or the end of the code; it then gets a label, numbered in
the order in which the targets are named.
-/

namespace CilTemplate

namespace Opcode

def read : Action (Cursor UInt8) (Opcode × OpcodeInfo) := do
  let first ← Cursor.readNumber 1
  let opcode ←
    if first = extensionByte.toNat then
      let second ← Cursor.readNumber 1
      pure (ofExtended second.toUInt8)
    else pure (ofByte first.toUInt8)
  match opcode.info? with
  | some info => pure (opcode, info)
  | none =>
      let cursor ← get
      throw (.malformed (.reservedOpcode opcode (cursor.position - opcode.size)))

end Opcode

/-- What the bytes of a body are read against. -/
structure BodyReader where
  resolver : Resolver
  context : GenericContext
  locals : List Local

namespace BodyReader

def localsOf (declarations : List LocalDeclaration) : List Local :=
  declarations.zipIdx.map fun (declaration, index) =>
    ⟨.index index, some ("Local_" ++ toString index), declaration⟩

def rejectOpenGeneric (type : CilType) (token : Token) : Except Error Unit :=
  match type.genericParameter? with
  | some parameter => .error (.notSupported (.openGeneric token parameter))
  | none => .ok ()

def resolveType (reader : BodyReader) (token : Token) : Except Error CilType := do
  let type ← reader.resolver.type token reader.context
  rejectOpenGeneric type token
  pure type

def resolveField (reader : BodyReader) (token : Token) : Except Error Field := do
  let field ← reader.resolver.field token reader.context
  rejectOpenGeneric field.owner token
  rejectOpenGeneric field.type token
  pure field

def resolveMethod (reader : BodyReader) (token : Token) : Except Error Method := do
  let method ← reader.resolver.method token reader.context
  rejectOpenGeneric method.owner token
  pure method

def readToken : Action (Cursor UInt8) Token := do
  let value ← Cursor.readNumber 4
  pure ⟨value.toUInt32⟩

/-- A target is counted from the position behind the operand and lies within
the code or at its end. -/
def branchTarget (cursor : Cursor UInt8) (offset : Int) : Except Error Nat :=
  let target := (cursor.position : Int) + offset
  if target < 0 ∨ (cursor.length : Int) < target then
    .error (.malformed (.branchOutside target cursor.length))
  else .ok target.toNat

def readOffset (width : Nat) : Action (Cursor UInt8) Int :=
  Cursor.readScalar ⟨width, true⟩

def readTarget (width : Nat) : Action (Cursor UInt8) Nat := do
  let offset ← readOffset width
  let cursor ← get
  Action.ofExcept (branchTarget cursor offset)

def readOffsets : Nat → Action (Cursor UInt8) (List Int)
  | 0 => pure []
  | count + 1 => do
      let offset ← readOffset 4
      let rest ← readOffsets count
      pure (offset :: rest)

/-- All offsets of a switch count from behind the whole table. -/
def readSwitch : Action (Cursor UInt8) (List Nat) := do
  let count ← Cursor.readNumber 4
  Cursor.ensureRemaining (4 * count)
  let offsets ← readOffsets count
  let cursor ← get
  Action.ofExcept (offsets.mapM (branchTarget cursor))

def readOperand (reader : BodyReader) (opcode : Opcode) (info : OpcodeInfo) :
    Action (Cursor UInt8) (Operand Nat) := do
  if opcode = Opcode.calli then
    let cursor ← get
    throw (.notSupported (.indirectCall (cursor.position - 1)))
  match info.operand with
  | .none => pure .none
  | .int8 => do
      let value ← Cursor.readNumber 1
      pure (.immediate (.int8 value.toUInt8.toInt8))
  | .uint8 => do
      let value ← Cursor.readNumber 1
      pure (.immediate (.uint8 value.toUInt8))
  | .uint16 => do
      let value ← Cursor.readNumber 2
      pure (.immediate (.uint16 value.toUInt16))
  | .int32 => do
      let value ← Cursor.readNumber 4
      pure (.immediate (.int32 value.toUInt32.toInt32))
  | .int64 => do
      let value ← Cursor.readNumber 8
      pure (.immediate (.int64 value.toUInt64.toInt64))
  | .float32 => do
      let bits ← Cursor.readNumber 4
      pure (.immediate (.float32 bits.toUInt32))
  | .float64 => do
      let bits ← Cursor.readNumber 8
      pure (.immediate (.float64 bits.toUInt64))
  | .shortBranch => do
      let target ← readTarget 1
      pure (.label target)
  | .branch => do
      let target ← readTarget 4
      pure (.label target)
  | .switch => do
      let targets ← readSwitch
      pure (.switch targets)
  | .type => do
      let token ← readToken
      let type ← Action.ofExcept (reader.resolveType token)
      pure (.type type)
  | .field => do
      let token ← readToken
      let field ← Action.ofExcept (reader.resolveField token)
      pure (.field field)
  | .method => do
      let token ← readToken
      let method ← Action.ofExcept (reader.resolveMethod token)
      pure (.method method)
  | .string => do
      let token ← readToken
      let text ← Action.ofExcept (reader.resolver.string token)
      pure (.string text)
  | .signature => do
      let token ← readToken
      let blob ← Action.ofExcept (reader.resolver.signature token)
      pure (.signature blob)
  | .token => do
      let token ← readToken
      let symbol ← Action.ofExcept (reader.resolver.symbol token reader.context)
      pure (.symbol symbol)

def local? (reader : BodyReader) (index : Nat) : Except Error Local :=
  match reader.locals[index]? with
  | some slot => .ok slot
  | none => .error (.malformed (.localIndex index reader.locals.length))

def lift (reader : BodyReader) (opcode : Opcode) (operand : Operand Nat) :
    Except Error (Instruction Nat) :=
  match opcode.argumentAccess? operand, opcode.localAccess? operand with
  | some (access, index), _ => .ok (.argument access index)
  | none, some (access, index) => (reader.local? index.toNat).map (.localSlot access)
  | none, none =>
      .ok <|
        match operand with
        | .label target =>
            match BranchCondition.ofOpcode? opcode with
            | some condition => .branch condition target
            | none => .raw opcode operand
        | .field field =>
            match opcode.fieldAccess? with
            | some (place, access) => .field place access field
            | none => .raw opcode operand
        | .method method =>
            if opcode = Opcode.call ∨ opcode = Opcode.callvirt then .call method
            else .raw opcode operand
        | .none => if opcode = Opcode.ret then .ret else .raw opcode operand
        | _ => .raw opcode operand

def readInstruction (reader : BodyReader) : Action (Cursor UInt8) (Instruction Nat) := do
  let (opcode, info) ← Opcode.read
  let operand ← reader.readOperand opcode info
  Action.ofExcept (reader.lift opcode operand)

/-- The instructions up to the end of the code, each with its address.  Every
instruction takes a byte at least, so as many steps as bytes suffice. -/
def readInstructions (reader : BodyReader) :
    Nat → Action (Cursor UInt8) (List (Nat × Instruction Nat))
  | 0 => pure []
  | steps + 1 => do
      let cursor ← get
      if cursor.hasMore then
        let instruction ← reader.readInstruction
        let rest ← reader.readInstructions steps
        pure ((cursor.position, instruction) :: rest)
      else pure []

end BodyReader

/-- Instructions by address, as they stand in code of a given length. -/
structure AddressedCode where
  instructions : List (Nat × Instruction Nat)
  length : Nat

namespace AddressedCode

def distinct : List Nat → List Nat
  | [] => []
  | address :: rest => address :: (distinct rest).filter (· != address)

def targets (code : AddressedCode) : List Nat :=
  distinct (code.instructions.flatMap fun (_, instruction) => instruction.targets)

def isBoundary (code : AddressedCode) (address : Nat) : Bool :=
  address == code.length || code.instructions.any fun (start, _) => start == address

/-- The label of a target: its number is its place in the order of targets. -/
def labelOf (targets : List Nat) (address : Nat) : Label :=
  let number := targets.idxOf address
  ⟨.index number, "Label_" ++ toString number⟩

def markAt (targets : List Nat) (address : Nat) : List CodeItem :=
  if targets.contains address then [.mark (labelOf targets address)] else []

def items (code : AddressedCode) : List CodeItem :=
  let targets := code.targets
  (code.instructions.flatMap fun (address, instruction) =>
      markAt targets address ++ [.code (instruction.mapTargets (labelOf targets))]) ++
    markAt targets code.length

end AddressedCode

namespace Body

def decode (code : List UInt8) (declarations : List LocalDeclaration) (resolver : Resolver)
    (context : GenericContext) : Except Error Body := do
  let locals := BodyReader.localsOf declarations
  let reader : BodyReader := ⟨resolver, context, locals⟩
  let instructions ←
    ((reader.readInstructions code.length).run (Cursor.ofList code)).1
  let addressed : AddressedCode := ⟨instructions, code.length⟩
  match addressed.targets.find? fun address => !addressed.isBoundary address with
  | some address => throw (.malformed (.branchBetweenInstructions address))
  | none => pure ⟨locals, addressed.items⟩

def decodedLine (code : List UInt8) (body : Body) : LogLine :=
  ⟨.trace, "decoded " ++ toString code.length ++ " bytes into " ++
    toString body.items.length ++ " tokens (" ++ toString body.labels.length ++
    " labels, " ++ toString body.locals.length ++ " locals)"⟩

def decodeLogged (code : List UInt8) (declarations : List LocalDeclaration)
    (resolver : Resolver) (context : GenericContext) : Action Log Body := do
  let body ← Action.ofExcept (decode code declarations resolver context)
  modify (·.push (decodedLine code body))
  pure body

end Body
end CilTemplate
