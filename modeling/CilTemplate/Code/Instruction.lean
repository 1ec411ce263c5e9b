import CilTemplate.Code.BranchCondition
import CilTemplate.Code.Operand

/-
Instructions of a method body.  Accesses to arguments, locals and fields,
branches, calls and returns are typed, so that their encoding is chosen when
they are written; every other instruction is an opcode with its operand.
-/

namespace CilTemplate

inductive Access
  | load
  | address
  | store
deriving DecidableEq

namespace Access

def all : List Access := [load, address, store]

def pops : Access → Nat
  | load | address => 0
  | store => 1

def pushes : Access → Nat
  | load | address => 1
  | store => 0

def mnemonic (place : String) : Access → String
  | load => "ld" ++ place
  | address => "ld" ++ place ++ "a"
  | store => "st" ++ place

end Access

inductive FieldPlace
  | ofObject
  | ofType
deriving DecidableEq

namespace FieldPlace

def all : List FieldPlace := [ofObject, ofType]

/-- A field of an object is reached through the object. -/
def pops : FieldPlace → Nat
  | ofObject => 1
  | ofType => 0

def name : FieldPlace → String
  | ofObject => "fld"
  | ofType => "sfld"

end FieldPlace

inductive Instruction (Target : Type)
  | argument (access : Access) (index : UInt16)
  | localSlot (access : Access) (slot : Local)
  | field (place : FieldPlace) (access : Access) (field : Field)
  | branch (condition : BranchCondition) (target : Target)
  | call (method : Method)
  | ret
  | raw (opcode : Opcode) (operand : Operand Target)
deriving DecidableEq

namespace Instruction

variable {Target Renamed : Type}

def loadInt32 (value : Int32) : Instruction Target :=
  if value = -1 then raw Opcode.ldcI4M1 .none
  else if 0 ≤ value ∧ value ≤ 8 then
    raw ⟨Opcode.ldcI40.value + value.toUInt32.toUInt16⟩ .none
  else if -128 ≤ value ∧ value ≤ 127 then
    raw Opcode.ldcI4S (.immediate (.int8 value.toInt8))
  else raw Opcode.ldcI4 (.immediate (.int32 value))

def int32Constant? : Instruction Target → Option Int32
  | raw opcode .none =>
      if opcode = Opcode.ldcI4M1 then some (-1)
      else if Opcode.ldcI40.value ≤ opcode.value ∧ opcode.value ≤ Opcode.ldcI40.value + 8 then
        some (opcode.value - Opcode.ldcI40.value).toUInt32.toInt32
      else none
  | raw opcode (.immediate (.int8 value)) =>
      if opcode = Opcode.ldcI4S then some value.toInt32 else none
  | raw opcode (.immediate (.int32 value)) =>
      if opcode = Opcode.ldcI4 then some value else none
  | _ => none

def mnemonic : Instruction Target → String
  | argument access _ => access.mnemonic "arg"
  | localSlot access _ => access.mnemonic "loc"
  | field place access _ => access.mnemonic place.name
  | branch condition _ => condition.longOpcode.mnemonic
  | call _ => "call"
  | ret => "ret"
  | raw opcode _ => opcode.mnemonic

def pops : Instruction Target → StackCount
  | argument access _ => .fixed access.pops
  | localSlot access _ => .fixed access.pops
  | field place access _ => .fixed (place.pops + access.pops)
  | branch condition _ => .fixed condition.pops
  | call _ => .dynamic
  | ret => .dynamic
  | raw opcode _ => (opcode.info?.map OpcodeInfo.pops).getD .dynamic

def pushes : Instruction Target → StackCount
  | argument access _ => .fixed access.pushes
  | localSlot access _ => .fixed access.pushes
  | field _ access _ => .fixed access.pushes
  | branch _ _ => .fixed 0
  | call _ => .dynamic
  | ret => .fixed 0
  | raw opcode _ => (opcode.info?.map OpcodeInfo.pushes).getD .dynamic

def callee? : Instruction Target → Option Method
  | call method => some method
  | raw opcode (.method method) =>
      if opcode = Opcode.call ∨ opcode = Opcode.callvirt ∨ opcode = Opcode.newobj then
        some method
      else none
  | _ => none

/-- An object construction brings its own receiver. -/
def constructsObject : Instruction Target → Bool
  | raw opcode _ => opcode == Opcode.newobj
  | _ => false

/-- The number of values taken, when the instruction alone determines it. -/
def stackPops (instruction : Instruction Target) : Except Error Nat :=
  match instruction.pops, instruction.callee? with
  | .fixed count, _ => .ok count
  | .dynamic, some method =>
      .ok (if instruction.constructsObject then method.parameterCount else method.callPops)
  | .dynamic, none => .error (.notSupported (.dynamicEffect instruction.mnemonic))

def stackPushes (instruction : Instruction Target) : Except Error Nat :=
  match instruction.pushes, instruction.callee? with
  | .fixed count, _ => .ok count
  | .dynamic, some method => .ok method.callPushes
  | .dynamic, none => .error (.notSupported (.dynamicEffect instruction.mnemonic))

/-- A reserved opcode counts as a transfer, since nothing is known of it. -/
def isControlTransfer : Instruction Target → Bool
  | branch _ _ => true
  | ret => true
  | raw opcode _ => opcode.info?.all fun info => info.flow.isControlTransfer
  | _ => false

/-- The targets that control may go to other than the next instruction. -/
def targets : Instruction Target → List Target
  | branch _ target => [target]
  | raw _ operand => operand.targets
  | _ => []

def mapTargets (rename : Target → Renamed) : Instruction Target → Instruction Renamed
  | argument access index => argument access index
  | localSlot access slot => localSlot access slot
  | field place access found => field place access found
  | branch condition target => branch condition (rename target)
  | call method => call method
  | ret => ret
  | raw opcode operand => raw opcode (operand.mapTargets rename)

def loadsNaN : Instruction Target → Bool
  | raw _ (.immediate value) => value.isNaN
  | _ => false

end Instruction

/-- A local without a name is shown by its identity. -/
def Local.text (slot : Local) : String :=
  match slot.name with
  | some name => name
  | none => "<local " ++ slot.identity.text ++ ">"

def Local.details (slot : Local) : String :=
  "Local(" ++ slot.text ++ ": " ++ slot.type.fullName ++
    (if slot.declaration.pinned then " pinned" else "") ++ ")"

namespace Instruction

def text (instruction : Instruction Label) : String :=
  let operand : Option String :=
    match instruction with
    | argument _ index => some (toString index)
    | localSlot _ slot => some slot.text
    | field _ _ found => some found.text
    | branch _ target => some target.name
    | call method => some method.text
    | ret => none
    | raw _ operand => if operand.isNone then none else some operand.text
  match operand with
  | some operand => instruction.mnemonic ++ " " ++ operand
  | none => instruction.mnemonic

end Instruction
end CilTemplate
