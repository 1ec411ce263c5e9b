import CilTemplate.Code.Instruction

/-
Values that a closure captures: what a template sees when it is expanded.
-/

namespace CilTemplate

inductive Member
  | field (field : Field)
  | property (property : Property)
  | localSlot (slot : Local)
  | method (method : Method)
deriving DecidableEq

namespace Member

/-- An instance member is reached through the receiver of the destination. -/
def needsReceiver : Member → Bool
  | field found => !found.isStatic
  | property found => !found.isStatic
  | localSlot _ => false
  | method found => !found.isStatic

def text : Member → String
  | field found => "field " ++ found.text
  | property found => "property " ++ found.text
  | localSlot slot => "local " ++ slot.text
  | method found => "method " ++ found.text

end Member

/-- An object with no literal form.  Its cell is the storage it lives in. -/
structure CapturedObject where
  type : CilType
  cell : Nat
deriving DecidableEq

namespace CapturedObject

def sameCell (left right : CapturedObject) : Bool :=
  left.cell == right.cell

def text (object : CapturedObject) : String :=
  "CapturedObject(" ++ object.type.text ++ " @ <cell " ++ toString object.cell ++ ">)"

end CapturedObject

/-- A character is a code unit; floating-point numbers are their encodings. -/
inductive CapturedValue
  | null
  | bool (value : Bool)
  | char (unit : UInt16)
  | int8 (value : Int8)
  | uint8 (value : UInt8)
  | int16 (value : Int16)
  | uint16 (value : UInt16)
  | int32 (value : Int32)
  | uint32 (value : UInt32)
  | int64 (value : Int64)
  | uint64 (value : UInt64)
  | float32 (bits : UInt32)
  | float64 (bits : UInt64)
  | string (text : String)
  | member (member : Member)
  | delegate (method : Method)
  | object (object : CapturedObject)
deriving DecidableEq

namespace CapturedValue

def text : CapturedValue → String
  | null => "null"
  | bool value => toString value
  | char unit => "'\\u" ++ Hex.numeral 4 unit.toNat ++ "'"
  | int8 value => toString value.toInt
  | uint8 value => toString value.toNat
  | int16 value => toString value.toInt
  | uint16 value => toString value.toNat
  | int32 value => toString value.toInt
  | uint32 value => toString value.toNat
  | int64 value => toString value.toInt
  | uint64 value => toString value.toNat
  | float32 bits => Decimal.binary32.text bits.toNat
  | float64 bits => Decimal.binary64.text bits.toNat
  | string value => Text.quoted value
  | member found => found.text
  | delegate method => "delegate " ++ method.text
  | object found => found.text

/-- The instruction that loads a value, if a literal can hold it.  Numbers of
up to four bytes are widened by their sign, a longer unsigned number keeps its
bits. -/
def literal? {Target : Type} : CapturedValue → Option (Instruction Target)
  | null => some (.raw Opcode.ldnull .none)
  | bool value => some (.loadInt32 (if value then 1 else 0))
  | char unit => some (.loadInt32 unit.toUInt32.toInt32)
  | int8 value => some (.loadInt32 value.toInt32)
  | uint8 value => some (.loadInt32 value.toUInt32.toInt32)
  | int16 value => some (.loadInt32 value.toInt32)
  | uint16 value => some (.loadInt32 value.toUInt32.toInt32)
  | int32 value => some (.loadInt32 value)
  | uint32 value => some (.loadInt32 value.toInt32)
  | int64 value => some (.raw Opcode.ldcI8 (.immediate (.int64 value)))
  | uint64 value => some (.raw Opcode.ldcI8 (.immediate (.int64 value.toInt64)))
  | float32 bits => some (.raw Opcode.ldcR4 (.immediate (.float32 bits)))
  | float64 bits => some (.raw Opcode.ldcR8 (.immediate (.float64 bits)))
  | string value => some (.raw Opcode.ldstr (.string value))
  | member _ => none
  | delegate _ => none
  | object _ => none

end CapturedValue
end CilTemplate
