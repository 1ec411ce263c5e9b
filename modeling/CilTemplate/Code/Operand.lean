import CilTemplate.Bytes.LittleEndian
import CilTemplate.Code.Identity
import CilTemplate.Decimal.Shortest
import CilTemplate.Symbol.Resolver

/-
Operands of instructions.  How a branch names its target depends on the stage:
an address while bytes are read, a label in a method body and a handle of the
sink while code is written.
-/

namespace CilTemplate

/-- A number in the instruction stream.  Floating-point numbers are kept as
their encoding. -/
inductive Immediate
  | int8 (value : Int8)
  | uint8 (value : UInt8)
  | uint16 (value : UInt16)
  | int32 (value : Int32)
  | int64 (value : Int64)
  | float32 (bits : UInt32)
  | float64 (bits : UInt64)
deriving DecidableEq

namespace Immediate

def kind : Immediate → OperandKind
  | int8 _ => .int8
  | uint8 _ => .uint8
  | uint16 _ => .uint16
  | int32 _ => .int32
  | int64 _ => .int64
  | float32 _ => .float32
  | float64 _ => .float64

def bytes : Immediate → List UInt8
  | int8 value => LittleEndian.toBytes 1 value.toUInt8.toNat
  | uint8 value => LittleEndian.toBytes 1 value.toNat
  | uint16 value => LittleEndian.toBytes 2 value.toNat
  | int32 value => LittleEndian.toBytes 4 value.toUInt32.toNat
  | int64 value => LittleEndian.toBytes 8 value.toUInt64.toNat
  | float32 bits => LittleEndian.toBytes 4 bits.toNat
  | float64 bits => LittleEndian.toBytes 8 bits.toNat

def text : Immediate → String
  | int8 value => toString value.toInt
  | uint8 value => toString value.toNat
  | uint16 value => toString value.toNat
  | int32 value => toString value.toInt
  | int64 value => toString value.toInt
  | float32 bits => Decimal.binary32.text bits.toNat
  | float64 bits => Decimal.binary64.text bits.toNat

def isNaN : Immediate → Bool
  | float32 bits => Decimal.binary32.isNaN bits.toNat
  | float64 bits => Decimal.binary64.isNaN bits.toNat
  | _ => false

end Immediate

inductive Operand (Target : Type)
  | none
  | immediate (value : Immediate)
  | type (type : CilType)
  | field (field : Field)
  | method (method : Method)
  | string (text : String)
  | signature (blob : List UInt8)
  | symbol (symbol : Symbol)
  | label (target : Target)
  | switch (targets : List Target)
deriving DecidableEq

namespace Operand

variable {Target Renamed : Type}

/-- An operand has the shape that an opcode asks for.  A label fits both sizes
of branch. -/
def fits : Operand Target → OperandKind → Bool
  | none, kind => kind == .none
  | immediate value, kind => kind == value.kind
  | type _, kind => kind == .type
  | field _, kind => kind == .field
  | method _, kind => kind == .method
  | string _, kind => kind == .string
  | signature _, kind => kind == .signature
  | symbol _, kind => kind == .token
  | label _, kind => kind == .branch || kind == .shortBranch
  | switch _, kind => kind == .switch

def targets : Operand Target → List Target
  | label target => [target]
  | switch targets => targets
  | _ => []

def mapTargets (rename : Target → Renamed) : Operand Target → Operand Renamed
  | none => none
  | immediate value => immediate value
  | type found => type found
  | field found => field found
  | method found => method found
  | string text => string text
  | signature blob => signature blob
  | symbol found => symbol found
  | label target => label (rename target)
  | switch targets => switch (targets.map rename)

def isNone : Operand Target → Bool
  | none => true
  | _ => false

/-- The text of an operand, given the text of a target and the two brackets
around the targets of a switch. -/
def textWith (targetText : Target → String) (opening closing : String) :
    Operand Target → String
  | none => ""
  | immediate value => value.text
  | type found => found.fullName
  | field found => found.text
  | method found => found.text
  | string text => Text.quoted text
  | signature blob => "sig[" ++ toString blob.length ++ " bytes]"
  | symbol found => found.text
  | label target => targetText target
  | switch targets => opening ++ ", ".intercalate (targets.map targetText) ++ closing

def text (operand : Operand Label) : String :=
  operand.textWith Label.name "(" ")"

end Operand
end CilTemplate
