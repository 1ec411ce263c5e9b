/-
What the instruction set says about an opcode: the shape of its operand, its
effect on the evaluation stack and how control leaves it.
-/

namespace CilTemplate

inductive OperandKind
  | none
  | int8
  | uint8
  | uint16
  | int32
  | int64
  | float32
  | float64
  | shortBranch
  | branch
  | switch
  | type
  | field
  | method
  | string
  | signature
  | token
deriving DecidableEq

namespace OperandKind

def all : List OperandKind :=
  [none, int8, uint8, uint16, int32, int64, float32, float64, shortBranch, branch, switch,
    type, field, method, string, signature, token]

/-- Size in bytes; a switch table has no fixed size. -/
def size? : OperandKind → Option Nat
  | none => some 0
  | int8 | uint8 | shortBranch => some 1
  | uint16 => some 2
  | int32 | float32 | branch | type | field | method | string | signature | token => some 4
  | int64 | float64 => some 8
  | switch => Option.none

def name : OperandKind → String
  | none => "no operand"
  | int8 => "int8"
  | uint8 => "uint8"
  | uint16 => "uint16"
  | int32 => "int32"
  | int64 => "int64"
  | float32 => "float32"
  | float64 => "float64"
  | shortBranch | branch => "label"
  | switch => "label list"
  | type => "type"
  | field => "field"
  | method => "method"
  | string => "string"
  | signature => "signature"
  | token => "ldtoken symbol"

end OperandKind

inductive Flow
  | sequential
  | conditionalBranch
  | unconditionalBranch
  | call
  | exit
  | switch
  | throwing
  | endFinally
  | leave
deriving DecidableEq

namespace Flow

def name : Flow → String
  | sequential => "Sequential"
  | conditionalBranch => "ConditionalBranch"
  | unconditionalBranch => "UnconditionalBranch"
  | call => "Call"
  | exit => "Return"
  | switch => "Switch"
  | throwing => "Throw"
  | endFinally => "EndFinally"
  | leave => "Leave"

def isControlTransfer : Flow → Bool
  | sequential | call => false
  | _ => true

/-- Control never continues at the next instruction. -/
def endsPath : Flow → Bool
  | unconditionalBranch | exit | throwing | endFinally | leave => true
  | _ => false

end Flow

/-- A number of stack slots; a call takes as many as its callee says. -/
inductive StackCount
  | fixed (count : Nat)
  | dynamic
deriving DecidableEq

instance (count : Nat) : OfNat StackCount count := ⟨.fixed count⟩

structure OpcodeInfo where
  mnemonic : String
  operand : OperandKind
  pops : StackCount
  pushes : StackCount
  flow : Flow
deriving DecidableEq

end CilTemplate
