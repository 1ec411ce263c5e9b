import CilTemplate.Code.Opcode

/-
The conditions of branches.  Each has an opcode with a four-byte offset and
one with a one-byte offset.
-/

namespace CilTemplate

inductive BranchCondition
  | always
  | isTrue
  | isFalse
  | equal
  | notEqual
  | greaterThan
  | greaterThanOrEqual
  | lessThan
  | lessThanOrEqual
  | greaterThanUnsigned
  | greaterThanOrEqualUnsigned
  | lessThanUnsigned
  | lessThanOrEqualUnsigned
deriving DecidableEq

namespace BranchCondition

def all : List BranchCondition :=
  [always, isTrue, isFalse, equal, notEqual, greaterThan, greaterThanOrEqual, lessThan,
    lessThanOrEqual, greaterThanUnsigned, greaterThanOrEqualUnsigned, lessThanUnsigned,
    lessThanOrEqualUnsigned]

def name : BranchCondition → String
  | always => "Always"
  | isTrue => "True"
  | isFalse => "False"
  | equal => "Equal"
  | notEqual => "NotEqual"
  | greaterThan => "GreaterThan"
  | greaterThanOrEqual => "GreaterThanOrEqual"
  | lessThan => "LessThan"
  | lessThanOrEqual => "LessThanOrEqual"
  | greaterThanUnsigned => "GreaterThanUnsigned"
  | greaterThanOrEqualUnsigned => "GreaterThanOrEqualUnsigned"
  | lessThanUnsigned => "LessThanUnsigned"
  | lessThanOrEqualUnsigned => "LessThanOrEqualUnsigned"

def longOpcode : BranchCondition → Opcode
  | always => ⟨0x38⟩
  | isFalse => ⟨0x39⟩
  | isTrue => ⟨0x3A⟩
  | equal => ⟨0x3B⟩
  | greaterThanOrEqual => ⟨0x3C⟩
  | greaterThan => ⟨0x3D⟩
  | lessThanOrEqual => ⟨0x3E⟩
  | lessThan => ⟨0x3F⟩
  | notEqual => ⟨0x40⟩
  | greaterThanOrEqualUnsigned => ⟨0x41⟩
  | greaterThanUnsigned => ⟨0x42⟩
  | lessThanOrEqualUnsigned => ⟨0x43⟩
  | lessThanUnsigned => ⟨0x44⟩

/-- The short forms stand in the same order, thirteen places lower. -/
def shortOpcode (condition : BranchCondition) : Opcode :=
  ⟨condition.longOpcode.value - 0x0D⟩

def ofOpcode? (opcode : Opcode) : Option BranchCondition :=
  all.find? fun condition =>
    condition.longOpcode == opcode || condition.shortOpcode == opcode

def pops : BranchCondition → Nat
  | always => 0
  | isTrue | isFalse => 1
  | _ => 2

theorem mem_all (condition : BranchCondition) : condition ∈ all := by
  cases condition <;> decide

theorem ofOpcode?_longOpcode (condition : BranchCondition) :
    ofOpcode? condition.longOpcode = some condition := by
  cases condition <;> decide

theorem ofOpcode?_shortOpcode (condition : BranchCondition) :
    ofOpcode? condition.shortOpcode = some condition := by
  cases condition <;> decide

end BranchCondition
end CilTemplate
