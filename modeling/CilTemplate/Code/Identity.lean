import CilTemplate.Symbol.Type

/-
Locals and labels.  Two of them are the same when they have the same identity,
not when they look alike: bodies share a local by sharing its identity.
-/

namespace CilTemplate

/-- An entity is told apart by the handle that a caller gave it, or by its
number in the body that made it. -/
inductive Identity
  | handle (name : String)
  | index (number : Nat)
deriving DecidableEq

def Identity.text : Identity → String
  | .handle name => name
  | .index number => toString number

structure Label where
  identity : Identity
  name : String
deriving DecidableEq

def Label.details (label : Label) : String :=
  "Label(" ++ label.name ++ ")"

structure LocalDeclaration where
  type : CilType
  pinned : Bool
deriving DecidableEq

structure Local where
  identity : Identity
  name : Option String
  declaration : LocalDeclaration
deriving DecidableEq

namespace Local

def type (slot : Local) : CilType :=
  slot.declaration.type

end Local
end CilTemplate
