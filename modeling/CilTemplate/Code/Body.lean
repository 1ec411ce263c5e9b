import CilTemplate.Code.Instruction

/-
Method bodies: the locals that a body declares and its code, a sequence of
instructions and label marks.
-/

namespace CilTemplate

inductive CodeItem
  | mark (label : Label)
  | code (instruction : Instruction Label)
deriving DecidableEq

namespace CodeItem

def instruction? : CodeItem → Option (Instruction Label)
  | mark _ => none
  | code instruction => some instruction

def label? : CodeItem → Option Label
  | mark label => some label
  | code _ => none

def text : CodeItem → String
  | mark label => label.name ++ ":"
  | code instruction => "    " ++ instruction.text

/-- The item compares equal to itself; a NaN does not. -/
def isReflexive : CodeItem → Bool
  | mark _ => true
  | code instruction => !instruction.loadsNaN

end CodeItem

structure Body where
  locals : List Local
  items : List CodeItem
deriving DecidableEq

namespace Body

def newLocal (body : Body) (declaration : LocalDeclaration) (name : Option String) : Local :=
  ⟨.index body.locals.length, name, declaration⟩

def addLocal (body : Body) (declaration : LocalDeclaration) (name : Option String) : Body :=
  { body with locals := body.locals ++ [body.newLocal declaration name] }

def instructions (body : Body) : List (Instruction Label) :=
  body.items.filterMap CodeItem.instruction?

def labels (body : Body) : List Label :=
  body.items.filterMap CodeItem.label?

def slotOf? (body : Body) (slot : Local) : Option Nat :=
  body.locals.findIdx? fun declared => declared.identity == slot.identity

def text (body : Body) : String :=
  let declarations := body.locals.zipIdx.map fun (slot, index) =>
    ".local [" ++ toString index ++ "] " ++ slot.details ++ "\n"
  let items := body.items.map fun item => item.text ++ "\n"
  String.join (declarations ++ items)

/-- One body is found equal to another: it is the same, and it loads nothing
that differs from itself, as an operand that is not a number does. -/
def comparesEqual (left right : Body) : Bool :=
  left == right && left.items.all CodeItem.isReflexive

end Body
end CilTemplate
