import CilTemplate.Code.Body
import CilTemplate.Log

/-
Placeholders.  A template reaches a placeholder namespace through a field or a
static method of that type and then calls one of its operations.
-/

namespace CilTemplate

inductive PlaceholderKind
  | get
  | set
  | ref
  | call
deriving DecidableEq

namespace PlaceholderKind

def all : List PlaceholderKind := [get, set, ref, call]

def name : PlaceholderKind → String
  | get => "Get"
  | set => "Set"
  | ref => "Ref"
  | call => "Call"

def ofName? (name : String) : Option PlaceholderKind :=
  all.find? fun kind => kind.name == name

/-- The first argument is the target.  A store takes one value besides it and
a call takes any number. -/
def acceptsArity : PlaceholderKind → Nat → Bool
  | get, arity | ref, arity => arity == 1
  | set, arity => arity == 2
  | call, arity => decide (1 ≤ arity)

end PlaceholderKind

structure PlaceholderNamespace where
  type : CilType
deriving DecidableEq

namespace PlaceholderNamespace

/-- The number of items of a namespace access at the head of some code: a field
of the receiver, a static field or a static method that has the namespace
type. -/
def accessLength? (placeholders : PlaceholderNamespace) (receiverCaptures : Bool) :
    List CodeItem → Option Nat
  | .code (.argument .load 0) :: .code (.field .ofObject .load field) :: _ =>
      if receiverCaptures && field.type == placeholders.type then some 2 else none
  | .code (.field .ofType .load field) :: _ =>
      if field.type == placeholders.type then some 1 else none
  | .code (.call method) :: _ =>
      if method.isStatic && method.owner == placeholders.type &&
          method.returnType == some placeholders.type then some 1 else none
  | _ => none

def operation? (placeholders : PlaceholderNamespace) :
    Instruction Label → Option Method
  | .call method =>
      if !method.isStatic && method.owner == placeholders.type then some method else none
  | _ => none

def classify (method : Method) : Except Error PlaceholderKind :=
  match PlaceholderKind.ofName? method.name with
  | none => .error (.unsupportedPlaceholder (.notOperation method.text))
  | some kind =>
      if kind.acceptsArity method.parameterCount then .ok kind
      else
        .error (.unsupportedPlaceholder
          (.wrongArity method.text method.parameterCount kind.name))

end PlaceholderNamespace
end CilTemplate
