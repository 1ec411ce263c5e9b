import CilTemplate.Action
import CilTemplate.Capture.Value

/-
The two closures that a template can observe.  The template is compiled as a
method of the template closure, and the callback that produced it is a method
of the callback closure.  Which closure owns a member is fixed; what a member
holds is asked of the closure each time, and the answer may differ from one
time to the next.
-/

namespace CilTemplate

inductive ClosureKind
  | template
  | callback
deriving DecidableEq

def ClosureKind.name : ClosureKind → String
  | template => "Template"
  | callback => "Callback"

inductive CapturedMember
  | field (field : Field)
  | getter (method : Method)
deriving DecidableEq

def CapturedMember.text : CapturedMember → String
  | field found => found.text
  | getter method => method.text

/-- A member of one of the closures. -/
structure CaptureSite where
  closure : ClosureKind
  member : CapturedMember
deriving DecidableEq

/-- A closure as it is seen from outside.  The answer to a read depends on how
many reads of any closure came before it. -/
structure ClosureObject where
  type : CilType
  fields : List Field
  getters : List Method
  answer : Nat → CapturedMember → Except Error CapturedValue

/-- A closure whose captured state is a snapshot.  It may list further fields
that it has no value for. -/
structure Closure where
  type : CilType
  fields : List (Field × CapturedValue)
  getters : List (Method × CapturedValue)
  otherFields : List Field

namespace Closure

def readField (closure : Closure) (field : Field) : Except Error CapturedValue :=
  match closure.fields.lookup field with
  | some value => .ok value
  | none => .error (.unresolvableCapture (.noField closure.type.text field.text))

def readGetter (closure : Closure) (getter : Method) : Except Error CapturedValue :=
  match closure.getters.lookup getter with
  | some value => .ok value
  | none => .error (.unresolvableCapture (.noGetter closure.type.text getter.text))

def object (closure : Closure) : ClosureObject where
  type := closure.type
  fields := closure.fields.map Prod.fst ++ closure.otherFields
  getters := closure.getters.map Prod.fst
  answer _ member :=
    match member with
    | .field field => closure.readField field
    | .getter getter => closure.readGetter getter

end Closure

structure CaptureContext where
  template : Option ClosureObject
  callback : Option ClosureObject

namespace CaptureContext

def closure? (context : CaptureContext) : ClosureKind → Option ClosureObject
  | .template => context.template
  | .callback => context.callback

def fieldsOf (context : CaptureContext) (kind : ClosureKind) : List Field :=
  ((context.closure? kind).map ClosureObject.fields).getD []

def gettersOf (context : CaptureContext) (kind : ClosureKind) : List Method :=
  ((context.closure? kind).map ClosureObject.getters).getD []

def ownsField (context : CaptureContext) (kind : ClosureKind) (field : Field) : Bool :=
  (context.fieldsOf kind).contains field

def ownsGetter (context : CaptureContext) (kind : ClosureKind) (getter : Method) : Bool :=
  (context.gettersOf kind).contains getter

def owns (context : CaptureContext) (site : CaptureSite) : Bool :=
  match site.member with
  | .field field => context.ownsField site.closure field
  | .getter getter => context.ownsGetter site.closure getter

/-- The owner among the given closures; an earlier one has precedence. -/
def owner? (context : CaptureContext) (kinds : List ClosureKind) (member : CapturedMember) :
    Option ClosureKind :=
  kinds.find? fun kind => context.owns ⟨kind, member⟩

def templateFirst : List ClosureKind := [.template, .callback]

def isCallbackReference (context : CaptureContext) (field : Field) : Bool :=
  context.ownsField .template field &&
    context.callback.any fun closure => closure.type == field.type

/-- Reads a member that its closure owns.  The state lists the reads that
reached a closure. -/
def read (context : CaptureContext) (site : CaptureSite) :
    Action (Array CaptureSite) CapturedValue := do
  if !context.owns site then
    match site.member with
    | .field field =>
        throw (.unresolvableCapture (.foreignField field.text site.closure.name))
    | .getter getter =>
        throw (.unresolvableCapture (.foreignGetter getter.text site.closure.name))
  match context.closure? site.closure with
  | none => throw (.unresolvableCapture (.noClosure site.closure.name))
  | some closure =>
      let reads ← get
      modify (·.push site)
      Action.ofExcept (closure.answer reads.size site.member)

def text (context : CaptureContext) : String :=
  let typeText (kind : ClosureKind) : String :=
    match context.closure? kind with
    | some closure => "Some(" ++ closure.type.details ++ ")"
    | none => "None"
  let count (kind : ClosureKind) : String :=
    toString (context.fieldsOf kind).eraseDups.length
  "CaptureContext \x7b template: " ++ typeText .template ++
    ", callback: " ++ typeText .callback ++
    ", template_fields: " ++ count .template ++
    ", callback_fields: " ++ count .callback ++ " \x7d"

end CaptureContext
end CilTemplate
