import CilTemplate.Expansion.Pass
import CilTemplate.Expansion.Site
import CilTemplate.Text.Blank

/-
What a placeholder operation does to its target: the code in front of the
values and the code behind them.
-/

namespace CilTemplate

/-- The code around the values of a site.  The code behind them may turn out
impossible, which is found when they have been expanded. -/
structure SiteCode where
  before : List (Instruction Label)
  after : Except Error (List (Instruction Label))

def CodeItem.listText (items : List CodeItem) : String :=
  "; ".intercalate (items.map fun item => Text.trimmed item.text)

namespace SiteCode

def loadsReceiver : CodeItem → Bool
  | .code (.argument .load 0) => true
  | _ => false

/-- The captured value that a target stands for. -/
def capturedTarget (captures : CaptureContext) (options : ExpansionOptions)
    (kind : PlaceholderKind) (target : List CodeItem) : Expansion CapturedValue := do
  let notCaptured : Error :=
    .unresolvableCapture (.targetNotCaptured kind.name (CodeItem.listText target))
  match target with
  | [] => throw notCaptured
  | first :: following =>
      if options.receiverCaptures && loadsReceiver first then
        match ← Pass.receiverUse captures 0 following with
        | (.value value, length) =>
            if length = target.length then pure value else throw notCaptured
        | (.address _ _, _) => throw notCaptured
      else throw notCaptured

def memberTarget (captures : CaptureContext) (options : ExpansionOptions)
    (kind : PlaceholderKind) (target : List CodeItem) : Expansion Member := do
  match ← capturedTarget captures options kind target with
  | .member member => pure member
  | other => throw (.wrongMemberKind kind.name other.text)

def receiver (options : ExpansionOptions) (needed : Bool) (member : String) :
    Except Error (List (Instruction Label)) :=
  if !needed then .ok []
  else if options.destinationIsStatic then .error (.instanceMemberInStaticContext member)
  else .ok [.argument .load 0]

def fieldPlace (field : Field) : FieldPlace :=
  if field.isStatic then .ofType else .ofObject

/-- An access to a field, property or local.  A property is read and written
through its accessors and has no address. -/
def ofMember (options : ExpansionOptions) (kind : PlaceholderKind) (access : Access)
    (member : Member) : Except Error SiteCode :=
  match member with
  | .field field => do
      let before ← receiver options (!field.isStatic) member.text
      pure ⟨before, .ok [.field (fieldPlace field) access field]⟩
  | .localSlot slot => .ok ⟨[], .ok [.localSlot access slot]⟩
  | .property property =>
      let through (accessor : Option Method) (missing : String) : Except Error SiteCode :=
        match accessor with
        | none => .error (.wrongMemberKind kind.name (member.text ++ " without " ++ missing))
        | some accessor => do
            let before ← receiver options (!accessor.isStatic) member.text
            pure ⟨before, .ok [.call accessor]⟩
      match access with
      | .load => through property.getter "getter"
      | .store => through property.setter "setter"
      | .address => .error (.wrongMemberKind kind.name member.text)
  | .method _ => .error (.wrongMemberKind kind.name member.text)

/-- A delegate that is bound to the receiver or to nothing stands for a call on
the receiver of the destination. -/
def bindsReceiver : List CodeItem → Bool
  | [.code (.argument .load 0)] => true
  | [.code (.raw opcode _)] => opcode == Opcode.ldnull
  | _ => false

def methodPointer? : CodeItem → Option Method
  | .code (.raw opcode (.method method)) =>
      if opcode = Opcode.ldftn ∨ opcode = Opcode.ldvirtftn then some method else none
  | _ => none

def delegateMethod (arguments : List CodeItem) (constructor : Method) : Except Error Method := do
  if constructor.parameterCount ≠ 2 then
    throw (.unresolvableCapture (.notDelegateConstructor constructor.text))
  let spans ← argumentSpans 0 arguments 2
  let parts := spans.map fun span => span.of arguments
  let bound := parts.headD []
  let pointer := (parts.tail.headD []).getLast?
  match pointer.bind methodPointer? with
  | none => throw (.unresolvableCapture (.noMethodPointer constructor.text))
  | some method =>
      if !method.isStatic && !bindsReceiver bound then
        throw (.unresolvableCapture
          (.bindsOther constructor.text method.text (CodeItem.listText bound)))
      pure method

def constructor? : CodeItem → Option Method
  | .code (.raw opcode (.method constructor)) =>
      if opcode = Opcode.newobj then some constructor else none
  | _ => none

/-- The method that a call target stands for: a method or delegate that was
captured, or one that is constructed in place. -/
def callTarget (captures : CaptureContext) (options : ExpansionOptions)
    (target : List CodeItem) : Expansion Method := do
  match target.getLast?.bind constructor? with
  | some constructor => Action.ofExcept (delegateMethod target.dropLast constructor)
  | none =>
      match ← capturedTarget captures options .call target with
      | .member (.method method) => pure method
      | .delegate method => pure method
      | other => throw (.wrongMemberKind PlaceholderKind.call.name other.text)

/-- A call on a method.  A result that the placeholder does not have is
dropped. -/
def ofCall (options : ExpansionOptions) (operation method : Method) (valueCount : Nat) :
    Except Error SiteCode := do
  if method.parameterCount ≠ valueCount then
    throw (.unsupportedPlaceholder
      (.wrongArgumentCount method.text method.parameterCount valueCount))
  let before ← receiver options (!method.isStatic) method.text
  let after : Except Error (List (Instruction Label)) :=
    match method.returnsVoid, operation.returnsVoid with
    | false, true => .ok [.call method, .raw Opcode.pop .none]
    | true, false =>
        .error (.unsupportedPlaceholder (.returnsNothing method.text operation.text))
    | _, _ => .ok [.call method]
  pure ⟨before, after⟩

def ofSite (captures : CaptureContext) (options : ExpansionOptions)
    (site : PlaceholderSite) : Expansion SiteCode := do
  let accessTo (access : Access) : Expansion SiteCode := do
    let member ← memberTarget captures options site.kind site.target
    Action.ofExcept (ofMember options site.kind access member)
  match site.kind with
  | .get => accessTo .load
  | .set => accessTo .store
  | .ref => accessTo .address
  | .call => do
      let method ← callTarget captures options site.target
      Action.ofExcept (ofCall options site.operation method site.values.length)

end SiteCode
end CilTemplate
