import CilTemplate.Accessor.TypeBuilder

/-
A type under construction that is kept in memory.  It numbers its members in
the order of the requests and keeps a record of them.  It can be told to
refuse a request, or to take an object from the capture table while it defines
a method.
-/

namespace CilTemplate

inductive DraftEvent
  | granted (assembly : String)
  | field (field : Field)
  | method (method : Method) (returnType : CilType) (body : Body)
  | refused (name : String)
  | taken (outcome : Except Error CapturedObject)

/-- The requests to refuse, each by its number among those of its sort. -/
structure Refusals where
  grant : Option Nat
  field : Option Nat
  method : Option Nat

structure Draft where
  assembly : String
  granted : List String
  refusals : Refusals
  taking : Option (Nat × UInt64)
  grantCount : Nat
  fieldCount : Nat
  methodCount : Nat
  events : Array DraftEvent

namespace Draft

def start (assembly : String) (granted : List String) (refusals : Refusals)
    (taking : Option (Nat × UInt64)) : Draft :=
  ⟨assembly, granted, refusals, taking, 0, 0, 0, #[]⟩

def type (draft : Draft) : CilType :=
  ⟨⟨0x02000100⟩, "", "<>Generated", draft.assembly, .reference, 1⟩

def record (event : DraftEvent) (draft : Draft) : Draft :=
  { draft with events := draft.events.push event }

def refuse (refused : Option Nat) (number : Nat) (name : String) : Action Draft Unit :=
  if refused = some number then do
    modify (record (.refused name))
    throw (.rejected ("builder rejects " ++ name))
  else pure ()

def onDraft {Result : Type} (action : Action Draft Result) :
    Action (Draft × CaptureTable) Result :=
  action.onPart fun (draft, table) => (draft, fun draft => (draft, table))

def grantAccess (assembly : String) : Action Draft Unit := do
  let draft ← get
  set { draft with grantCount := draft.grantCount + 1 }
  refuse draft.refusals.grant draft.grantCount assembly
  modify fun draft => record (.granted assembly) { draft with granted := assembly :: draft.granted }

def defineField (name : String) (type : CilType) : Action Draft Field := do
  let draft ← get
  set { draft with fieldCount := draft.fieldCount + 1 }
  refuse draft.refusals.field draft.fieldCount name
  let field : Field :=
    { token := ⟨0x04000100 + draft.fieldCount.toUInt32⟩
      name := name
      owner := draft.type
      type := type
      flags := Method.privateFlag ||| Field.staticFlag }
  modify (record (.field field))
  pure field

def takeDuring (number : Nat) : Action (Draft × CaptureTable) Unit := do
  let (draft, table) ← get
  match draft.taking with
  | some (during, key) =>
      if during = number then
        let (outcome, table) := (CaptureTable.take key).run table
        set (record (.taken outcome) draft, table)
  | none => pure ()

def defineMethod (name : String) (returnType : CilType) (body : Body) :
    Action (Draft × CaptureTable) Method := do
  let (draft, _) ← get
  onDraft (modify fun draft => { draft with methodCount := draft.methodCount + 1 })
  onDraft (refuse draft.refusals.method draft.methodCount name)
  takeDuring draft.methodCount
  let method : Method :=
    { token := ⟨0x06000100 + draft.methodCount.toUInt32⟩
      name := name
      owner := draft.type
      parameters := []
      returnType := some returnType
      flags := Method.privateFlag ||| Method.staticFlag }
  onDraft (modify (record (.method method returnType body)))
  pure method

instance : TypeBuilder Draft where
  assembly := do
    let (draft, _) ← get
    pure draft.assembly
  grantsAccess assembly := do
    let (draft, _) ← get
    pure (draft.granted.contains assembly)
  grantAccess assembly := onDraft (grantAccess assembly)
  defineField name type := onDraft (defineField name type)
  defineMethod := defineMethod

end Draft
end CilTemplate
