import CilTemplate.Accessor.TypeBuilder

/-
Accessors of captured objects.  Generated code cannot hold an object itself.
An accessor takes the object out of the capture table when it is first called
and keeps it in a field: one caller claims the right to take it, and all
others wait until the field is ready.
-/

namespace CilTemplate

structure AccessorRuntime where
  flagType : CilType
  objectType : CilType
  takeMethod : Method
  claimMethod : Method

structure Accessor where
  key : UInt64
  method : Method
  cache : Field
  claimed : Field
  ready : Field
deriving DecidableEq

namespace Accessor

def waitLabel : Label := ⟨.index 0, "Wait"⟩

def readyLabel : Label := ⟨.index 1, "Ready"⟩

/-- The object comes out of the table as a plain reference and gets its own
type back. -/
def unpackOpcode (type : CilType) : Opcode :=
  if type.isValueType then Opcode.unboxAny else Opcode.castclass

def volatileRead (field : Field) : List CodeItem :=
  [.code (.raw Opcode.volatile .none), .code (.field .ofType .load field)]

def body (runtime : AccessorRuntime) (key : UInt64) (type : CilType)
    (cache claimed ready : Field) : Body where
  locals := []
  items :=
    volatileRead ready ++
    [.code (.branch .isTrue readyLabel),
      .code (.field .ofType .address claimed),
      .code (.loadInt32 1),
      .code (.loadInt32 0),
      .code (.call runtime.claimMethod),
      .code (.branch .isTrue waitLabel),
      .code (.raw Opcode.ldcI8 (.immediate (.int64 key.toInt64))),
      .code (.call runtime.takeMethod),
      .code (.raw (unpackOpcode type) (.type type)),
      .code (.field .ofType .store cache),
      .code (.loadInt32 1),
      .code (.raw Opcode.volatile .none),
      .code (.field .ofType .store ready),
      .code (.branch .always readyLabel),
      .mark waitLabel] ++
    volatileRead ready ++
    [.code (.branch .isFalse waitLabel),
      .mark readyLabel,
      .code (.field .ofType .load cache),
      .code .ret]

variable {Builder : Type} [TypeBuilder Builder]

/-- Access to an assembly is asked for unless it is that of the builder, or the
builder has it. -/
def grantFor (assembly : String) : Action (Builder × CaptureTable) Unit := do
  let own ← ExceptT.lift TypeBuilder.assembly
  if assembly ≠ own then
    let granted ← ExceptT.lift (TypeBuilder.grantsAccess assembly)
    if granted = false then TypeBuilder.grantAccess assembly

def define (runtime : AccessorRuntime) (object : CapturedObject) :
    Action (Workspace Builder) Accessor := do
  let key ← Workspace.onTable (ExceptT.lift CaptureTable.freshKey)
  let type := object.type
  Workspace.onBuilder (grantFor type.assembly)
  let name := "<>capture_" ++ toString key
  let cache ← Workspace.onBuilder (TypeBuilder.defineField name type)
  let claimed ← Workspace.onBuilder
    (TypeBuilder.defineField (name ++ "_claimed") runtime.flagType)
  let ready ← Workspace.onBuilder
    (TypeBuilder.defineField (name ++ "_ready") runtime.flagType)
  let method ← Workspace.onBuilder
    (TypeBuilder.defineMethod ("<>get_capture_" ++ toString key) type
      (body runtime key type cache claimed ready))
  Workspace.onTable (CaptureTable.insert key object)
  Workspace.note .debug
    ("generated capture accessor " ++ method.text ++ " for key " ++ toString key)
  pure ⟨key, method, cache, claimed, ready⟩

/-- Defines accessors for all objects in order, or for none: when one cannot be
defined, the objects parked before it are withdrawn. -/
def defineAll (runtime : AccessorRuntime) :
    List CapturedObject → List Accessor → Action (Workspace Builder) (List Accessor)
  | [], defined => pure defined
  | object :: rest, defined => do
      let outcome ← ExceptT.lift (define runtime object).attempt
      match outcome with
      | .ok accessor => defineAll runtime rest (defined ++ [accessor])
      | .error error =>
          Workspace.withdraw (defined.map Accessor.key)
          throw error

end Accessor
end CilTemplate
