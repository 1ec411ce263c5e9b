import CilTemplate.Capture.Context
import CilTemplate.Capture.Table
import CilTemplate.Code.Body
import CilTemplate.Log

/-
The type under construction that receives generated members.  It may refuse
any request.  The code of a builder can reach the capture table, so the table is
part of what each of its answers may change.
-/

namespace CilTemplate

class TypeBuilder (Builder : Type) where
  assembly : StateM (Builder × CaptureTable) String
  /-- The assembly already lets the type use its hidden members. -/
  grantsAccess : String → StateM (Builder × CaptureTable) Bool
  grantAccess : String → Action (Builder × CaptureTable) Unit
  defineField : String → CilType → Action (Builder × CaptureTable) Field
  defineMethod : String → CilType → Body → Action (Builder × CaptureTable) Method

/-- Everything that expansion works on besides the template itself. -/
structure Workspace (Builder : Type) where
  builder : Builder
  table : CaptureTable
  reads : Array CaptureSite
  log : Log

namespace Workspace

variable {Builder Result : Type}

def start (builder : Builder) (table : CaptureTable) : Workspace Builder :=
  ⟨builder, table, #[], #[]⟩

def note (level : LogLevel) (text : String) : Action (Workspace Builder) Unit :=
  modify fun workspace => { workspace with log := workspace.log.push ⟨level, text⟩ }

def onTable (action : Action CaptureTable Result) : Action (Workspace Builder) Result :=
  action.onPart fun workspace =>
    (workspace.table, fun table => { workspace with table := table })

def onBuilder (action : Action (Builder × CaptureTable) Result) :
    Action (Workspace Builder) Result :=
  action.onPart fun workspace =>
    ((workspace.builder, workspace.table),
      fun (builder, table) => { workspace with builder := builder, table := table })

/-- Takes objects back out of the table.  A key that is already gone is noted,
and the others are still taken. -/
def withdraw : List UInt64 → Action (Workspace Builder) Unit
  | [] => pure ()
  | key :: rest => do
      let outcome ← ExceptT.lift (onTable (CaptureTable.take key)).attempt
      match outcome with
      | .ok _ => pure ()
      | .error error =>
          note .warn ("could not withdraw capture " ++ toString key ++ ": " ++ error.message)
      withdraw rest

end Workspace
end CilTemplate
