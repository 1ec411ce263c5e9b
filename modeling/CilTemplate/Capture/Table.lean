import CilTemplate.Action
import CilTemplate.Capture.Value

/-
The table in which captured objects wait until generated code takes them.
-/

namespace CilTemplate

structure CaptureTable where
  entries : List (UInt64 × CapturedObject)
  nextKey : UInt64

namespace CaptureTable

/-- Keys are handed out from one upward. -/
def empty : CaptureTable := ⟨[], 1⟩

def size (table : CaptureTable) : Nat :=
  table.entries.length

def isEmpty (table : CaptureTable) : Bool :=
  table.entries.isEmpty

def find? (table : CaptureTable) (key : UInt64) : Option CapturedObject :=
  table.entries.lookup key

def contains (table : CaptureTable) (key : UInt64) : Bool :=
  (table.find? key).isSome

/-- No key is handed out twice before all keys have been. -/
def freshKey : StateM CaptureTable UInt64 := do
  let table ← get
  set { table with nextKey := table.nextKey + 1 }
  pure table.nextKey

/-- An object never displaces another one. -/
def insert (key : UInt64) (object : CapturedObject) : Action CaptureTable Unit := do
  let table ← get
  if table.contains key then throw (.captureKeyCollision key)
  set { table with entries := table.entries ++ [(key, object)] }

def take (key : UInt64) : Action CaptureTable CapturedObject := do
  let table ← get
  match table.find? key with
  | none => throw (.captureKeyMissing key)
  | some object =>
      set { table with entries := table.entries.filter fun (known, _) => known != key }
      pure object

end CaptureTable
end CilTemplate
