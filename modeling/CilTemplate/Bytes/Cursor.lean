import CilTemplate.Action
import CilTemplate.Bytes.LittleEndian

/-
A cursor over a window of a sequence.  The position counts from the start of
the window; the base is where the window starts in the whole sequence, so a
window of a window still knows its absolute place.
-/

namespace CilTemplate

structure Cursor (Item : Type) where
  window : Array Item
  base : Nat
  position : Nat

namespace Cursor

variable {Item : Type}

def ofList (items : List Item) : Cursor Item :=
  ⟨items.toArray, 0, 0⟩

def length (cursor : Cursor Item) : Nat :=
  cursor.window.size

def isEmpty (cursor : Cursor Item) : Bool :=
  cursor.window.isEmpty

def hasMore (cursor : Cursor Item) : Bool :=
  decide (cursor.position < cursor.length)

def remaining (cursor : Cursor Item) : Nat :=
  cursor.length - cursor.position

def absolutePosition (cursor : Cursor Item) : Nat :=
  cursor.base + cursor.position

def peek? (cursor : Cursor Item) : Option Item :=
  cursor.window[cursor.position]?

def peekNth? (cursor : Cursor Item) (distance : Nat) : Option Item :=
  cursor.window[cursor.position + distance]?

/-- The end of the window is a position too. -/
def seek (position : Nat) : Action (Cursor Item) Unit := do
  let cursor ← get
  if cursor.length < position then throw .outOfBounds
  set { cursor with position := position }

def ensureRemaining (needed : Nat) : Action (Cursor Item) Unit := do
  let cursor ← get
  if cursor.remaining < needed then throw .outOfBounds

def advanceBy (step : Nat) : Action (Cursor Item) Unit := do
  ensureRemaining step
  modify fun cursor => { cursor with position := cursor.position + step }

def advance : Action (Cursor Item) Unit :=
  advanceBy 1

def consume : Action (Cursor Item) Item := do
  let cursor ← get
  match cursor.peek? with
  | none => throw .outOfBounds
  | some item =>
      set { cursor with position := cursor.position + 1 }
      pure item

def take (count : Nat) : Action (Cursor Item) (List Item) := do
  let cursor ← get
  advanceBy count
  pure (cursor.window.extract cursor.position (cursor.position + count)).toList

def slice (cursor : Cursor Item) (start stop : Nat) : Except Error (Cursor Item) :=
  if stop < start ∨ cursor.length < stop then .error .outOfBounds
  else .ok ⟨cursor.window.extract start stop, cursor.base + start, 0⟩

def readNumber (width : Nat) : Action (Cursor UInt8) Nat := do
  let cursor ← get
  let (number, stop) ← Action.ofExcept
    (LittleEndian.readAt width cursor.window cursor.position)
  set { cursor with position := stop }
  pure number

def readScalar (scalar : ScalarType) : Action (Cursor UInt8) Int := do
  let encoding ← readNumber scalar.width
  pure (scalar.decode encoding)

end Cursor
end CilTemplate
