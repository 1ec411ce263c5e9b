import CilTemplate.Code.Body

/-
The arguments of a call, found in straight-line code by its stack effects.
Going backward from the end, an argument is complete as soon as its
instructions leave exactly one value.  Storing a local and loading it again
counts as one step that passes a value on.
-/

namespace CilTemplate

/-- A part of a sequence, from `start` up to but not including `stop`. -/
structure Span where
  start : Nat
  stop : Nat
deriving DecidableEq

def Span.of {Item : Type} (span : Span) (items : List Item) : List Item :=
  (items.take span.stop).drop span.start

/-- Items that belong together, with their effect on the stack. -/
structure StackUnit where
  start : Nat
  stop : Nat
  pops : Nat
  pushes : Nat
deriving DecidableEq

namespace StackUnit

def straightLine (item : CodeItem) (token : Nat) : Except Error (Instruction Label) :=
  match item with
  | .mark label => .error (.controlFlowInPlaceholder (.labelInArgument label.name token))
  | .code instruction =>
      if instruction.isControlTransfer then
        .error (.controlFlowInPlaceholder (.transferInArgument instruction.text token))
      else .ok instruction

/-- The instruction stores a local and the next item loads it again. -/
def passesOn : Instruction Label → CodeItem → Bool
  | .localSlot .store stored, .code (.localSlot .load loaded) =>
      stored.identity == loaded.identity
  | _, _ => false

def single (position : Nat) (instruction : Instruction Label) : Except Error StackUnit := do
  let pops ← instruction.stackPops
  let pushes ← instruction.stackPushes
  pure ⟨position, position + 1, pops, pushes⟩

/-- The units of some code.  Positions count from its start; the base is added
only where a message names a place. -/
def ofItems (base : Nat) : Nat → List CodeItem → Except Error (List StackUnit)
  | _, [] => .ok []
  | position, [item] => do
      let instruction ← straightLine item (base + position)
      let unit ← single position instruction
      pure [unit]
  | position, item :: next :: rest => do
      let instruction ← straightLine item (base + position)
      if passesOn instruction next then
        let units ← ofItems base (position + 2) rest
        pure (⟨position, position + 2, 1, 1⟩ :: units)
      else
        let unit ← single position instruction
        let units ← ofItems base (position + 1) (next :: rest)
        pure (unit :: units)

/-- Walks backward over the units, the last one first.  So many arguments are
missing, and the next one ends at `stop`.  The balance is what it leaves so
far, less the one value that it has to leave. -/
def collect (arity : Nat) :
    Nat → Nat → Int → List Span → List StackUnit → Except Error (List Span)
  | 0, _, _, found, [] => .ok found
  | 0, _, _, _, unit :: _ => .error (.unbalancedArguments arity (.leading unit.stop))
  | _ + 1, _, _, found, [] => .error (.unbalancedArguments arity (.found found.length))
  | missing + 1, stop, balance, found, unit :: earlier =>
      let balance := balance + unit.pushes - unit.pops
      if 0 < balance then
        .error (.unbalancedArguments arity (.surplus (missing + 1) balance unit.start))
      else if balance = 0 then
        collect arity missing unit.start (-1) (⟨unit.start, stop⟩ :: found) earlier
      else collect arity (missing + 1) stop balance found earlier

end StackUnit

/-- The spans of the arguments of a call that takes `arity` of them.  They
cover the code. -/
def argumentSpans (base : Nat) (items : List CodeItem) (arity : Nat) :
    Except Error (List Span) := do
  let units ← StackUnit.ofItems base 0 items
  StackUnit.collect arity arity items.length (-1) [] units.reverse

end CilTemplate
