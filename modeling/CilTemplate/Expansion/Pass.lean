import CilTemplate.Capture.Context
import CilTemplate.Code.Body
import CilTemplate.Expansion.Options
import CilTemplate.Log

/-
The state of one expansion pass and the captures that code reads in it.  Each
captured member is read at most once in a pass.  Objects are only collected;
where the code needs one it says which, and the accessors are called there
once they exist.
-/

namespace CilTemplate

/-- Expanded code.  An accessor call names the object by its number among the
collected ones. -/
inductive ExpandedItem
  | item (item : CodeItem)
  | accessorCall (number : Nat)
deriving DecidableEq

def ExpandedItem.code (instruction : Instruction Label) : ExpandedItem :=
  .item (.code instruction)

structure Pass where
  reads : Array CaptureSite
  memo : List (CaptureSite × CapturedValue)
  firstSlot : Nat
  temporaries : Array Local
  objects : List CapturedObject
  log : Log

abbrev Expansion := Action Pass

/-- How code uses a capture: its value, or the address of a copy of it. -/
inductive CaptureUse
  | value (value : CapturedValue)
  | address (value : CapturedValue) (type : CilType)
deriving DecidableEq

namespace Pass

def start (firstSlot : Nat) (reads : Array CaptureSite) (log : Log) : Pass :=
  ⟨reads, [], firstSlot, #[], [], log⟩

def note (text : String) : Expansion Unit :=
  modify fun pass => { pass with log := pass.log.push ⟨.debug, text⟩ }

/-- The value of a member, which is read when it is first asked for. -/
def readCapture (captures : CaptureContext) (site : CaptureSite) : Expansion CapturedValue := do
  let pass ← get
  match pass.memo.lookup site with
  | some value => pure value
  | none =>
      let value ← (captures.read site).onPart fun pass =>
        (pass.reads, fun reads => { pass with reads := reads })
      modify fun pass => { pass with memo := (site, value) :: pass.memo }
      pure value

/-- A new local for a copy of a captured value.  It is identified by the slot
that it gets when it joins the locals of the body. -/
def newTemporary (type : CilType) : Expansion Local := do
  let pass ← get
  let number := pass.temporaries.size
  let temporary : Local :=
    { identity := .index (pass.firstSlot + number)
      name := some ("Temp_" ++ toString number)
      declaration := ⟨type, false⟩ }
  set { pass with temporaries := pass.temporaries.push temporary }
  pure temporary

/-- The number of an object.  Objects in the same cell share a number. -/
def objectNumber (object : CapturedObject) : Expansion Nat := do
  let pass ← get
  match pass.objects.findIdx? object.sameCell with
  | some number => pure number
  | none =>
      set { pass with objects := pass.objects ++ [object] }
      pure pass.objects.length

def loadValue (value : CapturedValue) : Expansion ExpandedItem :=
  match value.literal?, value with
  | some instruction, _ => pure (.code instruction)
  | none, .object object => do
      let number ← objectNumber object
      pure (.accessorCall number)
  | none, _ => throw (.unresolvableCapture (.onlyArgument value.text))

/-- Code for a use of a capture.  An address is that of a temporary. -/
def useCapture : CaptureUse → Expansion (List ExpandedItem)
  | .value value => do
      let load ← loadValue value
      pure [load]
  | .address value type => do
      let temporary ← newTemporary type
      let load ← loadValue value
      pure [load, .code (.localSlot .store temporary), .code (.localSlot .address temporary)]

/-- The member that an instruction would read from a closure, and the type of
the copy if it asks for an address. -/
def memberRead? : Instruction Label → Option (CapturedMember × Option CilType)
  | .field .ofObject .load field => some (.field field, none)
  | .field .ofObject .address field => some (.field field, some field.type)
  | .call getter => some (.getter getter, none)
  | _ => none

/-- The use of a capture that an instruction makes of the closures, if one of
them owns the member. -/
def closureUse (captures : CaptureContext) (closures : List ClosureKind)
    (instruction : Option (Instruction Label)) : Expansion (Option CaptureUse) :=
  match instruction.bind memberRead? with
  | none => pure none
  | some (member, copyType) =>
      match captures.owner? closures member with
      | none => pure none
      | some closure => do
          let value ← readCapture captures ⟨closure, member⟩
          match copyType with
          | none => pure (some (.value value))
          | some type => pure (some (.address value type))

def describe (instruction : Option (Instruction Label)) : String :=
  match instruction with
  | some instruction => "'" ++ instruction.text ++ "'"
  | none => "end of stream or label"

/-- The use of a capture by the code behind a load of the receiver at `token`,
and the number of items of the whole access.  A reference to the callback
closure leads to a member of that closure. -/
def receiverUse (captures : CaptureContext) (token : Nat) (following : List CodeItem) :
    Expansion (CaptureUse × Nat) := do
  let next := following.head?.bind CodeItem.instruction?
  let chained := following[1]?.bind CodeItem.instruction?
  let throughCallback :=
    match next with
    | some (.field .ofObject .load field) => captures.isCallbackReference field
    | _ => false
  if throughCallback then
    match ← closureUse captures [.callback] chained with
    | some use => pure (use, 3)
    | none =>
        throw (.unresolvableCapture (.notCallbackCapture (describe chained) (token + 2)))
  else
    match ← closureUse captures CaptureContext.templateFirst next with
    | some use => pure (use, 2)
    | none => throw (.unresolvableCapture (.notCaptureAccess (describe next) token))

end Pass
end CilTemplate
