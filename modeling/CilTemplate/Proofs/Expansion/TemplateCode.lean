import CilTemplate.Proofs.Expansion.Captures
import CilTemplate.Proofs.Expansion.Slicing

/-
Template code as a tree: the values of a placeholder site are template code
again.  The tree says which captures the code uses and what it becomes when
every site is replaced by code on its target, from the inside out.
-/

namespace CilTemplate

/-- A read of a captured member.  It goes through the receiver, or through the
reference to the callback closure that the receiver holds. -/
structure CaptureRead where
  reference : Option Field
  site : CaptureSite
  byAddress : Bool

namespace CaptureRead

def instruction (read : CaptureRead) : Instruction Label :=
  match read.site.member with
  | .field field => .field .ofObject (if read.byAddress then .address else .load) field
  | .getter getter => .call getter

/-- The type of the copy whose address the read leaves. -/
def copyType? (read : CaptureRead) : Option CilType :=
  match read.site.member with
  | .field field => if read.byAddress then some field.type else none
  | .getter _ => none

def following (read : CaptureRead) : List CodeItem :=
  (read.reference.map fun field => CodeItem.code (.field .ofObject .load field)).toList ++
    [.code read.instruction]

def items (read : CaptureRead) : List CodeItem :=
  .code (.argument .load 0) :: read.following

def owners (read : CaptureRead) : List ClosureKind :=
  if read.reference.isSome then [.callback] else CaptureContext.templateFirst

end CaptureRead

/-- What takes the place of a site: whether the receiver is loaded in front of
the values, and the code behind them. -/
structure Replacement where
  onReceiver : Bool
  code : List (Instruction Label)

namespace Replacement

def before (replacement : Replacement) : List (Instruction Label) :=
  if replacement.onReceiver then [.argument .load 0] else []

def onField (field : Field) (access : Access) : Replacement :=
  if field.isStatic then ⟨false, [.field .ofType access field]⟩
  else ⟨true, [.field .ofObject access field]⟩

def through (accessor : Method) : Replacement :=
  ⟨!accessor.isStatic, [.call accessor]⟩

/-- A call drops the result of the method when the operation has none.  The
method takes the values of the operation and does not lack its result. -/
def calling? (operation method : Method) : Option Replacement :=
  if method.parameterCount + 1 = operation.parameterCount ∧
      (method.returnsVoid = true → operation.returnsVoid = true) then
    some ⟨!method.isStatic,
      .call method ::
        if operation.returnsVoid && !method.returnsVoid then [.raw Opcode.pop .none] else []⟩
  else none

/-- What an operation becomes on a captured target that it accepts. -/
def of? (operation : Method) : PlaceholderKind → CapturedValue → Option Replacement
  | .get, .member (.field field) => some (onField field .load)
  | .get, .member (.property property) => property.getter.map through
  | .get, .member (.localSlot slot) => some ⟨false, [.localSlot .load slot]⟩
  | .set, .member (.field field) => some (onField field .store)
  | .set, .member (.property property) => property.setter.map through
  | .set, .member (.localSlot slot) => some ⟨false, [.localSlot .store slot]⟩
  | .ref, .member (.field field) => some (onField field .address)
  | .ref, .member (.localSlot slot) => some ⟨false, [.localSlot .address slot]⟩
  | .call, .member (.method method) => calling? operation method
  | .call, .delegate method => calling? operation method
  | _, _ => none

end Replacement

/-- Expanded code in which an object stands for the call on its accessor. -/
inductive OutputItem
  | item (item : CodeItem)
  | object (object : CapturedObject)

namespace OutputItem

def code (instruction : Instruction Label) : OutputItem :=
  .item (.code instruction)

def numbered (number : CapturedObject → Nat) : OutputItem → ExpandedItem
  | .item found => .item found
  | .object found => .accessorCall (number found)

def placed (accessor : CapturedObject → Method) : OutputItem → CodeItem
  | .item found => found
  | .object found => .code (.call (accessor found))

end OutputItem

namespace CapturedValue

def object? : CapturedValue → Option CapturedObject
  | .object found => some found
  | _ => none

def load? (value : CapturedValue) : Option OutputItem :=
  match value.object? with
  | some found => some (.object found)
  | none => value.literal?.map OutputItem.code

end CapturedValue

namespace CaptureRead

variable (value : CaptureSite → CapturedValue)

def uses (read : CaptureRead) : CaptureUses :=
  ⟨[read.site], (value read.site).object?.toList, read.copyType?.toList⟩

/-- What a read becomes: a load of the value or, for an address, of a copy.
The copy is the one with the given number. -/
def output (firstSlot number : Nat) (read : CaptureRead) : List OutputItem :=
  (value read.site).load?.toList ++
    match read.copyType? with
    | none => []
    | some type =>
        [.code (.localSlot .store (Pass.temporary firstSlot number type)),
          .code (.localSlot .address (Pass.temporary firstSlot number type))]

end CaptureRead

def Instruction.shifted (offset : Int) : Instruction Label → Instruction Label
  | .argument access index => .argument access (index.toNat + offset).toNat.toUInt16
  | instruction => instruction

mutual

/-- The code of a template.  A site is a namespace access, a captured target,
the values and the call of the operation. -/
inductive TemplateCode
  | done
  | plain (instruction : Instruction Label) (rest : TemplateCode)
  | mark (label : Label) (rest : TemplateCode)
  | read (read : CaptureRead) (rest : TemplateCode)
  | site (access : List CodeItem) (target : CaptureRead) (values : TemplateValues)
      (operation : Method) (rest : TemplateCode)

inductive TemplateValues
  | none
  | value (code : TemplateCode) (rest : TemplateValues)

end

mutual

def TemplateCode.items : TemplateCode → List CodeItem
  | .done => []
  | .plain instruction rest => .code instruction :: rest.items
  | .mark label rest => .mark label :: rest.items
  | .read found rest => found.items ++ rest.items
  | .site access target values operation rest =>
      access ++ (target.items ++ (values.items.flatten ++ .code (.call operation) :: rest.items))

def TemplateValues.items : TemplateValues → List (List CodeItem)
  | .none => []
  | .value code rest => code.items :: rest.items

end

section

variable (value : CaptureSite → CapturedValue)

mutual

/-- The captures that the code uses, in the order of the code.  A target is
read, but it is neither loaded nor copied. -/
def TemplateCode.uses : TemplateCode → CaptureUses
  | .done => .none
  | .plain _ rest => rest.uses
  | .mark _ rest => rest.uses
  | .read found rest => found.uses value ++ rest.uses
  | .site _ target values _ rest => ⟨[target.site], [], []⟩ ++ (values.uses ++ rest.uses)

def TemplateValues.uses : TemplateValues → CaptureUses
  | .none => .none
  | .value code rest => code.uses ++ rest.uses

end

def Replacement.ofSite? (target : CaptureRead) (operation : Method) : Option Replacement := do
  let kind ← PlaceholderKind.ofName? operation.name
  Replacement.of? operation kind (value target.site)

variable (offset : Int) (firstSlot : Nat)

mutual

/-- The code with every site replaced.  The first copy made in it has the given
number. -/
def TemplateCode.output (number : Nat) : TemplateCode → List OutputItem
  | .done => []
  | .plain instruction rest => .code (instruction.shifted offset) :: rest.output number
  | .mark label rest => .item (.mark label) :: rest.output number
  | .read found rest =>
      found.output value firstSlot number ++
        rest.output (number + (found.uses value).copies.length)
  | .site _ target values operation rest =>
      let replacement := (Replacement.ofSite? value target operation).getD ⟨false, []⟩
      replacement.before.map OutputItem.code ++ (values.output number).flatten ++
        replacement.code.map OutputItem.code ++
        rest.output (number + (values.uses value).copies.length)

def TemplateValues.output (number : Nat) : TemplateValues → List (List OutputItem)
  | .none => []
  | .value code rest =>
      code.output number :: rest.output (number + (code.uses value).copies.length)

end

end

variable (expander : Expander)

/-- The read is one that the closures of the expander answer, and it does not
look like an access to the namespace. -/
structure CaptureRead.Resolves (read : CaptureRead) : Prop where
  receiver : expander.options.receiverCaptures = true
  reference : ∀ field ∈ read.reference, expander.captures.isCallbackReference field = true
  direct : read.reference = none → ∀ field, read.instruction = .field .ofObject .load field →
    expander.captures.isCallbackReference field = false
  owned : expander.captures.owner? read.owners read.site.member = some read.site.closure
  apart : expander.placeholders.accessLength? true read.items = none

/-- An instruction that only passes through. -/
structure Instruction.Plain (instruction : Instruction Label) : Prop where
  receiver : expander.options.receiverCaptures = true → instruction ≠ .argument .load 0
  access : expander.placeholders.accessLength? expander.options.receiverCaptures
    [.code instruction] = none
  operation : expander.placeholders.operation? instruction = none
  argument : ∀ access index, instruction = .argument access index →
    0 ≤ index.toNat + expander.options.argumentOffset ∧
      index.toNat + expander.options.argumentOffset ≤ 0xFFFF

/-- Inside a site, the instruction is not taken for a call on the namespace. -/
structure Instruction.Quiet (instruction : Instruction Label) : Prop where
  access : expander.placeholders.accessLength? true [.code instruction] = none
  operation : expander.placeholders.operation? instruction = none

/-- Code without labels and control transfers. -/
def TemplateCode.Straight : TemplateCode → Prop
  | .done => True
  | .plain instruction rest => instruction.isControlTransfer = false ∧ rest.Straight
  | .mark _ _ => False
  | .read found rest => found.instruction.Quiet expander ∧ rest.Straight
  | .site _ _ _ _ rest => rest.Straight

/-- A site that the expander can replace. -/
structure SiteAccepted (value : CaptureSite → CapturedValue) (access : List CodeItem)
    (target : CaptureRead) (values : List (List CodeItem)) (operation : Method) : Prop where
  accesses : expander.placeholders.accessLength? true access = some access.length
  resolves : target.Resolves expander
  quiet : target.instruction.Quiet expander
  byValue : target.copyType? = none
  operates : expander.placeholders.operation? (.call operation) = some operation
  arity : operation.parameterCount = values.length + 1
  classified : ∃ kind, PlaceholderNamespace.classify operation = .ok kind
  replaced : ∃ replacement, Replacement.ofSite? value target operation = some replacement ∧
    (replacement.onReceiver = true → expander.options.destinationIsStatic = false)
  separate : Separate (target.items :: values)

variable (value : CaptureSite → CapturedValue)

mutual

/-- Template code that expansion is meant for. -/
def TemplateCode.WellFormed : TemplateCode → Prop
  | .done => True
  | .plain instruction rest => instruction.Plain expander ∧ rest.WellFormed
  | .mark _ rest => rest.WellFormed
  | .read found rest =>
      found.Resolves expander ∧ (value found.site).load?.isSome ∧ rest.WellFormed
  | .site access target values operation rest =>
      SiteAccepted expander value access target values.items operation ∧
        values.WellFormed ∧ rest.WellFormed

def TemplateValues.WellFormed : TemplateValues → Prop
  | .none => True
  | .value code rest => code.Straight expander ∧ code.WellFormed ∧ rest.WellFormed

end

end CilTemplate
