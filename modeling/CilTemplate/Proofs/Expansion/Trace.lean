import CilTemplate.Proofs.Expansion.Cutting
import CilTemplate.Proofs.Expansion.Sites

/-
What expansion has done with some code, as a tree.  Items are shared by both
sides or belong to one of them: accesses, targets, operations and reads of
captures only to the template, and what replaces them only to the result.
-/

namespace CilTemplate

/-- Code in parts: an item that both sides share, or items of one side. -/
inductive Part
  | shared (item : CodeItem)
  | own (items : List CodeItem)

namespace Part

def items : Part → List CodeItem
  | shared item => [item]
  | own items => items

def shared? : Part → Option CodeItem
  | shared item => some item
  | own _ => none

def ownCode (code : List (Instruction Label)) : Part :=
  .own (code.map CodeItem.code)

end Part

def CodeItem.shifted (offset : Int) : CodeItem → CodeItem
  | .mark label => .mark label
  | .code instruction => .code (instruction.shifted offset)

def copyCode : Option Local → List (Instruction Label)
  | none => []
  | some slot => [.localSlot .store slot, .localSlot .address slot]

/-- A site without its values. -/
structure ReplacedSite where
  access : List CodeItem
  target : List CodeItem
  operation : Method
  before : List (Instruction Label)
  after : List (Instruction Label)

mutual

inductive Trace
  | done
  | shared (item : CodeItem) (rest : Trace)
  | read (read : CaptureRead) (value : CapturedValue) (load : ExpandedItem)
      (copy : Option Local) (rest : Trace)
  | site (site : ReplacedSite) (values : TraceValues) (rest : Trace)

inductive TraceValues
  | none
  | value (code : Trace) (rest : TraceValues)

end

mutual

/-- The template in parts. -/
def Trace.input : Trace → List Part
  | .done => []
  | .shared item rest => .shared item :: rest.input
  | .read read _ _ _ rest => .own read.items :: rest.input
  | .site site values rest =>
      .own site.access :: .own site.target :: (values.input.flatten ++
        .own [.code (.call site.operation)] :: rest.input)

def TraceValues.input : TraceValues → List (List Part)
  | .none => []
  | .value code rest => code.input :: rest.input

end

structure LoadedCapture where
  read : CaptureRead
  value : CapturedValue
  load : ExpandedItem
  copy : Option Local

mutual

def Trace.loads : Trace → List LoadedCapture
  | .done => []
  | .shared _ rest => rest.loads
  | .read read value load copy rest => ⟨read, value, load, copy⟩ :: rest.loads
  | .site _ values rest => values.loads ++ rest.loads

def TraceValues.loads : TraceValues → List LoadedCapture
  | .none => []
  | .value code rest => code.loads ++ rest.loads

end

def ExpandedItem.number? : ExpandedItem → Option Nat
  | .item _ => none
  | .accessorCall number => some number

namespace LoadedCapture

def object? (capture : LoadedCapture) : Option CapturedObject :=
  capture.value.object?

def number? (capture : LoadedCapture) : Option Nat :=
  capture.load.number?

/-- The pass remembers the value that was read and has the local of the copy. -/
structure Known (capture : LoadedCapture) (pass : Pass) : Prop where
  value : pass.memo.lookup capture.read.site = some capture.value
  copy : ∀ slot ∈ capture.copy, slot ∈ pass.temporaries.toList

end LoadedCapture

def Trace.objects (trace : Trace) : List CapturedObject :=
  trace.loads.filterMap LoadedCapture.object?

def TraceValues.objects (values : TraceValues) : List CapturedObject :=
  values.loads.filterMap LoadedCapture.object?

theorem Trace.objects_read (read : CaptureRead) (value : CapturedValue) (load : ExpandedItem)
    (copy : Option Local) (rest : Trace) :
    (Trace.read read value load copy rest).objects = value.object?.toList ++ rest.objects := by
  rw [Trace.objects, Trace.loads, List.filterMap_cons, LoadedCapture.object?]
  cases value.object? <;> rfl

theorem Trace.objects_site (site : ReplacedSite) (values : TraceValues) (rest : Trace) :
    (Trace.site site values rest).objects = values.objects ++ rest.objects :=
  List.filterMap_append

theorem TraceValues.objects_value (code : Trace) (rest : TraceValues) :
    (TraceValues.value code rest).objects = code.objects ++ rest.objects :=
  List.filterMap_append

section

variable (offset : Int) (accessors : List Accessor)

mutual

/-- The result in parts. -/
def Trace.output : Trace → List Part
  | .done => []
  | .shared item rest => .shared (item.shifted offset) :: rest.output
  | .read _ _ load copy rest =>
      .own (Expander.placeCalls accessors [load]) :: .ownCode (copyCode copy) :: rest.output
  | .site site values rest =>
      .ownCode site.before :: (values.output.flatten ++ .ownCode site.after :: rest.output)

def TraceValues.output : TraceValues → List (List Part)
  | .none => []
  | .value code rest => code.output :: rest.output

end

mutual

/-- What both sides share is the same but for the argument indices. -/
theorem Trace.shared_output (trace : Trace) :
    (trace.output offset accessors).filterMap Part.shared? =
      (trace.input.filterMap Part.shared?).map (CodeItem.shifted offset) := by
  cases trace with
  | done => rfl
  | shared item rest => exact congrArg (item.shifted offset :: ·) rest.shared_output
  | read read value load copy rest => exact rest.shared_output
  | site site values rest =>
      have inside := values.shared_output
      have behind := rest.shared_output
      simp only [Trace.output, Trace.input, List.filterMap_cons, List.filterMap_append,
        Part.ownCode, Part.shared?, List.map_append, inside, behind]

theorem TraceValues.shared_output (values : TraceValues) :
    (values.output offset accessors).flatten.filterMap Part.shared? =
      (values.input.flatten.filterMap Part.shared?).map (CodeItem.shifted offset) := by
  cases values with
  | none => rfl
  | value code rest =>
      have inside := code.shared_output
      have others := rest.shared_output
      simp only [TraceValues.output, TraceValues.input, List.flatten_cons, List.filterMap_append,
        List.map_append, inside, others]

end

end

def Part.flatten (parts : List Part) : List CodeItem :=
  parts.flatMap Part.items

@[simp] theorem Part.flatten_cons (part : Part) (rest : List Part) :
    flatten (part :: rest) = part.items ++ flatten rest :=
  List.flatMap_cons

@[simp] theorem Part.flatten_append (left right : List Part) :
    flatten (left ++ right) = flatten left ++ flatten right :=
  List.flatMap_append

def Trace.items (trace : Trace) : List CodeItem :=
  Part.flatten trace.input

def TraceValues.items (values : TraceValues) : List (List CodeItem) :=
  values.input.map Part.flatten

theorem TraceValues.flatten_items (values : TraceValues) :
    Part.flatten values.input.flatten = values.items.flatten := by
  rw [TraceValues.items, Part.flatten, List.flatMap_def, List.map_flatten, List.flatten_flatten,
    List.map_map]
  rfl

theorem Trace.items_shared (item : CodeItem) (rest : Trace) :
    (Trace.shared item rest).items = item :: rest.items :=
  rfl

theorem Trace.items_read (read : CaptureRead) (value : CapturedValue) (load : ExpandedItem)
    (copy : Option Local) (rest : Trace) :
    (Trace.read read value load copy rest).items = read.items ++ rest.items :=
  rfl

theorem Trace.items_site (site : ReplacedSite) (values : TraceValues) (rest : Trace) :
    (Trace.site site values rest).items = site.access ++ (site.target ++
      (values.items.flatten ++ .code (.call site.operation) :: rest.items)) := by
  simp only [Trace.items, Trace.input, Part.flatten_cons, Part.flatten_append, Part.items,
    values.flatten_items]
  rfl

/-- One of the closures has given the value for a member. -/
def CaptureContext.Gives (captures : CaptureContext) (site : CaptureSite)
    (value : CapturedValue) : Prop :=
  ∃ closure count, captures.closure? site.closure = some closure ∧
    closure.answer count site.member = .ok value

variable (expander : Expander)

/-- A closure owns the member that is read and has answered for it. -/
structure CaptureRead.Answered (read : CaptureRead) (value : CapturedValue) : Prop where
  receiver : expander.options.receiverCaptures = true
  reference : ∀ field ∈ read.reference, expander.captures.isCallbackReference field = true
  owned : expander.captures.owner? read.owners read.site.member = some read.site.closure
  given : expander.captures.Gives read.site value

/-- A value is loaded as a literal, or through the accessor of its cell. -/
inductive Loads (captures : CaptureContext) (objects : List CapturedObject) :
    CapturedValue → ExpandedItem → Prop
  | literal {value : CapturedValue} {instruction : Instruction Label}
      (literal : value.literal? = some instruction) :
      Loads captures objects value (.code instruction)
  | object {object known : CapturedObject} {number : Nat} (found : objects[number]? = some known)
      (same : object.sameCell known = true)
      (given : ∃ site, captures.Gives site (.object known)) :
      Loads captures objects (.object object) (.accessorCall number)

/-- A target that is called: a captured method or delegate, or the construction
of a delegate. -/
inductive CallTarget : List CodeItem → Method → Prop
  | captured {read : CaptureRead} {value : CapturedValue} {method : Method}
      (byValue : read.copyType? = none) (answered : read.Answered expander value)
      (calls : value = .member (.method method) ∨ value = .delegate method) :
      CallTarget read.items method
  | constructed {arguments : List CodeItem} {constructor method : Method}
      (built : SiteCode.delegateMethod arguments constructor = .ok method) :
      CallTarget (arguments ++ [.code (.raw Opcode.newobj (.method constructor))]) method

/-- The code around the values is what the operation does to the target. -/
inductive ReplacedSite.Acts (site : ReplacedSite) (valueCount : Nat) : PlaceholderKind → Prop
  | member {kind : PlaceholderKind} {access : Access} {read : CaptureRead} {member : Member}
      (accesses : SiteCode.access? kind = some access) (target : site.target = read.items)
      (byValue : read.copyType? = none) (answered : read.Answered expander (.member member))
      (code : SiteCode.ofMember expander.options kind access member =
        .ok ⟨site.before, .ok site.after⟩) : Acts site valueCount kind
  | call {method : Method} (target : CallTarget expander site.target method)
      (code : SiteCode.ofCall expander.options site.operation method valueCount =
        .ok ⟨site.before, .ok site.after⟩) : Acts site valueCount .call

/-- A site with the given values in front of other code. -/
structure ReplacedSite.Stands (site : ReplacedSite) (values : List (List CodeItem))
    (rest : List CodeItem) : Prop where
  accesses : expander.placeholders.accessLength? expander.options.receiverCaptures site.access =
    some site.access.length
  operates : expander.placeholders.operation? (.call site.operation) = some site.operation
  arity : site.operation.parameterCount = values.length + 1
  separate : Separate (site.target :: values)
  located : ∃ index found shorter,
    PlaceholderSite.read expander.placeholders expander.options.receiverCaptures index
      site.access.length (site.access ++ (site.target ++ (values.flatten ++
        .code (.call site.operation) :: rest))) = .ok ⟨found, shorter⟩ ∧ found.values = values
  acts : ∃ kind, PlaceholderNamespace.classify site.operation = .ok kind ∧
    site.Acts expander values.length kind

def CodeItem.Passes : CodeItem → Prop
  | .mark _ => True
  | .code instruction => instruction.Plain expander

variable (objects : List CapturedObject)

mutual

/-- Everything in the trace is what it stands for. -/
def Trace.Valid : Trace → Prop
  | .done => True
  | .shared item rest => item.Passes expander ∧ rest.Valid
  | .read read value load copy rest =>
      read.Answered expander value ∧ Loads expander.captures objects value load ∧
        copy.map Local.type = read.copyType? ∧ rest.Valid
  | .site site values rest =>
      site.Stands expander values.items rest.items ∧ values.Valid ∧ rest.Valid

def TraceValues.Valid : TraceValues → Prop
  | .none => True
  | .value code rest => code.Valid ∧ rest.Valid

end

end CilTemplate
