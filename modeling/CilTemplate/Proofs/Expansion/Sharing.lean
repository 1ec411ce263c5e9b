import CilTemplate.Proofs.Accessor.Definition
import CilTemplate.Proofs.Expansion.Balance
import CilTemplate.Proofs.Expansion.Cells

/-
Accessors are shared by cell.  A captured object is loaded through the accessor
for the first object in its cell, which has the type of that object.  So each
object keeps its own type exactly if no cell is captured with two types.
-/

namespace CilTemplate

open CilTemplate.Action

/-- A method has the return type that it is asked for. -/
def TypeBuilder.KeepsReturnTypes (Builder : Type) [TypeBuilder Builder] : Prop :=
  ∀ (name : String) (type : CilType) (body : Body) (before after : Builder × CaptureTable)
    (method : Method),
    run (TypeBuilder.defineMethod name type body) before = (.ok method, after) →
      method.returnType = some type

theorem Accessor.DefinesAll.returnType {Builder : Type} [TypeBuilder Builder]
    (types : TypeBuilder.KeepsReturnTypes Builder) {runtime : AccessorRuntime}
    {objects : List CapturedObject} {accessors : List Accessor} {before after : Workspace Builder}
    (defines : DefinesAll runtime objects accessors before after) :
    List.Forall₂ (fun object accessor => accessor.method.returnType = some object.type)
      objects accessors := by
  induction defines with
  | none => exact .nil
  | next first others inductionHypothesis =>
      obtain ⟨_, ⟨_, _, _, _, method⟩, _⟩ := first
      exact .cons (types _ _ _ _ _ _ method) inductionHypothesis

/-- The trace leads from a template to the code that it is expanded to. -/
structure Trace.Relates (trace : Trace) (expander : Expander) (body expanded : Body)
    (accessors : List Accessor) : Prop where
  valid : ∃ objects, objects.length = accessors.length ∧ trace.Valid expander objects
  input : Part.flatten trace.input = expander.trimmed body.items
  output : Part.flatten (trace.output expander.options.argumentOffset accessors) = expanded.items

/-- In one pass each captured member has one value. -/
def Trace.ReadsOnce (trace : Trace) : Prop :=
  ∃ value : CaptureSite → CapturedValue,
    ∀ capture ∈ trace.loads, capture.value = value capture.read.site

/-- A capture is loaded by a call on this accessor. -/
def LoadedCapture.Calls (capture : LoadedCapture) (accessors : List Accessor)
    (accessor : Accessor) : Prop :=
  ∃ number, capture.load = .accessorCall number ∧ accessors[number]? = some accessor

/-- Each captured object is loaded through an accessor of its type that takes
this very object, and shares the accessor only with captures of itself. -/
structure Trace.KeepsObjects (trace : Trace) (accessors : List Accessor) (table : CaptureTable) :
    Prop where
  own : ∀ capture ∈ trace.loads, ∀ object, capture.value = .object object →
    ∃ accessor, capture.Calls accessors accessor ∧
      accessor.method.returnType = some object.type ∧ table.find? accessor.key = some object
  shared : ∀ left ∈ trace.loads, ∀ right ∈ trace.loads, ∀ object other,
    left.value = .object object → right.value = .object other →
      (left.load = right.load ↔ object = other)

def Trace.OneTypePerCell (trace : Trace) : Prop :=
  ∀ left ∈ trace.objects, ∀ right ∈ trace.objects, left.cell = right.cell → left.type = right.type

theorem Trace.mem_objects {trace : Trace} {capture : LoadedCapture} (member : capture ∈ trace.loads)
    {object : CapturedObject} (isObject : capture.value = .object object) :
    object ∈ trace.objects :=
  List.mem_filterMap.mpr ⟨capture, member, LoadedCapture.object?_eq_some.mpr isObject⟩

theorem CapturedObject.eq_iff {left right : CapturedObject} :
    left = right ↔ left.type = right.type ∧ left.cell = right.cell := by
  cases left
  cases right
  exact CapturedObject.mk.injEq _ _ _ _ ▸ Iff.rfl

namespace Expander

section

variable {expander : Expander} {body expanded : Body} {accessors : List Accessor} {pass : Pass}
  {output : List ExpandedItem} {trace : Trace}
  (done : ExpandedAs expander body expanded accessors pass output trace)

include done

theorem ExpandedAs.relates (count : pass.objects.length = accessors.length) :
    trace.Relates expander body expanded accessors where
  valid := ⟨pass.objects, count, done.valid⟩
  input := done.traced.input
  output := done.items_eq.symm

theorem ExpandedAs.readsOnce : trace.ReadsOnce := by
  refine ⟨fun site => (pass.memo.lookup site).getD .null, fun capture member => ?_⟩
  exact (congrArg (Option.getD · .null) (done.traced.known capture member).value).symm

/-- Two captured objects have one number exactly if they are in one cell. -/
theorem ExpandedAs.load_eq_iff {left right : LoadedCapture} {object other : CapturedObject}
    (leftMember : left ∈ trace.loads) (rightMember : right ∈ trace.loads)
    (leftValue : left.value = .object object) (rightValue : right.value = .object other) :
    left.load = right.load ↔ object.cell = other.cell := by
  obtain ⟨leftNumber, first, leftCall, leftKnown, leftFirst⟩ :=
    done.accessorCall leftMember leftValue
  obtain ⟨rightNumber, second, rightCall, rightKnown, rightFirst⟩ :=
    done.accessorCall rightMember rightValue
  have inFirst := CapturedObject.sameCell_iff.mp (List.find?_some leftFirst)
  have inSecond := CapturedObject.sameCell_iff.mp (List.find?_some rightFirst)
  rw [leftCall, rightCall, ExpandedItem.accessorCall.injEq]
  constructor
  · rintro rfl
    rw [inFirst, inSecond, Option.some.inj (leftKnown.symm.trans rightKnown)]
  · intro same
    exact done.apart.number_eq leftKnown rightKnown (inFirst.symm.trans (same.trans inSecond))

theorem ExpandedAs.keepsObjects_iff {table : CaptureTable}
    (first : ∀ capture ∈ trace.loads, ∀ object, capture.value = .object object →
      ∃ accessor first, capture.Calls accessors accessor ∧
        trace.objects.find? object.sameCell = some first ∧
        accessor.method.returnType = some first.type ∧ table.find? accessor.key = some first) :
    trace.KeepsObjects accessors table ↔ trace.OneTypePerCell := by
  constructor
  · intro keeps object member other otherMember same
    obtain ⟨left, leftMember, leftValue⟩ := List.mem_filterMap.mp member
    obtain ⟨right, rightMember, rightValue⟩ := List.mem_filterMap.mp otherMember
    rw [LoadedCapture.object?_eq_some] at leftValue rightValue
    have shared := (done.load_eq_iff leftMember rightMember leftValue rightValue).mpr same
    rw [(keeps.shared left leftMember right rightMember _ _ leftValue rightValue).mp shared]
  · intro oneType
    refine ⟨?_, ?_⟩
    · intro capture member object isObject
      obtain ⟨accessor, known, calls, isFirst, returns, parked⟩ :=
        first capture member object isObject
      have sameCell := CapturedObject.sameCell_iff.mp (List.find?_some isFirst)
      have sameType := oneType object (Trace.mem_objects member isObject) known
        (List.mem_of_find?_eq_some isFirst) sameCell
      rw [CapturedObject.eq_iff.mpr ⟨sameType, sameCell⟩]
      exact ⟨accessor, calls, returns, parked⟩
    · intro left leftMember right rightMember object other leftValue rightValue
      rw [done.load_eq_iff leftMember rightMember leftValue rightValue, CapturedObject.eq_iff]
      refine ⟨fun same => ⟨?_, same⟩, And.right⟩
      exact oneType object (Trace.mem_objects leftMember leftValue) other
        (Trace.mem_objects rightMember rightValue) same

end

variable {Builder : Type} [TypeBuilder Builder]

theorem exists_relates {expander : Expander} {body expanded : Body} {accessors : List Accessor}
    {workspace after : Workspace Builder}
    (done : run (expander.expand body) workspace = (.ok (expanded, accessors), after)) :
    ∃ trace : Trace, trace.Relates expander body expanded accessors := by
  obtain ⟨output, pass, ran, defined, rfl⟩ := expand_eq_ok_iff.mp done
  obtain ⟨trace, parts⟩ := exists_expandedAs ran accessors
  obtain ⟨_, rfl, each⟩ := Accessor.defineAll_eq_ok defined
  exact ⟨trace, parts.relates each.length_eq⟩

/-- Expansion shares accessors by cell.  A capture of an object is loaded by a
call on the accessor for the first object in its cell: the accessor returns the
type of that object and finds that object under its key.  Two captures share an
accessor exactly if their objects are in one cell.  So all objects keep their
types and their own accessors exactly if no cell is captured with two types. -/
theorem expand_shares_accessors_by_cell {expander : Expander} {body expanded : Body}
    {accessors : List Accessor} {workspace after : Workspace Builder}
    (types : TypeBuilder.KeepsReturnTypes Builder)
    (done : run (expander.expand body) workspace = (.ok (expanded, accessors), after)) :
    ∃ trace : Trace, trace.Relates expander body expanded accessors ∧ trace.ReadsOnce ∧
      (∀ capture ∈ trace.loads, ∀ object, capture.value = .object object →
        ∃ accessor first, capture.Calls accessors accessor ∧
          trace.objects.find? object.sameCell = some first ∧
          accessor.method.returnType = some first.type ∧
          (TypeBuilder.KeepsOffTable workspace.builder →
            after.table.find? accessor.key = some first)) ∧
      (∀ left ∈ trace.loads, ∀ right ∈ trace.loads, ∀ object other,
        left.value = .object object → right.value = .object other →
          (left.load = right.load ↔ object.cell = other.cell)) ∧
      (TypeBuilder.KeepsOffTable workspace.builder →
        (trace.KeepsObjects accessors after.table ↔ trace.OneTypePerCell)) := by
  obtain ⟨output, pass, ran, defined, rfl⟩ := expand_eq_ok_iff.mp done
  obtain ⟨trace, parts⟩ := exists_expandedAs ran accessors
  have defines := Accessor.defineAll_nil_eq_ok_iff.mp defined
  have returns := defines.returnType types
  have first : ∀ capture ∈ trace.loads, ∀ object, capture.value = .object object →
      ∃ accessor first, capture.Calls accessors accessor ∧
        trace.objects.find? object.sameCell = some first ∧
        accessor.method.returnType = some first.type ∧
        (TypeBuilder.KeepsOffTable workspace.builder →
          after.table.find? accessor.key = some first) := by
    intro capture member object isObject
    obtain ⟨number, first, calls, known, isFirst⟩ := parts.accessorCall member isObject
    obtain ⟨bound, rfl⟩ := List.getElem?_eq_some_iff.mp known
    have below := returns.length_eq ▸ bound
    have found := List.getElem?_eq_getElem below
    refine ⟨_, _, ⟨number, calls, found⟩, isFirst, returns.get bound below, ?_⟩
    rintro ⟨trusted, leaves, builder⟩
    exact (defines.handsOver leaves builder).find? known found
  refine ⟨trace, parts.relates returns.length_eq, parts.readsOnce, first, ?_, ?_⟩
  · intro left leftMember right rightMember object other leftValue rightValue
    exact parts.load_eq_iff leftMember rightMember leftValue rightValue
  · intro keepsOff
    refine parts.keepsObjects_iff fun capture member object isObject => ?_
    obtain ⟨accessor, known, calls, isFirst, returns, parked⟩ :=
      first capture member object isObject
    exact ⟨accessor, known, calls, isFirst, returns, parked keepsOff⟩

end Expander

namespace SharingSample

open NestedSample BalanceSample

def disguised : CapturedObject := { payload with type := surrogateType }

def twofold : Expander :=
  capturing [(captured 1, .object payload), (captured 2, .object disguised)]

def droppingBoth : Body :=
  ⟨[], (read 1).items ++ .code (.raw Opcode.pop .none) :: (read 2).items ++
    [.code (.raw Opcode.pop .none), .code .ret]⟩

/-- Both objects are loaded through one accessor, which takes the payload. -/
def loadsPayloadTwice : Except Error (Body × List Accessor) × Workspace Draft → Bool
  | (.ok (expanded, [accessor]), after) =>
      expanded.items == [.code (.call accessor.method), .code (.raw Opcode.pop .none),
        .code (.call accessor.method), .code (.raw Opcode.pop .none)] &&
      accessor.method.returnType == some payload.type &&
      after.table.entries == [(accessor.key, payload)]
  | _ => false

end SharingSample

open NestedSample SharingSample in
theorem expand_shares_accessors_by_cell_of_two_types :
    ∃ expanded accessors after,
      run (twofold.expand droppingBoth) workspace = (.ok (expanded, accessors), after) ∧
      ∃ trace : Trace, trace.Relates twofold droppingBoth expanded accessors ∧
        (trace.KeepsObjects accessors after.table ↔ trace.OneTypePerCell) := by
  have isOk : (run (twofold.expand droppingBoth) workspace).1.toOption.isSome = true := by
    decide +kernel
  obtain ⟨⟨expanded, accessors⟩, found⟩ := Option.isSome_iff_exists.mp isOk
  have done := run_eq_ok_of_toOption found
  have types : TypeBuilder.KeepsReturnTypes Draft :=
    fun name type body before after method made =>
      (Draft.makesGetters name type body before after method made).2.2
  obtain ⟨trace, relates, _, _, _, keeps⟩ := Expander.expand_shares_accessors_by_cell types done
  exact ⟨expanded, accessors, _, done, trace, relates, keeps ⟨_, Draft.leavesTable, rfl⟩⟩

open NestedSample SharingSample in
theorem expand_disguises_object :
    twofold.captures.Gives (read 2).site (.object disguised) ∧
    disguised ≠ payload ∧
    ∃ expanded accessor after,
      run (twofold.expand droppingBoth) workspace = (.ok (expanded, [accessor]), after) ∧
      expanded.items = [.code (.call accessor.method), .code (.raw Opcode.pop .none),
        .code (.call accessor.method), .code (.raw Opcode.pop .none)] ∧
      accessor.method.returnType = some payload.type ∧
      after.table.entries = [(accessor.key, payload)] := by
  refine ⟨⟨_, 0, rfl, by decide +kernel⟩, by decide, ?_⟩
  have loads : loadsPayloadTwice (run (twofold.expand droppingBoth) workspace) = true := by
    decide +kernel
  generalize run (twofold.expand droppingBoth) workspace = outcome at loads
  unfold loadsPayloadTwice at loads
  split at loads
  · rename_i expanded accessor after
    simp only [Bool.and_eq_true, beq_iff_eq] at loads
    exact ⟨expanded, accessor, after, rfl, loads.1.1, loads.1.2, loads.2⟩
  · cases loads

end CilTemplate
