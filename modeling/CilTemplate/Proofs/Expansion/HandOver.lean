import CilTemplate.Proofs.Accessor.Recording
import CilTemplate.Proofs.Expansion.Sharing

/-
What a pass hands over: each object waits in the table once, one method takes
it, and the code calls that method.  No object is parked that nothing takes,
and nothing is taken that is not parked.
-/

namespace CilTemplate

open CilTemplate.Action

namespace Accessor

/-- The method loads the key and takes the object right after that. -/
def MethodRequest.Takes (runtime : AccessorRuntime) (key : UInt64) (request : MethodRequest) :
    Prop :=
  [.code (.raw Opcode.ldcI8 (.immediate (.int64 key.toInt64))), .code (.call runtime.takeMethod)]
    <:+: request.body.items

theorem takes_request_iff {runtime : AccessorRuntime} {type : CilType} {accessor : Accessor}
    {key : UInt64} : (request runtime type accessor).Takes runtime key ↔ accessor.key = key := by
  constructor
  · intro takes
    have loaded := takes.subset List.mem_cons_self
    have one : (.loadInt32 1 : Instruction Label) = .raw ⟨0x17⟩ .none := rfl
    have zero : (.loadInt32 0 : Instruction Label) = .raw ⟨0x16⟩ .none := rfl
    have same : key.toInt64 = accessor.key.toInt64 := by
      simpa [request, body, volatileRead, one, zero] using loaded
    exact (congrArg Int64.toUInt64 same).symm
  · rintro rfl
    let items :=
      (body runtime accessor.key type accessor.cache accessor.claimed accessor.ready).items
    exact ⟨items.take 8, items.drop 10, rfl⟩

def requests (runtime : AccessorRuntime) (objects : List CapturedObject)
    (accessors : List Accessor) : List MethodRequest :=
  objects.zipWith (fun object => request runtime object.type) accessors

theorem takes_requests_iff {runtime : AccessorRuntime} {objects : List CapturedObject}
    {accessors : List Accessor} (count : accessors.length = objects.length) (key : UInt64)
    (number : Nat) :
    (∃ request : MethodRequest, (requests runtime objects accessors)[number]? = some request ∧
      request.Takes runtime key) ↔ (accessors.map Accessor.key)[number]? = some key := by
  rw [requests, List.getElem?_zipWith, List.getElem?_map]
  cases found : accessors[number]? with
  | none => cases objects[number]? <;> simp
  | some accessor =>
      obtain ⟨bound, _⟩ := List.getElem?_eq_some_iff.mp found
      rw [List.getElem?_eq_getElem (count ▸ bound)]
      simp [takes_request_iff]

theorem existsUnique_takes {runtime : AccessorRuntime} {objects : List CapturedObject}
    {accessors : List Accessor} (count : accessors.length = objects.length)
    (distinct : (accessors.map key).Nodup) {accessor : Accessor} (member : accessor ∈ accessors) :
    ∃! number : Nat, ∃ request : MethodRequest,
      (requests runtime objects accessors)[number]? = some request ∧
        request.Takes runtime accessor.key := by
  simp only [takes_requests_iff count]
  obtain ⟨number, found⟩ := List.getElem?_of_mem (List.mem_map_of_mem member)
  obtain ⟨bound, _⟩ := List.getElem?_eq_some_iff.mp found
  exact ⟨number, found, fun other takes =>
    ((List.getElem?_inj bound distinct).mp (found.trans takes.symm)).symm⟩

end Accessor

namespace Expander

/-- A call on an accessor stands where its number stood. -/
inductive PlacedAs (accessors : List Accessor) : ExpandedItem → CodeItem → Prop
  | item {item : CodeItem} : PlacedAs accessors (.item item) item
  | call {number : Nat} {accessor : Accessor} (found : accessors[number]? = some accessor) :
      PlacedAs accessors (.accessorCall number) (.code (.call accessor.method))

theorem forall₂_placedAs {accessors : List Accessor} {output : List ExpandedItem}
    (known : ∀ number ∈ output.filterMap ExpandedItem.number?, number < accessors.length) :
    List.Forall₂ (PlacedAs accessors) output (placeCalls accessors output) := by
  induction output with
  | nil => exact .nil
  | cons item rest inductionHypothesis =>
      cases item with
      | item item => exact .cons .item (inductionHypothesis known)
      | accessorCall number =>
          obtain ⟨bound, others⟩ := List.forall_mem_cons.mp known
          have found := List.getElem?_eq_getElem bound
          rw [placeCalls, found]
          exact .cons (.call found) (inductionHypothesis others)

end Expander

theorem ExpandedItem.number?_eq_some {item : ExpandedItem} {number : Nat} :
    item.number? = some number ↔ item = .accessorCall number := by
  cases item <;> simp [ExpandedItem.number?]

theorem Loads.number_lt {captures : CaptureContext} {objects : List CapturedObject}
    {value : CapturedValue} {number : Nat}
    (loads : Loads captures objects value (.accessorCall number)) : number < objects.length := by
  cases loads with
  | object found same given => exact (List.getElem?_eq_some_iff.mp found).1

/-- The objects that are picked are one from each cell. -/
structure PicksCells (objects picked : List CapturedObject) : Prop where
  apart : CellsApart picked
  subset : picked ⊆ objects
  covers : ∀ object ∈ objects, ∃ known ∈ picked, object.cell = known.cell

namespace Expander

section

variable {expander : Expander} {body expanded : Body} {accessors : List Accessor} {pass : Pass}
  {output : List ExpandedItem} {trace : Trace}
  (done : ExpandedAs expander body expanded accessors pass output trace)

include done

theorem ExpandedAs.picksCells : PicksCells trace.objects pass.objects where
  apart := done.apart
  subset := by
    intro object member
    rw [done.objects] at member
    exact CaptureUses.mem_of_mem_foldl_addObject member
  covers := by
    intro object member
    obtain ⟨known, found⟩ := Option.isSome_iff_exists.mp
      (List.find?_isSome.mpr ⟨object, member, CapturedObject.sameCell_iff.mpr rfl⟩)
    rw [← done.find?_objects] at found
    exact ⟨known, List.mem_of_find?_eq_some found,
      CapturedObject.sameCell_iff.mp (List.find?_some found)⟩

theorem ExpandedAs.number_lt :
    ∀ number ∈ output.filterMap ExpandedItem.number?, number < pass.objects.length := by
  intro number member
  rw [done.traced.calls] at member
  obtain ⟨capture, here, calls⟩ := List.mem_filterMap.mp member
  have loads := (trace.valid_loads done.valid capture here).loads
  rw [ExpandedItem.number?_eq_some.mp calls] at loads
  exact loads.number_lt

theorem ExpandedAs.number_mem {number : Nat} (bound : number < pass.objects.length) :
    .accessorCall number ∈ output := by
  have found := List.getElem?_eq_getElem bound
  have member := done.picksCells.subset (List.getElem_mem bound)
  obtain ⟨capture, here, isObject⟩ := List.mem_filterMap.mp member
  rw [LoadedCapture.object?_eq_some] at isObject
  obtain ⟨other, first, calls, known, isFirst⟩ := done.accessorCall here isObject
  have same := CapturedObject.sameCell_iff.mp (List.find?_some isFirst)
  obtain rfl := done.apart.number_eq found known same
  have listed : number ∈ output.filterMap ExpandedItem.number? := by
    rw [done.traced.calls]
    exact List.mem_filterMap.mpr ⟨capture, here, by rw [LoadedCapture.number?, calls]; rfl⟩
  obtain ⟨item, present, numbered⟩ := List.mem_filterMap.mp listed
  rwa [ExpandedItem.number?_eq_some.mp numbered] at present

end

theorem mem_placeCalls {accessors : List Accessor} {output : List ExpandedItem} {number : Nat}
    {accessor : Accessor} (found : accessors[number]? = some accessor)
    (member : .accessorCall number ∈ output) :
    .code (.call accessor.method) ∈ placeCalls accessors output := by
  induction output with
  | nil => cases member
  | cons item rest inductionHypothesis =>
      rcases List.mem_cons.mp member with rfl | later
      · rw [placeCalls, found]
        exact List.mem_cons_self
      · cases item with
        | item item => exact List.mem_cons_of_mem _ (inductionHypothesis later)
        | accessorCall other => exact List.mem_append_right _ (inductionHypothesis later)

variable {Builder : Type} [TypeBuilder Builder]

/-- A pass hands over each object exactly once, if the builder leaves the table
alone.  The table grows by one entry for each cell among the loaded objects,
under keys that had none, that differ and that were handed out in this pass.
Of the methods that the builder is asked for, which a recording builder shows,
one takes each key.  Each accessor is called, and no number of an accessor is
left without its call. -/
theorem expand_hands_over_each_object {expander : Expander} {body expanded : Body}
    {accessors : List Accessor} {workspace after : Workspace Builder}
    (keepsOff : TypeBuilder.KeepsOffTable workspace.builder)
    (done : run (expander.expand body) workspace = (.ok (expanded, accessors), after)) :
    ∃ (trace : Trace) (objects : List CapturedObject) (requests : List Accessor.MethodRequest),
      trace.Relates expander body expanded accessors ∧
      PicksCells trace.objects objects ∧
      Accessor.HandsOver objects accessors workspace.table after.table ∧
      run (expander.expand body) (workspace.recording []) =
        (.ok (expanded, accessors), after.recording requests) ∧
      (∀ accessor ∈ accessors, ∃! number : Nat, ∃ request : Accessor.MethodRequest,
        requests[number]? = some request ∧ request.Takes expander.runtime accessor.key) ∧
      (∀ accessor ∈ accessors, .code (.call accessor.method) ∈ expanded.items) ∧
      ∃ (output : List ExpandedItem) (pass : Pass),
        run (expander.expandItems 0 (expander.trimmed body.items))
          (Pass.start body.locals.length workspace.reads workspace.log) = (.ok output, pass) ∧
        List.Forall₂ (PlacedAs accessors) output expanded.items := by
  obtain ⟨output, pass, ran, defined, rfl⟩ := expand_eq_ok_iff.mp done
  obtain ⟨trace, parts⟩ := exists_expandedAs ran accessors
  have defines := Accessor.defineAll_nil_eq_ok_iff.mp defined
  obtain ⟨trusted, leaves, builder⟩ := keepsOff
  have handsOver : Accessor.HandsOver pass.objects accessors workspace.table after.table :=
    defines.handsOver leaves builder
  have recorded := defines.recording []
  refine ⟨trace, pass.objects, _, parts.relates handsOver.count.symm, parts.picksCells, handsOver,
    expand_eq_ok_iff.mpr ⟨output, pass, ran, Accessor.defineAll_nil_eq_ok_iff.mpr recorded, rfl⟩,
    fun accessor member => Accessor.existsUnique_takes handsOver.count handsOver.distinct member,
    ?_, output, pass, ran, forall₂_placedAs ?_⟩
  · intro accessor member
    obtain ⟨number, bound, rfl⟩ := List.getElem_of_mem member
    exact mem_placeCalls (List.getElem?_eq_getElem bound)
      (parts.number_mem (handsOver.count ▸ bound))
  · rw [handsOver.count]
    exact parts.number_lt

end Expander

namespace HandOverSample

open NestedSample BalanceSample

def secondPayload : CapturedObject := ⟨valueType, 2⟩

def twoCells : Expander :=
  capturing [(captured 1, .object payload), (captured 2, .object secondPayload)]

/-- The builder takes the object under the first key while it defines its
second method. -/
def taking : Workspace Draft :=
  Workspace.start (Draft.start "Dynamic" [] ⟨none, none, none⟩ (some (1, 1))) CaptureTable.empty

def losesPayload : Except Error (Body × List Accessor) × Workspace Draft → Bool
  | (.ok (_, [first, second]), after) =>
      first.key == 1 && second.key == 2 && after.table.entries == [(2, secondPayload)]
  | _ => false

end HandOverSample

open NestedSample SharingSample HandOverSample in
theorem expand_hands_over_each_object_of_two_cells :
    ∃ expanded accessors after,
      run (twoCells.expand droppingBoth) workspace = (.ok (expanded, accessors), after) ∧
      ∃ objects : List CapturedObject,
        Accessor.HandsOver objects accessors CaptureTable.empty after.table := by
  have isOk : (run (twoCells.expand droppingBoth) workspace).1.toOption.isSome = true := by
    decide +kernel
  obtain ⟨⟨expanded, accessors⟩, found⟩ := Option.isSome_iff_exists.mp isOk
  have done := run_eq_ok_of_toOption found
  obtain ⟨_, objects, _, _, _, handsOver, _⟩ :=
    Expander.expand_hands_over_each_object ⟨_, Draft.leavesTable, rfl⟩ done
  exact ⟨expanded, accessors, _, done, objects, handsOver⟩

open SharingSample HandOverSample in
theorem expand_loses_taken_object :
    twoCells.captures.Gives (NestedSample.read 1).site (.object NestedSample.payload) ∧
    twoCells.captures.Gives (NestedSample.read 2).site (.object secondPayload) ∧
    NestedSample.payload.cell ≠ secondPayload.cell ∧
    ∃ expanded first second after,
      run (twoCells.expand droppingBoth) taking = (.ok (expanded, [first, second]), after) ∧
      first.key = 1 ∧ second.key = 2 ∧ taking.table.entries = [] ∧
      after.table.entries = [(second.key, secondPayload)] := by
  refine ⟨⟨_, 0, rfl, by decide +kernel⟩, ⟨_, 0, rfl, by decide +kernel⟩, by decide, ?_⟩
  have loses : losesPayload (run (twoCells.expand droppingBoth) taking) = true := by
    decide +kernel
  generalize run (twoCells.expand droppingBoth) taking = outcome at loses
  unfold losesPayload at loses
  split at loses
  · rename_i expanded first second after
    simp only [Bool.and_eq_true, beq_iff_eq] at loses
    exact ⟨expanded, first, second, after, rfl, loses.1.1, loses.1.2, rfl,
      loses.1.2 ▸ loses.2⟩
  · cases loses

end CilTemplate
