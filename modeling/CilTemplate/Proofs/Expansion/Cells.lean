import CilTemplate.Proofs.Expansion.Remainder

/-
Which accessor a captured object is loaded through.  Objects are collected one
for each cell, the first that the code loads, and the number of an object is
that of its cell.
-/

namespace CilTemplate

open CilTemplate.Action

theorem CapturedObject.sameCell_iff {left right : CapturedObject} :
    left.sameCell right = true ↔ left.cell = right.cell :=
  beq_iff_eq

def CellsApart (objects : List CapturedObject) : Prop :=
  objects.Pairwise fun left right => left.cell ≠ right.cell

namespace CaptureUses

theorem addObject_apart {known : List CapturedObject} (apart : CellsApart known)
    (object : CapturedObject) : CellsApart (addObject known object) := by
  unfold addObject
  split
  · exact apart
  · rename_i absent
    refine List.pairwise_append.mpr ⟨apart, List.pairwise_singleton _ _, ?_⟩
    intro other member last isLast
    rw [List.mem_singleton.mp isLast]
    intro same
    exact absent (List.any_eq_true.mpr ⟨other, member, CapturedObject.sameCell_iff.mpr same.symm⟩)

theorem foldl_addObject_apart (objects : List CapturedObject) {known : List CapturedObject}
    (apart : CellsApart known) : CellsApart (objects.foldl addObject known) := by
  induction objects generalizing known with
  | nil => exact apart
  | cons object rest inductionHypothesis => exact inductionHypothesis (addObject_apart apart object)

theorem find?_foldl_addObject (objects known : List CapturedObject) (object : CapturedObject) :
    (objects.foldl addObject known).find? object.sameCell =
      (known ++ objects).find? object.sameCell := by
  induction objects generalizing known with
  | nil => rw [List.foldl_nil, List.append_nil]
  | cons next rest inductionHypothesis =>
      rw [List.foldl_cons, inductionHypothesis, addObject]
      split
      · rename_i present
        obtain ⟨other, member, same⟩ := List.any_eq_true.mp present
        simp only [List.find?_append, List.find?_cons]
        split
        · rename_i here
          have inCell : object.sameCell other = true := by
            rw [CapturedObject.sameCell_iff] at here same ⊢
            exact here.trans same
          obtain ⟨first, isFirst⟩ := Option.isSome_iff_exists.mp
            (List.find?_isSome.mpr ⟨other, member, inCell⟩)
          rw [isFirst, Option.some_or, Option.some_or]
        · rfl
      · rw [List.append_assoc, List.singleton_append]

theorem mem_of_mem_foldl_addObject {objects known : List CapturedObject} {object : CapturedObject}
    (member : object ∈ objects.foldl addObject known) : object ∈ known ++ objects := by
  induction objects generalizing known with
  | nil => exact List.mem_append_left _ member
  | cons next rest inductionHypothesis =>
      have found := inductionHypothesis member
      unfold addObject at found
      split at found
      · rcases List.mem_append.mp found with old | later
        · exact List.mem_append_left _ old
        · exact List.mem_append_right _ (List.mem_cons_of_mem _ later)
      · rwa [List.append_assoc] at found

end CaptureUses

namespace CellsApart

variable {objects : List CapturedObject} (apart : CellsApart objects)

include apart

theorem number_eq {left right : Nat} {object other : CapturedObject}
    (first : objects[left]? = some object) (second : objects[right]? = some other)
    (same : object.cell = other.cell) : left = right := by
  obtain ⟨leftBound, rfl⟩ := List.getElem?_eq_some_iff.mp first
  obtain ⟨rightBound, rfl⟩ := List.getElem?_eq_some_iff.mp second
  rcases Nat.lt_trichotomy left right with below | equal | above
  · exact absurd same (List.pairwise_iff_getElem.mp apart _ _ _ _ below)
  · exact equal
  · exact absurd same.symm (List.pairwise_iff_getElem.mp apart _ _ _ _ above)

theorem find?_sameCell {known object : CapturedObject} (member : known ∈ objects)
    (same : object.sameCell known = true) : objects.find? object.sameCell = some known := by
  obtain ⟨found, isFound⟩ := Option.isSome_iff_exists.mp
    (List.find?_isSome.mpr ⟨known, member, same⟩)
  have inCell := List.find?_some isFound
  rw [CapturedObject.sameCell_iff] at same inCell
  obtain ⟨left, first⟩ := List.getElem?_of_mem (List.mem_of_find?_eq_some isFound)
  obtain ⟨right, second⟩ := List.getElem?_of_mem member
  obtain rfl := apart.number_eq first second (inCell.symm.trans same)
  rw [isFound, ← first, second]

end CellsApart

/-- A capture that is read, loaded and, for its address, copied. -/
structure LoadedCapture.Valid (expander : Expander) (objects : List CapturedObject)
    (capture : LoadedCapture) : Prop where
  answered : capture.read.Answered expander capture.value
  loads : Loads expander.captures objects capture.value capture.load
  copy : capture.copy.map Local.type = capture.read.copyType?

section

variable {expander : Expander} {objects : List CapturedObject}

mutual

theorem Trace.valid_loads (trace : Trace) (valid : trace.Valid expander objects) :
    ∀ capture ∈ trace.loads, capture.Valid expander objects := by
  cases trace with
  | done => exact List.forall_mem_nil _
  | shared item rest => exact rest.valid_loads valid.2
  | read read value load copy rest =>
      obtain ⟨answered, loads, isCopy, others⟩ := valid
      exact List.forall_mem_cons.mpr ⟨⟨answered, loads, isCopy⟩, rest.valid_loads others⟩
  | site site values rest =>
      exact List.forall_mem_append.mpr ⟨values.valid_loads valid.2.1, rest.valid_loads valid.2.2⟩

theorem TraceValues.valid_loads (values : TraceValues) (valid : values.Valid expander objects) :
    ∀ capture ∈ values.loads, capture.Valid expander objects := by
  cases values with
  | none => exact List.forall_mem_nil _
  | value code rest =>
      exact List.forall_mem_append.mpr ⟨code.valid_loads valid.1, rest.valid_loads valid.2⟩

end

end

theorem LoadedCapture.object?_eq_some {capture : LoadedCapture} {object : CapturedObject} :
    capture.object? = some object ↔ capture.value = .object object := by
  rw [object?]
  cases capture.value <;> simp [CapturedValue.object?]

theorem LoadedCapture.Valid.accessorCall {expander : Expander} {objects : List CapturedObject}
    {capture : LoadedCapture} {object : CapturedObject} (valid : capture.Valid expander objects)
    (isObject : capture.value = .object object) :
    ∃ number known, capture.load = .accessorCall number ∧ objects[number]? = some known ∧
      object.sameCell known = true := by
  have loads := valid.loads
  rw [isObject] at loads
  generalize capture.load = load at loads
  cases loads with
  | literal literal => cases literal
  | object found same given => exact ⟨_, _, rfl, found, same⟩

namespace Expander.ExpandedAs

variable {expander : Expander} {body expanded : Body} {accessors : List Accessor} {pass : Pass}
  {output : List ExpandedItem} {trace : Trace}
  (done : ExpandedAs expander body expanded accessors pass output trace)

include done

theorem valid : trace.Valid expander pass.objects :=
  done.traced.valid _ (List.prefix_refl _)

theorem items_eq : expanded.items =
    Part.flatten (trace.output expander.options.argumentOffset accessors) :=
  done.items.trans (done.traced.output accessors)

theorem apart : CellsApart pass.objects := by
  rw [done.objects]
  exact CaptureUses.foldl_addObject_apart _ List.Pairwise.nil

theorem find?_objects (object : CapturedObject) :
    pass.objects.find? object.sameCell = trace.objects.find? object.sameCell := by
  rw [done.objects, CaptureUses.find?_foldl_addObject, List.nil_append]

theorem accessorCall {capture : LoadedCapture} (member : capture ∈ trace.loads)
    {object : CapturedObject} (isObject : capture.value = .object object) :
    ∃ number first, capture.load = .accessorCall number ∧ pass.objects[number]? = some first ∧
      trace.objects.find? object.sameCell = some first := by
  obtain ⟨number, known, calls, found, same⟩ :=
    (trace.valid_loads done.valid capture member).accessorCall isObject
  refine ⟨number, known, calls, found, ?_⟩
  rw [← done.find?_objects]
  exact done.apart.find?_sameCell (List.mem_of_getElem? found) same

end Expander.ExpandedAs

end CilTemplate
