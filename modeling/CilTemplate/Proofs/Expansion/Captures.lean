import CilTemplate.Expansion.Expander
import CilTemplate.Proofs.Entries

/-
What a pass knows after part of the code: which members it has read, which
objects it has collected and which copies it has made.  All three follow from
the captures that the code uses, in the order of the code.
-/

namespace CilTemplate

open CilTemplate.Action

/-- The captures that some code uses: the members that it names, the objects
that it loads and the types of the copies that it takes the address of. -/
structure CaptureUses where
  sites : List CaptureSite
  objects : List CapturedObject
  copies : List CilType

namespace CaptureUses

def none : CaptureUses := ⟨[], [], []⟩

def append (left right : CaptureUses) : CaptureUses :=
  ⟨left.sites ++ right.sites, left.objects ++ right.objects, left.copies ++ right.copies⟩

instance : Append CaptureUses := ⟨append⟩

@[simp] theorem sites_append (left right : CaptureUses) :
    (left ++ right).sites = left.sites ++ right.sites :=
  rfl

@[simp] theorem objects_append (left right : CaptureUses) :
    (left ++ right).objects = left.objects ++ right.objects :=
  rfl

@[simp] theorem copies_append (left right : CaptureUses) :
    (left ++ right).copies = left.copies ++ right.copies :=
  rfl

@[simp] theorem append_assoc (first second third : CaptureUses) :
    first ++ second ++ third = first ++ (second ++ third) := by
  change append (append first second) third = append first (append second third)
  simp only [append, List.append_assoc]

@[simp] theorem append_none (uses : CaptureUses) : uses ++ none = uses := by
  change append uses none = uses
  simp only [append, none, List.append_nil]

def addObject (known : List CapturedObject) (object : CapturedObject) : List CapturedObject :=
  if known.any object.sameCell then known else known ++ [object]

/-- The objects that get an accessor, one for each cell. -/
def cells (uses : CaptureUses) : List CapturedObject :=
  uses.objects.foldl addObject []

theorem cells_prefix (objects known : List CapturedObject) :
    known <+: objects.foldl addObject known := by
  induction objects generalizing known with
  | nil => exact List.prefix_refl known
  | cons object rest inductionHypothesis =>
      apply List.IsPrefix.trans _ (inductionHypothesis (addObject known object))
      unfold addObject
      split
      · exact List.prefix_refl known
      · exact List.prefix_append known [object]

theorem cells_append (left right : CaptureUses) : left.cells <+: (left ++ right).cells := by
  rw [cells, cells, objects_append, List.foldl_append]
  exact cells_prefix right.objects left.cells

theorem sites_prefix (left right : CaptureUses) :
    left.sites.eraseDups <+: (left ++ right).sites.eraseDups := by
  rw [sites_append, List.eraseDups_append]
  exact List.prefix_append _ _

def numberOf (uses : CaptureUses) (object : CapturedObject) : Nat :=
  uses.cells.findIdx object.sameCell

theorem any_of_known {object : CapturedObject} (objects known : List CapturedObject)
    (here : object ∈ objects ∨ known.any object.sameCell = true) :
    (objects.foldl addObject known).any object.sameCell = true := by
  induction objects generalizing known with
  | nil =>
      rcases here with absent | here
      · cases absent
      · exact here
  | cons next rest inductionHypothesis =>
      apply inductionHypothesis
      unfold addObject
      rcases here with member | here
      · rcases List.mem_cons.mp member with rfl | later
        · right
          split
          · assumption
          · simp [CapturedObject.sameCell]
        · exact Or.inl later
      · right
        split
        · exact here
        · simp [here]

theorem numberOf_lt {uses : CaptureUses} {object : CapturedObject}
    (known : object ∈ uses.objects) : uses.numberOf object < uses.cells.length := by
  have found := List.any_eq_true.mp (any_of_known uses.objects [] (Or.inl known))
  exact List.findIdx_lt_length.mpr found

theorem numberOf_append {left : CaptureUses} {object : CapturedObject}
    (known : object ∈ left.objects) (right : CaptureUses) :
    (left ++ right).numberOf object = left.numberOf object := by
  have below : left.cells.findIdx object.sameCell < left.cells.length := numberOf_lt known
  obtain ⟨more, same⟩ := cells_append left right
  rw [numberOf, ← same, List.findIdx_append, if_pos below]
  rfl

end CaptureUses

/-- The closures answer the first reads of the members with their values. -/
def CaptureContext.Answers (captures : CaptureContext) (earlier : Nat)
    (value : CaptureSite → CapturedValue) (sites : List CaptureSite) : Prop :=
  ∀ index site, sites.eraseDups[index]? = some site →
    ∃ closure, captures.closure? site.closure = some closure ∧
      closure.answer (earlier + index) site.member = .ok (value site)

namespace Pass

def temporary (firstSlot number : Nat) (type : CilType) : Local :=
  { identity := .index (firstSlot + number)
    name := some ("Temp_" ++ toString number)
    declaration := ⟨type, false⟩ }

def temporariesFor (firstSlot : Nat) (copies : List CilType) : List Local :=
  copies.zipIdx.map fun (type, number) => temporary firstSlot number type

/-- The pass has handled code with these uses of captures. -/
structure Handled (start : Pass) (value : CaptureSite → CapturedValue) (uses : CaptureUses)
    (pass : Pass) : Prop where
  memo : pass.memo = (uses.sites.eraseDups.map fun site => (site, value site)).reverse
  reads : pass.reads = start.reads ++ uses.sites.eraseDups.toArray
  firstSlot : pass.firstSlot = start.firstSlot
  temporaries : pass.temporaries.toList = temporariesFor start.firstSlot uses.copies
  objects : pass.objects = uses.cells

theorem Handled.start (start : Pass) (value : CaptureSite → CapturedValue)
    (memo : start.memo = []) (temporaries : start.temporaries = #[])
    (objects : start.objects = []) : Handled start value .none start where
  memo := memo
  reads := by simp [CaptureUses.none]
  firstSlot := rfl
  temporaries := by rw [temporaries]; rfl
  objects := objects

variable {captures : CaptureContext} {value : CaptureSite → CapturedValue} {start pass : Pass}
  {uses : CaptureUses}

theorem run_readCapture {site : CaptureSite} (handled : Handled start value uses pass)
    (owned : captures.owns site = true)
    (answers : captures.Answers start.reads.size value (uses.sites ++ [site])) :
    ∃ after, run (readCapture captures site) pass = (.ok (value site), after) ∧
      Handled start value (uses ++ ⟨[site], [], []⟩) after := by
  by_cases known : site ∈ uses.sites
  · have remembered : pass.memo.lookup site = some (value site) := by
      rw [handled.memo, lookup_memo, if_pos (List.mem_eraseDups.mpr known)]
    have unchanged : (uses.sites ++ [site]).eraseDups = uses.sites.eraseDups := by
      rw [eraseDups_concat, if_pos known]
    refine ⟨pass, ?_, ?_⟩
    · simp only [readCapture, run_bind, run_get, remembered, run_pure]
    · exact ⟨by rw [CaptureUses.sites_append, unchanged]; exact handled.memo,
        by rw [CaptureUses.sites_append, unchanged]; exact handled.reads,
        handled.firstSlot,
        by rw [CaptureUses.copies_append, List.append_nil]; exact handled.temporaries,
        by rw [CaptureUses.cells, CaptureUses.objects_append, List.append_nil]
           exact handled.objects⟩
  · have missing : pass.memo.lookup site = none := by
      rw [handled.memo, lookup_memo, if_neg (fun member => known (List.mem_eraseDups.mp member))]
    have added : (uses.sites ++ [site]).eraseDups = uses.sites.eraseDups ++ [site] := by
      rw [eraseDups_concat, if_neg known]
    have last : (uses.sites ++ [site]).eraseDups[uses.sites.eraseDups.length]? = some site := by
      rw [added, List.getElem?_append_right (Nat.le_refl _), Nat.sub_self]
      rfl
    rcases answers _ site last with ⟨closure, found, answer⟩
    have count : pass.reads.size = start.reads.size + uses.sites.eraseDups.length := by
      rw [handled.reads]
      simp
    rw [← count] at answer
    refine ⟨{ pass with
        reads := pass.reads.push site
        memo := (site, value site) :: pass.memo }, ?_, ?_⟩
    · simp [readCapture, run_bind, missing, CaptureContext.read, owned, found, answer, -bind_pure_comp]
    · refine ⟨?_, ?_, handled.firstSlot, ?_, ?_⟩
      · rw [CaptureUses.sites_append, added, handled.memo]
        simp
      · rw [CaptureUses.sites_append, added]
        change pass.reads.push site = _
        rw [handled.reads]
        simp
      · rw [CaptureUses.copies_append, List.append_nil]
        exact handled.temporaries
      · rw [CaptureUses.cells, CaptureUses.objects_append, List.append_nil]
        exact handled.objects

theorem run_newTemporary (handled : Handled start value uses pass) (type : CilType) :
    ∃ after, run (newTemporary type) pass =
        (.ok (temporary start.firstSlot uses.copies.length type), after) ∧
      Handled start value (uses ++ ⟨[], [], [type]⟩) after := by
  have count : pass.temporaries.size = uses.copies.length := by
    rw [← Array.length_toList, handled.temporaries, temporariesFor]
    simp
  refine ⟨{ pass with
      temporaries := pass.temporaries.push
        (temporary start.firstSlot uses.copies.length type) }, ?_, ?_⟩
  · simp [newTemporary, run_bind, count, handled.firstSlot, temporary, -bind_pure_comp]
  · refine ⟨?_, ?_, handled.firstSlot, ?_, ?_⟩
    · rw [CaptureUses.sites_append, List.append_nil]
      exact handled.memo
    · rw [CaptureUses.sites_append, List.append_nil]
      exact handled.reads
    · rw [Array.toList_push, handled.temporaries, CaptureUses.copies_append, temporariesFor,
        temporariesFor, List.zipIdx_append, List.map_append]
      simp
    · rw [CaptureUses.cells, CaptureUses.objects_append, List.append_nil]
      exact handled.objects

theorem run_objectNumber (handled : Handled start value uses pass) (object : CapturedObject) :
    ∃ after, run (objectNumber object) pass =
        (.ok ((uses ++ ⟨[], [object], []⟩).numberOf object), after) ∧
      Handled start value (uses ++ ⟨[], [object], []⟩) after := by
  have cells : (uses ++ ⟨[], [object], []⟩).cells = CaptureUses.addObject uses.cells object := by
    rw [CaptureUses.cells, CaptureUses.objects_append, List.foldl_append]
    rfl
  have same : ∀ objects, objects = (uses ++ ⟨[], [object], []⟩).cells →
      Handled start value (uses ++ ⟨[], [object], []⟩) { pass with objects := objects } := by
    intro objects added
    refine ⟨?_, ?_, handled.firstSlot, ?_, added⟩
    · rw [CaptureUses.sites_append, List.append_nil]
      exact handled.memo
    · rw [CaptureUses.sites_append, List.append_nil]
      exact handled.reads
    · rw [CaptureUses.copies_append, List.append_nil]
      exact handled.temporaries
  cases found : pass.objects.findIdx? object.sameCell with
  | some number =>
      have present : uses.cells.any object.sameCell = true := by
        rw [← handled.objects]
        obtain ⟨below, here, -⟩ := List.findIdx?_eq_some_iff_getElem.mp found
        exact List.any_eq_true.mpr ⟨_, List.getElem_mem below, here⟩
      have unchanged : (uses ++ ⟨[], [object], []⟩).cells = pass.objects := by
        rw [cells, CaptureUses.addObject, if_pos present, handled.objects]
      refine ⟨pass, ?_, same pass.objects unchanged.symm⟩
      simp only [objectNumber, run_bind, run_get, found, run_pure, CaptureUses.numberOf, unchanged,
        (List.findIdx?_eq_some_iff_findIdx_eq.mp found).2]
  | none =>
      have absent : uses.cells.any object.sameCell = false := by
        rw [← handled.objects]
        simpa using List.findIdx?_eq_none_iff.mp found
      have extended : (uses ++ ⟨[], [object], []⟩).cells = pass.objects ++ [object] := by
        rw [cells, CaptureUses.addObject, if_neg (by simp [absent]), handled.objects]
      refine ⟨_, ?_, same (pass.objects ++ [object]) extended.symm⟩
      have behind : pass.objects.findIdx object.sameCell = pass.objects.length :=
        List.findIdx_eq_length_of_false (by simpa using List.findIdx?_eq_none_iff.mp found)
      simp only [objectNumber, run_bind, run_get, found, run_set, run_pure, CaptureUses.numberOf,
        extended, List.findIdx_append, behind]
      simp [CapturedObject.sameCell]

end Pass
end CilTemplate
