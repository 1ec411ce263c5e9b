import CilTemplate.Proofs.Emission.Layout

/-
The fixed point of narrowing.  A narrowed piece only shortens the distances
across it, so what could be narrowed before still can, and the layouts between
a layout and its fixed point have the same fixed point.
-/

namespace CilTemplate

namespace Piece

def isBranch : Piece → Bool
  | branch _ _ => true
  | _ => false

theorem Narrows.size_le {piece narrow : Piece} (narrows : Narrows piece narrow) :
    narrow.size ≤ piece.size := by
  cases narrows with
  | same => exact Nat.le_refl _
  | @branch opcode short target _ =>
      simp only [size, Opcode.size]
      split <;> split <;> omega

theorem Narrows.antisymm {left right : Piece} (forth : Narrows left right)
    (back : Narrows right left) : left = right := by
  cases forth with
  | same => rfl
  | branch => cases back

end Piece

namespace Layout

open Piece (startOf)

/-- The layout with the narrow forms of the pieces that have one. -/
def taking (layout : Layout) (narrowings : List (Option Piece)) : Layout :=
  { layout with
    pieces := (layout.pieces.zip narrowings).map fun (piece, narrowing) => narrowing.getD piece }

/-- No branch of the layout can be narrowed. -/
def Settled (layout : Layout) : Prop :=
  ∃ narrowings, layout.narrowings = .ok narrowings ∧ narrowings.all Option.isNone = true

variable {layout after fixed : Layout} {narrowings : List (Option Piece)} {rounds : Nat}

theorem NarrowsTo.antisymm (forth : NarrowsTo layout after) (back : NarrowsTo after layout) :
    layout = after := by
  have pieces : layout.pieces = after.pieces := by
    apply List.ext_getElem forth.length.symm
    intro index bound afterBound
    have here := List.getElem?_eq_getElem bound
    have there := List.getElem?_eq_getElem afterBound
    exact (forth.each here there).antisymm (back.each there here)
  rcases layout with ⟨pieces, marks⟩
  rcases after with ⟨afterPieces, afterMarks⟩
  rw [Layout.mk.injEq]
  exact ⟨pieces, back.marks⟩

section Distances

theorem startOf_add_le (narrows : NarrowsTo layout after) {left right : Nat} (order : left ≤ right)
    (bound : right ≤ layout.pieces.length) :
    startOf after.pieces right + startOf layout.pieces left ≤
      startOf after.pieces left + startOf layout.pieces right := by
  induction order with
  | refl => omega
  | @step right _ inductionHypothesis =>
      have earlier := inductionHypothesis (Nat.le_of_succ_le bound)
      have here := List.getElem?_eq_getElem (Nat.lt_of_succ_le bound)
      have afterBound : right < after.pieces.length := by
        rw [narrows.length]
        exact Nat.lt_of_succ_le bound
      have there := List.getElem?_eq_getElem afterBound
      have smaller := (narrows.each here there).size_le
      rw [Piece.startOf_succ here, Piece.startOf_succ there]
      omega

theorem Reaches.narrows (narrows : NarrowsTo layout after) {index label place : Nat}
    {distance : Int} {width : Nat} (small : width ≤ 0x80000000)
    (bound : index ≤ layout.pieces.length)
    (reaches : layout.Reaches (startOf layout.pieces index + width) label place distance) :
    ∃ nearer, after.Reaches (startOf after.pieces index + width) label place nearer ∧
      (distance ≤ nearer ∧ nearer ≤ -width ∨ -width ≤ nearer ∧ nearer ≤ distance) := by
  have far := reaches.distance_eq
  have low := reaches.low
  have high := reaches.high
  have marked : after.marks[label]? = some (some place) := by
    rw [narrows.marks]
    exact reaches.marked
  have placeBound : place ≤ after.pieces.length := by
    rw [narrows.length]
    exact reaches.bound
  rcases Nat.le_total place index with back | forth
  · have shrinks := startOf_add_le narrows back bound
    have order := @startOf_le after.pieces _ _ back
    exact ⟨_, ⟨marked, placeBound, rfl, by omega, by omega⟩, by omega⟩
  · have shrinks := startOf_add_le narrows forth reaches.bound
    have order := @startOf_le after.pieces _ _ forth
    exact ⟨_, ⟨marked, placeBound, rfl, by omega, by omega⟩, by omega⟩

theorem labelAddress_of_reaches {next label place : Nat} {distance : Int}
    (reaches : layout.Reaches next label place distance) :
    layout.labelAddress layout.addresses label = .ok (startOf layout.pieces place) ∧
      offset (startOf layout.pieces place) next = .ok distance := by
  have address := getElem?_addresses.mpr ⟨reaches.bound, rfl⟩
  have far := reaches.distance_eq
  have low := reaches.low
  have high := reaches.high
  constructor
  · simp only [labelAddress, reaches.marked, Option.join_some, Option.bind_some, address]
  · simp only [offset, ← far]
    exact if_pos ⟨low, high⟩

end Distances

section Rounds

/-- What a round finds for a piece at an address. -/
inductive Finds (layout : Layout) (address : Nat) : Piece → Option Piece → Prop
  | keeps {piece : Piece} (other : ∀ opcode target short, piece = .branch opcode target →
      opcode.narrowed? ≠ some short) : Finds layout address piece none
  | branch {opcode short : Opcode} {target place : Nat} {distance : Int}
      (narrow : opcode.narrowed? = some short)
      (reaches : layout.Reaches (address + 2) target place distance) :
      Finds layout address (.branch opcode target)
        (if fitsByte distance then some (.narrowBranch short target) else none)

theorem narrowPiece?_eq_ok {address : Nat} {piece : Piece} {narrowing : Option Piece} :
    layout.narrowPiece? layout.addresses address piece = .ok narrowing ↔
      Finds layout address piece narrowing := by
  constructor
  · intro done
    unfold narrowPiece? at done
    split at done
    · split at done
      · rename_i opcode target none
        rw [← Except.ok.inj done]
        refine .keeps ?_
        rintro _ _ short same narrow
        obtain ⟨rfl, rfl⟩ := Piece.branch.inj same
        rw [none] at narrow
        cases narrow
      · rename_i opcode target short narrow
        obtain ⟨targetAddress, found, rest⟩ := bind_eq_ok.mp done
        obtain ⟨distance, far, chosen⟩ := bind_eq_ok.mp rest
        obtain ⟨place, reaches⟩ := reaches_of_offset found far
        rw [← Except.ok.inj chosen]
        exact .branch narrow reaches
    · rename_i other
      rw [← Except.ok.inj done]
      refine .keeps ?_
      intro opcode target _ same
      exact absurd same (other opcode target)
  · intro finds
    cases finds with
    | keeps other =>
        unfold narrowPiece?
        split
        · rename_i opcode target
          cases narrow : opcode.narrowed? with
          | none => rfl
          | some short => exact absurd narrow (other opcode target short rfl)
        · rfl
    | branch narrow reaches =>
        rcases labelAddress_of_reaches reaches with ⟨found, far⟩
        simp only [narrowPiece?, narrow, found, far, bind, Except.bind]
        rfl

theorem narrowings_eq_ok :
    layout.narrowings = .ok narrowings ↔ narrowings.length = layout.pieces.length ∧
      ∀ {index : Nat} {piece : Piece} {narrowing : Option Piece},
        layout.pieces[index]? = some piece → narrowings[index]? = some narrowing →
          Finds layout (startOf layout.pieces index) piece narrowing := by
  constructor
  · intro done
    obtain ⟨length, each⟩ := mapM_addresses rfl done
    refine ⟨length, ?_⟩
    intro index piece narrowing here there
    obtain ⟨result, known, computed⟩ := each index piece here
    rw [← Option.some.inj (known.symm.trans there)]
    exact narrowPiece?_eq_ok.mp computed
  · rintro ⟨length, each⟩
    have count : layout.addresses.toList.length = layout.pieces.length + 1 := by
      rw [toList_addresses, List.length_map, List.length_range]
    apply mapM_of_each
    · rw [length, List.length_zip]
      omega
    · rintro index ⟨address, piece⟩ narrowing here there
      obtain ⟨known, found⟩ := List.getElem?_zip_eq_some.mp here
      rw [Array.getElem?_toList] at known
      obtain ⟨_, rfl⟩ := getElem?_addresses.mp known
      exact narrowPiece?_eq_ok.mpr (each found there)

theorem Finds.isBranch {address : Nat} {piece narrow : Piece} {narrowing : Option Piece}
    (finds : Finds layout address piece narrowing) (found : narrowing = some narrow) :
    piece.isBranch = true ∧ narrow.isBranch = false := by
  cases finds with
  | keeps => cases found
  | branch =>
      split at found
      · rw [← Option.some.inj found]
        exact ⟨rfl, rfl⟩
      · cases found

/-- What is found for a piece is found in a narrower layout too, unless it is
taken there already. -/
theorem Finds.narrows (narrows : NarrowsTo layout after) {index : Nat} {piece narrow : Piece}
    {narrowing : Option Piece} (here : layout.pieces[index]? = some piece)
    (there : after.pieces[index]? = some narrow)
    (finds : Finds layout (startOf layout.pieces index) piece narrowing) :
    ∃ later, Finds after (startOf after.pieces index) narrow later ∧
      Piece.Narrows (narrowing.getD piece) (later.getD narrow) := by
  obtain ⟨bound, _⟩ := List.getElem?_eq_some_iff.mp here
  cases narrows.each here there with
  | same =>
      cases finds with
      | keeps other => exact ⟨none, .keeps other, .same _⟩
      | @branch opcode short target place distance isNarrow reaches =>
          obtain ⟨nearer, nearerReaches, between⟩ :=
            reaches.narrows narrows (by decide : 2 ≤ 0x80000000) (Nat.le_of_lt bound)
          refine ⟨_, .branch isNarrow nearerReaches, ?_⟩
          by_cases fits : fitsByte distance = true
          · have stillFits : fitsByte nearer = true := by
              have range := of_decide_eq_true fits
              exact decide_eq_true (by omega)
            rw [if_pos fits, if_pos stillFits]
            exact .same _
          · rw [if_neg fits]
            split
            · exact .branch isNarrow
            · exact .same _
  | @branch opcode short target isNarrow =>
      refine ⟨none, .keeps (fun _ _ _ same => by cases same), ?_⟩
      cases finds with
      | keeps other => exact .branch isNarrow
      | branch otherNarrow reaches =>
          rw [otherNarrow] at isNarrow
          rw [Option.some.inj isNarrow]
          split
          · exact .same _
          · exact .branch (otherNarrow.trans isNarrow)

/-- Nothing that could be computed becomes impossible by narrowing. -/
theorem narrowings_isOk_of_narrowsTo (narrows : NarrowsTo layout after)
    (done : layout.narrowings = .ok narrowings) :
    ∃ later, after.narrowings = .ok later := by
  obtain ⟨length, each⟩ := narrowings_eq_ok.mp done
  apply mapM_isOk
  rintro ⟨address, narrow⟩ member
  obtain ⟨index, bound, same⟩ := List.getElem_of_mem member
  have pair := List.getElem?_eq_some_iff.mpr ⟨bound, same⟩
  obtain ⟨known, there⟩ := List.getElem?_zip_eq_some.mp pair
  rw [Array.getElem?_toList] at known
  obtain ⟨_, rfl⟩ := getElem?_addresses.mp known
  obtain ⟨narrowBound, _⟩ := List.getElem?_eq_some_iff.mp there
  rw [narrows.length] at narrowBound
  have here := List.getElem?_eq_getElem narrowBound
  have found := List.getElem?_eq_getElem (length ▸ narrowBound)
  obtain ⟨later, finds, _⟩ := (each here found).narrows narrows here there
  exact ⟨later, narrowPiece?_eq_ok.mpr finds⟩

theorem getElem?_taking {index : Nat} {piece : Piece} {narrowing : Option Piece}
    (here : layout.pieces[index]? = some piece) (there : narrowings[index]? = some narrowing) :
    (layout.taking narrowings).pieces[index]? = some (narrowing.getD piece) := by
  have pair : (layout.pieces.zip narrowings)[index]? = some (piece, narrowing) :=
    List.getElem?_zip_eq_some.mpr ⟨here, there⟩
  simp only [taking, List.getElem?_map, pair, Option.map_some]

theorem length_taking (length : narrowings.length = layout.pieces.length) :
    (layout.taking narrowings).pieces.length = layout.pieces.length := by
  rw [taking, List.length_map, List.length_zip, length, Nat.min_self]

theorem narrowsTo_taking (done : layout.narrowings = .ok narrowings) :
    NarrowsTo layout (layout.taking narrowings) := by
  obtain ⟨length, each⟩ := narrowings_eq_ok.mp done
  refine ⟨rfl, length_taking length, ?_⟩
  intro index piece narrow here there
  obtain ⟨bound, _⟩ := List.getElem?_eq_some_iff.mp here
  have found := List.getElem?_eq_getElem (length ▸ bound)
  rw [getElem?_taking here found] at there
  rw [← Option.some.inj there]
  exact narrows_of_narrowPiece? (narrowPiece?_eq_ok.mpr (each here found))

/-- A round stays below every layout that is already settled. -/
theorem taking_narrowsTo (narrows : NarrowsTo layout fixed) (settled : Settled fixed)
    (done : layout.narrowings = .ok narrowings) :
    NarrowsTo (layout.taking narrowings) fixed := by
  rcases settled with ⟨nothing, fixedDone, allNone⟩
  obtain ⟨length, each⟩ := narrowings_eq_ok.mp done
  obtain ⟨fixedLength, fixedEach⟩ := narrowings_eq_ok.mp fixedDone
  refine ⟨narrows.marks, narrows.length.trans (length_taking length).symm, ?_⟩
  intro index taken final here there
  obtain ⟨bound, _⟩ := List.getElem?_eq_some_iff.mp here
  obtain ⟨finalBound, _⟩ := List.getElem?_eq_some_iff.mp there
  rw [length_taking length] at bound
  have before := List.getElem?_eq_getElem bound
  have found := List.getElem?_eq_getElem (length ▸ bound)
  have none := List.getElem?_eq_getElem (fixedLength ▸ finalBound)
  rw [getElem?_taking before found] at here
  rw [← Option.some.inj here]
  obtain ⟨later, finds, below⟩ := (each before found).narrows narrows before there
  have same := Except.ok.inj ((narrowPiece?_eq_ok.mpr finds).symm.trans
    (narrowPiece?_eq_ok.mpr (fixedEach there none)))
  have isNone := List.all_eq_true.mp allNone _ (List.mem_of_getElem? none)
  rw [same, Option.isNone_iff_eq_none.mp isNone] at below
  exact below

end Rounds

section Narrow

theorem narrow_succ (done : layout.narrowings = .ok narrowings) :
    layout.narrow (rounds + 1) =
      if narrowings.all Option.isNone then .ok layout
      else (layout.taking narrowings).narrow rounds := by
  simp only [narrow, done, bind, Except.bind]
  rfl

/-- By induction on the rounds, each of which stays below. -/
theorem narrow_narrowsTo (narrows : NarrowsTo layout fixed) (settled : Settled fixed)
    (done : layout.narrow rounds = .ok after) : NarrowsTo after fixed := by
  induction rounds generalizing layout with
  | zero =>
      rw [← Except.ok.inj done]
      exact narrows
  | succ rounds inductionHypothesis =>
      obtain ⟨narrowings, found, _⟩ := bind_eq_ok.mp done
      rw [narrow_succ found] at done
      split at done
      · rw [← Except.ok.inj done]
        exact narrows
      · exact inductionHypothesis (taking_narrowsTo narrows settled found) done

theorem narrow_isOk (done : layout.narrowings = .ok narrowings) :
    ∃ after, layout.narrow rounds = .ok after := by
  induction rounds generalizing layout narrowings with
  | zero => exact ⟨layout, rfl⟩
  | succ rounds inductionHypothesis =>
      rw [narrow_succ done]
      split
      · exact ⟨layout, rfl⟩
      · obtain ⟨later, next⟩ := narrowings_isOk_of_narrowsTo (narrowsTo_taking done) done
        exact inductionHypothesis next

def branches (layout : Layout) : Nat :=
  layout.pieces.countP Piece.isBranch

theorem countP_zip {pieces : List Piece} {narrowings : List (Option Piece)}
    (length : narrowings.length = pieces.length)
    (each : ∀ pair ∈ pieces.zip narrowings, ∀ narrow, pair.2 = some narrow →
      pair.1.isBranch = true ∧ narrow.isBranch = false) :
    ((pieces.zip narrowings).map fun pair => pair.2.getD pair.1).countP
        Piece.isBranch + narrowings.countP Option.isSome = pieces.countP Piece.isBranch := by
  induction pieces generalizing narrowings with
  | nil =>
      rw [List.length_eq_zero_iff.mp length]
      rfl
  | cons piece rest inductionHypothesis =>
      cases narrowings with
      | nil => cases length
      | cons narrowing others =>
          obtain ⟨first, later⟩ := List.forall_mem_cons.mp each
          have counted := inductionHypothesis (Nat.succ.inj length) later
          cases narrowing with
          | none =>
              simp only [List.zip_cons_cons, List.map_cons, List.countP_cons, Option.getD_none,
                Option.isSome_none, Bool.false_eq_true, if_false]
              omega
          | some narrow =>
              rcases first narrow rfl with ⟨isBranch, isNarrow⟩
              simp only [List.zip_cons_cons, List.map_cons, List.countP_cons, Option.getD_some,
                Option.isSome_some, isBranch, isNarrow, Bool.false_eq_true, if_false, if_true]
              omega

/-- A round that is not the last narrows a branch. -/
theorem branches_taking_lt (done : layout.narrowings = .ok narrowings)
    (more : ¬ narrowings.all Option.isNone = true) :
    (layout.taking narrowings).branches < layout.branches := by
  obtain ⟨length, each⟩ := narrowings_eq_ok.mp done
  have counted : (layout.taking narrowings).branches + narrowings.countP Option.isSome =
      layout.branches := by
    apply countP_zip length
    rintro ⟨piece, narrowing⟩ member narrow rfl
    obtain ⟨index, bound, same⟩ := List.getElem_of_mem member
    have pair := List.getElem?_eq_some_iff.mpr ⟨bound, same⟩
    obtain ⟨here, there⟩ := List.getElem?_zip_eq_some.mp pair
    exact (each here there).isBranch rfl
  have positive : 0 < narrowings.countP Option.isSome := by
    rw [List.countP_pos_iff]
    simpa [List.all_eq_true, Option.isSome_iff_ne_none] using more
  omega

theorem settled_of_narrow (enough : layout.branches < rounds)
    (done : layout.narrow rounds = .ok after) : Settled after := by
  induction rounds generalizing layout with
  | zero => omega
  | succ rounds inductionHypothesis =>
      obtain ⟨narrowings, found, _⟩ := bind_eq_ok.mp done
      rw [narrow_succ found] at done
      split at done
      · rename_i allNone
        rw [← Except.ok.inj done]
        exact ⟨narrowings, found, allNone⟩
      · rename_i more
        have fewer := branches_taking_lt found more
        exact inductionHypothesis (by omega) done

theorem settled_of_narrowed (done : layout.narrowed = .ok after) : Settled after :=
  settled_of_narrow (Nat.lt_succ_of_le List.countP_le_length) done

/-- The layouts between a layout and its fixed point are narrowed to the same
fixed point, since the one that they are narrowed to is above and below it. -/
theorem narrowed_of_between {start middle : Layout} (done : start.narrowed = .ok fixed)
    (above : NarrowsTo start middle) (below : NarrowsTo middle fixed) :
    middle.narrowed = .ok fixed := by
  obtain ⟨narrowings, found, _⟩ := bind_eq_ok.mp done
  obtain ⟨later, next⟩ := narrowings_isOk_of_narrowsTo above found
  obtain ⟨reached, reaches⟩ := @narrow_isOk middle later (middle.pieces.length + 1) next
  have same : fixed = reached := by
    apply NarrowsTo.antisymm
    · exact narrow_narrowsTo (above.trans (narrowsTo_of_narrow reaches))
        (settled_of_narrowed reaches) done
    · exact narrow_narrowsTo below (settled_of_narrowed done) reaches
  rw [same]
  exact reaches

end Narrow

end Layout
end CilTemplate
