import CilTemplate.Sink.Layout
import Mathlib.Algebra.GroupWithZero.Nat

/-
The bytes of laid out code.  Each piece has its part of the code, which starts
where the parts in front of it end, and narrowing changes no piece except that
it takes narrow forms of branches.
-/

namespace CilTemplate

theorem mapM_eq_ok {Item Result : Type} {compute : Item → Except Error Result} {items : List Item}
    {results : List Result} (done : items.mapM compute = .ok results) :
    results.length = items.length ∧ ∀ (index : Nat) (item : Item), items[index]? = some item →
      ∃ result, results[index]? = some result ∧ compute item = .ok result := by
  induction items generalizing results with
  | nil =>
      simp only [List.mapM_nil, pure, Except.pure, Except.ok.injEq] at done
      subst done
      exact ⟨rfl, fun _ _ found => by cases found⟩
  | cons item rest inductionHypothesis =>
      rw [List.mapM_cons] at done
      obtain ⟨result, first, others⟩ := bind_eq_ok.mp done
      obtain ⟨restResults, later, together⟩ := bind_eq_ok.mp others
      rw [← Except.ok.inj together]
      rcases inductionHypothesis later with ⟨length, each⟩
      refine ⟨congrArg (· + 1) length, ?_⟩
      intro index found known
      cases index with
      | zero =>
          rw [← Option.some.inj known]
          exact ⟨result, rfl, first⟩
      | succ index => exact each index found known

theorem mapM_of_each {Item Result : Type} {compute : Item → Except Error Result} {items : List Item}
    {results : List Result} (length : results.length = items.length)
    (each : ∀ {index : Nat} {item : Item} {result : Result}, items[index]? = some item →
      results[index]? = some result → compute item = .ok result) :
    items.mapM compute = .ok results := by
  induction items generalizing results with
  | nil =>
      rw [List.length_eq_zero_iff.mp length]
      rfl
  | cons item rest inductionHypothesis =>
      cases results with
      | nil => cases length
      | cons result restResults =>
          have first : compute item = .ok result := @each 0 _ _ rfl rfl
          have others := inductionHypothesis (Nat.succ.inj length)
            fun {index} _ _ here there => @each (index + 1) _ _ here there
          simp only [List.mapM_cons, first, others, bind, Except.bind, pure, Except.pure]

theorem mapM_isOk {Item Result : Type} {compute : Item → Except Error Result} {items : List Item}
    (each : ∀ item ∈ items, ∃ result, compute item = .ok result) :
    ∃ results, items.mapM compute = .ok results := by
  induction items with
  | nil => exact ⟨[], rfl⟩
  | cons item rest inductionHypothesis =>
      obtain ⟨⟨result, first⟩, others⟩ := List.forall_mem_cons.mp each
      rcases inductionHypothesis others with ⟨results, later⟩
      exact ⟨result :: results, by
        simp only [List.mapM_cons, first, later, bind, Except.bind, pure, Except.pure]⟩

namespace Piece

/-- The same piece, or the narrow form of a branch. -/
inductive Narrows : Piece → Piece → Prop
  | same (piece : Piece) : Narrows piece piece
  | branch {opcode short : Opcode} {target : Nat} (narrow : opcode.narrowed? = some short) :
      Narrows (.branch opcode target) (.narrowBranch short target)

theorem Narrows.trans {first second third : Piece} (left : Narrows first second)
    (right : Narrows second third) : Narrows first third := by
  cases left with
  | same => exact right
  | branch narrow =>
      cases right with
      | same => exact .branch narrow

def startOf (pieces : List Piece) (index : Nat) : Nat :=
  ((pieces.take index).map size).sum

theorem startOf_succ {pieces : List Piece} {index : Nat} {piece : Piece}
    (found : pieces[index]? = some piece) :
    startOf pieces (index + 1) = startOf pieces index + piece.size := by
  unfold startOf
  rw [List.take_add_one, found]
  simp

end Piece

namespace Layout

open Piece (startOf)

theorem foldl_addresses (pieces : List Piece) (known : Array Nat) (last : Nat)
    (back : known.back? = some last) :
    (pieces.foldl (fun known piece => known.push (known.back?.getD 0 + piece.size)) known).toList =
      known.toList ++ (List.range pieces.length).map fun index =>
        last + startOf pieces (index + 1) := by
  induction pieces generalizing known last with
  | nil => simp
  | cons piece rest inductionHypothesis =>
      have next : (known.push (known.back?.getD 0 + piece.size)).back? =
          some (last + piece.size) := by
        rw [Array.back?_push, back]
        rfl
      rw [List.foldl_cons, inductionHypothesis _ _ next, Array.toList_push, back,
        List.length_cons, List.range_succ_eq_map, List.map_cons, List.map_map, List.append_assoc]
      simp [Function.comp_def, Nat.add_assoc, startOf]

theorem toList_addresses (layout : Layout) :
    layout.addresses.toList =
      (List.range (layout.pieces.length + 1)).map (startOf layout.pieces) := by
  rw [addresses, foldl_addresses layout.pieces #[0] 0 rfl, List.range_succ_eq_map, List.map_cons,
    List.map_map]
  simp [startOf, Function.comp_def]

theorem getElem?_addresses {layout : Layout} {index address : Nat} :
    layout.addresses[index]? = some address ↔
      index ≤ layout.pieces.length ∧ address = startOf layout.pieces index := by
  rw [← Array.getElem?_toList, toList_addresses, List.getElem?_map, Option.map_eq_some_iff]
  constructor
  · rintro ⟨found, known, same⟩
    obtain ⟨bound, sameIndex⟩ := List.getElem?_eq_some_iff.mp known
    rw [List.getElem_range] at sameIndex
    rw [List.length_range] at bound
    exact ⟨Nat.le_of_lt_succ bound, by rw [← same, sameIndex]⟩
  · rintro ⟨bound, same⟩
    exact ⟨index, List.getElem?_range (Nat.lt_succ_of_le bound), same.symm⟩

theorem startOf_le {pieces : List Piece} {left right : Nat} (order : left ≤ right) :
    startOf pieces left ≤ startOf pieces right := by
  induction order with
  | refl => exact Nat.le_refl _
  | @step right _ inductionHypothesis =>
      apply Nat.le_trans inductionHypothesis
      simp [startOf, List.take_add_one]

theorem mapM_addresses {Item Result : Type} {layout : Layout}
    {compute : Nat × Item → Except Error Result} {items : List Item} {results : List Result}
    (same : items.length = layout.pieces.length)
    (done : (layout.addresses.toList.zip items).mapM compute = .ok results) :
    results.length = items.length ∧ ∀ (index : Nat) (item : Item), items[index]? = some item →
      ∃ result, results[index]? = some result ∧
        compute (startOf layout.pieces index, item) = .ok result := by
  obtain ⟨length, each⟩ := mapM_eq_ok done
  have count : layout.addresses.toList.length = layout.pieces.length + 1 := by
    rw [toList_addresses, List.length_map, List.length_range]
  refine ⟨by rw [length, List.length_zip]; omega, ?_⟩
  intro index item found
  obtain ⟨bound, _⟩ := List.getElem?_eq_some_iff.mp found
  have address : layout.addresses.toList[index]? = some (startOf layout.pieces index) := by
    rw [Array.getElem?_toList]
    exact getElem?_addresses.mpr ⟨by omega, rfl⟩
  exact each index _ (List.getElem?_zip_eq_some.mpr ⟨address, found⟩)

/-- What a narrowed layout has in common with the layout before. -/
structure NarrowsTo (before after : Layout) : Prop where
  marks : after.marks = before.marks
  length : after.pieces.length = before.pieces.length
  each : ∀ {index : Nat} {piece narrow : Piece}, before.pieces[index]? = some piece →
    after.pieces[index]? = some narrow → Piece.Narrows piece narrow

theorem NarrowsTo.refl (layout : Layout) : NarrowsTo layout layout :=
  ⟨rfl, rfl, fun here there => by
    rw [Option.some.inj (here.symm.trans there)]
    exact .same _⟩

theorem NarrowsTo.trans {first second third : Layout} (left : NarrowsTo first second)
    (right : NarrowsTo second third) : NarrowsTo first third where
  marks := right.marks.trans left.marks
  length := right.length.trans left.length
  each {index} _ _ here there := by
    obtain ⟨bound, _⟩ := List.getElem?_eq_some_iff.mp here
    have secondBound : index < second.pieces.length := by
      rw [left.length]
      exact bound
    have middle := List.getElem?_eq_getElem secondBound
    exact (left.each here middle).trans (right.each middle there)

theorem narrows_of_narrowPiece? {layout : Layout} {addresses : Array Nat} {address : Nat}
    {piece : Piece} {narrow : Option Piece}
    (done : layout.narrowPiece? addresses address piece = .ok narrow) :
    Piece.Narrows piece (narrow.getD piece) := by
  unfold narrowPiece? at done
  split at done
  · split at done
    · rw [← Except.ok.inj done]
      exact .same _
    · rename_i short found
      obtain ⟨targetAddress, _, rest⟩ := bind_eq_ok.mp done
      obtain ⟨distance, _, chosen⟩ := bind_eq_ok.mp rest
      rw [← Except.ok.inj chosen]
      split
      · exact .branch found
      · exact .same _
  · rw [← Except.ok.inj done]
    exact .same _

theorem narrowsTo_of_narrow {layout after : Layout} {rounds : Nat}
    (done : layout.narrow rounds = .ok after) : NarrowsTo layout after := by
  induction rounds generalizing layout with
  | zero =>
      rw [← Except.ok.inj done]
      exact NarrowsTo.refl layout
  | succ rounds inductionHypothesis =>
      obtain ⟨narrowings, found, rest⟩ := bind_eq_ok.mp done
      split at rest
      · rw [← Except.ok.inj rest]
        exact NarrowsTo.refl layout
      · obtain ⟨length, each⟩ := mapM_addresses rfl found
        have later := inductionHypothesis rest
        refine NarrowsTo.trans ?_ later
        refine ⟨rfl, ?_, ?_⟩
        · rw [List.length_map, List.length_zip, length, Nat.min_self]
        · intro index piece narrow here there
          rcases each index piece here with ⟨narrowing, known, computed⟩
          have pair : (layout.pieces.zip narrowings)[index]? = some (piece, narrowing) :=
            List.getElem?_zip_eq_some.mpr ⟨here, known⟩
          have chosen : narrow = narrowing.getD piece := by
            rw [List.getElem?_map, pair] at there
            exact (Option.some.inj there).symm
          rw [chosen]
          exact narrows_of_narrowPiece? computed

/-- A label is marked in front of a piece, and the distance from an address to
that piece can be written down. -/
structure Reaches (layout : Layout) (next label place : Nat) (distance : Int) : Prop where
  marked : layout.marks[label]? = some (some place)
  bound : place ≤ layout.pieces.length
  distance_eq : distance = startOf layout.pieces place - next
  low : -0x80000000 ≤ distance
  high : distance < 0x80000000

theorem labelAddress_eq_ok {layout : Layout} {label address : Nat}
    (found : layout.labelAddress layout.addresses label = .ok address) :
    ∃ place : Nat, layout.marks[label]? = some (some place) ∧ place ≤ layout.pieces.length ∧
      address = startOf layout.pieces place := by
  unfold labelAddress at found
  split at found
  · rename_i known marked
    obtain ⟨place, isMarked, atPlace⟩ := Option.bind_eq_some_iff.mp marked
    obtain ⟨bound, same⟩ := getElem?_addresses.mp atPlace
    rw [← Except.ok.inj found]
    exact ⟨place, Option.join_eq_some_iff.mp isMarked, bound, same⟩
  · cases found

theorem reaches_of_offset {layout : Layout} {next label address : Nat} {distance : Int}
    (found : layout.labelAddress layout.addresses label = .ok address)
    (far : offset address next = .ok distance) :
    ∃ place, layout.Reaches next label place distance := by
  obtain ⟨place, marked, bound, rfl⟩ := labelAddress_eq_ok found
  simp only [offset] at far
  split at far
  · rename_i inRange
    rw [← Except.ok.inj far]
    exact ⟨place, marked, bound, rfl, by omega, by omega⟩
  · cases far

/-- The bytes of a piece that ends at an address. -/
inductive Resolves (layout : Layout) (next : Nat) : Piece → List UInt8 → Prop
  | plain (bytes : List UInt8) : Resolves layout next (.plain bytes) bytes
  | branch {opcode : Opcode} {target place : Nat} {distance : Int}
      (reaches : layout.Reaches next target place distance) :
      Resolves layout next (.branch opcode target) (opcode.bytes ++ offsetBytes 4 distance)
  | narrowBranch {opcode : Opcode} {target place : Nat} {distance : Int}
      (reaches : layout.Reaches next target place distance) (fits : fitsByte distance = true) :
      Resolves layout next (.narrowBranch opcode target) (opcode.bytes ++ offsetBytes 1 distance)
  | switch {targets : List Nat} {distances : List Int} (length : distances.length = targets.length)
      (each : ∀ {index target : Nat} {distance : Int}, targets[index]? = some target →
        distances[index]? = some distance → ∃ place, layout.Reaches next target place distance) :
      Resolves layout next (.switch targets)
        (Opcode.switch.bytes ++ LittleEndian.toBytes 4 targets.length ++
          distances.flatMap (offsetBytes 4))

theorem resolves_of_resolve {layout : Layout} {address : Nat} {piece middle : Piece}
    {bytes : List UInt8}
    (branches : layout.resolveBranch layout.addresses address piece = .ok middle)
    (switches : layout.resolveSwitch layout.addresses address middle = .ok bytes) :
    Resolves layout (address + piece.size) piece bytes := by
  cases piece with
  | plain known =>
      rw [← Except.ok.inj branches] at switches
      rw [← Except.ok.inj switches]
      exact .plain known
  | branch opcode target =>
      obtain ⟨distance, distanceTo, written⟩ := bind_eq_ok.mp branches
      obtain ⟨targetAddress, found, far⟩ := bind_eq_ok.mp distanceTo
      obtain ⟨place, reaches⟩ := reaches_of_offset found far
      rw [← Except.ok.inj written] at switches
      rw [← Except.ok.inj switches]
      exact .branch reaches
  | narrowBranch opcode target =>
      obtain ⟨distance, distanceTo, written⟩ := bind_eq_ok.mp branches
      obtain ⟨targetAddress, found, far⟩ := bind_eq_ok.mp distanceTo
      obtain ⟨place, reaches⟩ := reaches_of_offset found far
      split at written
      · rename_i fits
        rw [← Except.ok.inj written] at switches
        rw [← Except.ok.inj switches]
        exact .narrowBranch reaches fits
      · cases written
  | switch targets =>
      rw [← Except.ok.inj branches] at switches
      obtain ⟨distances, found, together⟩ := bind_eq_ok.mp switches
      obtain ⟨length, each⟩ := mapM_eq_ok found
      rw [← Except.ok.inj together]
      refine .switch length ?_
      intro index target distance here there
      rcases each index target here with ⟨result, known, computed⟩
      rw [← Option.some.inj (known.symm.trans there)]
      obtain ⟨targetAddress, atAddress, far⟩ := bind_eq_ok.mp computed
      exact reaches_of_offset atAddress far

/-- The parts of the code, one for each piece. -/
structure Parts (layout : Layout) (code : List UInt8) (parts : List (List UInt8)) : Prop where
  code_eq : code = parts.flatten
  length : parts.length = layout.pieces.length
  each : ∀ {index : Nat} {piece : Piece}, layout.pieces[index]? = some piece →
    ∃ part, parts[index]? = some part ∧
      Resolves layout (startOf layout.pieces (index + 1)) piece part

theorem parts_of_code {layout : Layout} {code : List UInt8} (done : layout.code = .ok code) :
    ∃ parts, Parts layout code parts := by
  obtain ⟨resolved, branches, rest⟩ := bind_eq_ok.mp done
  obtain ⟨parts, switches, together⟩ := bind_eq_ok.mp rest
  obtain ⟨length, eachBranch⟩ := mapM_addresses rfl branches
  obtain ⟨partsLength, eachSwitch⟩ := mapM_addresses length switches
  refine ⟨parts, (Except.ok.inj together).symm, partsLength.trans length, ?_⟩
  intro index piece found
  rcases eachBranch index piece found with ⟨middle, known, branch⟩
  rcases eachSwitch index middle known with ⟨part, partKnown, switch⟩
  refine ⟨part, partKnown, ?_⟩
  rw [Piece.startOf_succ found]
  exact resolves_of_resolve branch switch

theorem length_offsetBytes (width : Nat) (distance : Int) :
    (offsetBytes width distance).length = width :=
  LittleEndian.length_toBytes _ _

theorem length_table (distances : List Int) :
    (distances.flatMap (offsetBytes 4)).length = 4 * distances.length := by
  induction distances with
  | nil => rfl
  | cons distance rest inductionHypothesis =>
      rw [List.flatMap_cons, List.length_append, length_offsetBytes, inductionHypothesis,
        List.length_cons, Nat.mul_succ, Nat.add_comm]

theorem length_bytes (opcode : Opcode) : opcode.bytes.length = opcode.size := by
  unfold Opcode.bytes Opcode.size
  split <;> rfl

theorem Resolves.length {layout : Layout} {next : Nat} {piece : Piece} {bytes : List UInt8}
    (resolves : Resolves layout next piece bytes) : bytes.length = piece.size := by
  cases resolves with
  | plain => rfl
  | branch => rw [List.length_append, length_bytes, length_offsetBytes]; rfl
  | narrowBranch => rw [List.length_append, length_bytes, length_offsetBytes]; rfl
  | @switch targets distances length each =>
      rw [List.length_append, List.length_append, length_bytes, LittleEndian.length_toBytes,
        length_table, length]
      rfl

end Layout
end CilTemplate
