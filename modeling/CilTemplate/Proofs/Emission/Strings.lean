import CilTemplate.Proofs.Emission.Layout
import CilTemplate.Proofs.Emission.Reached
import CilTemplate.Proofs.Entries
import Mathlib.Data.List.Induction

/-
The tokens of the strings that code loads.  A string that is not known beforehand
gets the next row, and of a row number only three bytes fit into a token.  So the
tokens tell the strings apart until the rows that are given out have run around
into the lowest row that was taken from the start.
-/

namespace CilTemplate

open CilTemplate.Action

namespace Token

theorem toNat_row (token : Token) : token.row.toNat = token.value.toNat % 2 ^ 24 := by
  rw [row, UInt32.toNat_and]
  exact Nat.and_two_pow_sub_one_eq_mod token.value.toNat 24

theorem toNat_ofParts_string (row : UInt32) :
    (ofParts .string row).value.toNat = 2 ^ 24 * 0x70 + row.toNat % 2 ^ 24 := by
  rw [Nat.two_pow_add_eq_or_of_lt (Nat.mod_lt _ (by decide)),
    ← Nat.and_two_pow_sub_one_eq_mod, ofParts, UInt32.toNat_or, UInt32.toNat_and]
  rfl

theorem toNat_of_string {token : Token} (kind : token.kind? = some .string) :
    token.value.toNat = 2 ^ 24 * 0x70 + token.row.toNat := by
  have known := List.find?_some kind
  simp only [table, Kind.table, beq_iff_eq] at known
  have high := congrArg UInt8.toNat known
  rw [UInt32.toNat_toUInt8, UInt32.toNat_shiftRight] at high
  change 0x70 = token.value.toNat >>> 24 % 2 ^ 8 at high
  rw [Nat.shiftRight_eq_div_pow] at high
  have bound := token.value.toNat_lt
  rw [toNat_row]
  omega

theorem eq_iff_toNat {left right : Token} :
    left = right ↔ left.value.toNat = right.value.toNat := by
  cases left
  cases right
  rw [Token.mk.injEq, UInt32.toNat_inj]

end Token

namespace UserStrings

/-- The row behind the highest one that is taken beforehand. -/
def firstRow (known : List (String × Token)) : Nat :=
  known.foldl (fun row entry => max row (entry.2.row.toNat + 1)) 1

/-- The lowest row that is taken from the start, which is the first that is given
out if no string is known beforehand. -/
def lowestRow (known : List (String × Token)) : Nat :=
  known.foldl (fun row entry => min row entry.2.row.toNat) (firstRow known)

/-- The token with a row number, of which only three bytes fit. -/
def rowToken (row : Nat) : Token :=
  .ofParts .string (UInt32.ofNat row)

theorem toNat_rowToken (row : Nat) :
    (rowToken row).value.toNat = 2 ^ 24 * 0x70 + row % 2 ^ 24 := by
  rw [rowToken, Token.toNat_ofParts_string, UInt32.toNat_ofNat']
  omega

section Rows

variable {known : List (String × Token)}

theorem foldl_max_spec (start : Nat) (known : List (String × Token)) :
    start ≤ known.foldl (fun row entry => max row (entry.2.row.toNat + 1)) start ∧
      ∀ entry ∈ known, entry.2.row.toNat <
        known.foldl (fun row entry => max row (entry.2.row.toNat + 1)) start := by
  induction known generalizing start with
  | nil => exact ⟨Nat.le_refl _, fun _ member => absurd member List.not_mem_nil⟩
  | cons entry rest inductionHypothesis =>
      rcases inductionHypothesis (max start (entry.2.row.toNat + 1)) with ⟨grows, above⟩
      rw [List.foldl_cons]
      refine ⟨by omega, List.forall_mem_cons.mpr ⟨by omega, above⟩⟩

theorem foldl_max_le {start bound : Nat} (low : start ≤ bound)
    (below : ∀ entry ∈ known, entry.2.row.toNat < bound) :
    known.foldl (fun row entry => max row (entry.2.row.toNat + 1)) start ≤ bound := by
  induction known generalizing start with
  | nil => exact low
  | cons entry rest inductionHypothesis =>
      obtain ⟨here, later⟩ := List.forall_mem_cons.mp below
      exact inductionHypothesis (Nat.max_le.mpr ⟨low, here⟩) later

theorem foldl_min_spec (start : Nat) (known : List (String × Token)) :
    known.foldl (fun row entry => min row entry.2.row.toNat) start ≤ start ∧
      (∀ entry ∈ known, known.foldl (fun row entry => min row entry.2.row.toNat) start ≤
        entry.2.row.toNat) ∧
      (known.foldl (fun row entry => min row entry.2.row.toNat) start = start ∨
        ∃ entry ∈ known, entry.2.row.toNat =
          known.foldl (fun row entry => min row entry.2.row.toNat) start) := by
  induction known generalizing start with
  | nil => exact ⟨Nat.le_refl _, fun _ member => absurd member List.not_mem_nil, Or.inl rfl⟩
  | cons entry rest inductionHypothesis =>
      rcases inductionHypothesis (min start entry.2.row.toNat) with ⟨shrinks, below, least⟩
      rw [List.foldl_cons]
      refine ⟨by omega, List.forall_mem_cons.mpr ⟨by omega, below⟩, ?_⟩
      rcases least with same | ⟨found, member, same⟩
      · rcases Nat.le_total start entry.2.row.toNat with first | second
        · exact Or.inl (by omega)
        · exact Or.inr ⟨entry, List.mem_cons_self, by omega⟩
      · exact Or.inr ⟨found, List.mem_cons_of_mem _ member, same⟩

theorem row_lt (token : Token) : token.row.toNat < 2 ^ 24 := by
  rw [Token.toNat_row]
  exact Nat.mod_lt _ (by decide)

theorem firstRow_le : firstRow known ≤ 2 ^ 24 :=
  foldl_max_le (by decide) fun entry _ => row_lt entry.2

theorem lt_firstRow {entry : String × Token} (member : entry ∈ known) :
    entry.2.row.toNat < firstRow known :=
  (foldl_max_spec 1 known).2 entry member

theorem lowestRow_le {entry : String × Token} (member : entry ∈ known) :
    lowestRow known ≤ entry.2.row.toNat :=
  (foldl_min_spec (firstRow known) known).2.1 entry member

theorem lowestRow_le_firstRow : lowestRow known ≤ firstRow known :=
  (foldl_min_spec (firstRow known) known).1

theorem lowestRow_cases :
    known = [] ∧ lowestRow known = firstRow known ∨
      ∃ entry ∈ known, entry.2.row.toNat = lowestRow known := by
  rcases (foldl_min_spec (firstRow known) known).2.2 with same | found
  · cases known with
    | nil => exact Or.inl ⟨rfl, same⟩
    | cons entry rest =>
        have member : entry ∈ entry :: rest := List.mem_cons_self
        have below := lowestRow_le member
        have above := lt_firstRow member
        change lowestRow (entry :: rest) = firstRow (entry :: rest) at same
        omega
  · exact Or.inr found

end Rows

section Distinct

variable {known : List (String × Token)}

theorem rowToken_eq_iff {token : Token} {row : Nat} (kind : token.kind? = some .string) :
    token = rowToken row ↔ token.row.toNat = row % 2 ^ 24 := by
  rw [Token.eq_iff_toNat, Token.toNat_of_string kind, toNat_rowToken]
  omega

theorem rowToken_inj {left right : Nat} :
    rowToken left = rowToken right ↔ left % 2 ^ 24 = right % 2 ^ 24 := by
  rw [Token.eq_iff_toNat, toNat_rowToken, toNat_rowToken]
  omega

/-- Rows that are given out reach the lowest row that was taken, and not an
earlier one, when the row number starts again. -/
theorem nodup_tokens_iff (tokens : (known.map Prod.snd).Nodup)
    (kinds : ∀ entry ∈ known, entry.2.kind? = some .string) (count : Nat) :
    (known.map Prod.snd ++
        (List.range count).map fun number => rowToken (firstRow known + number)).Nodup ↔
      firstRow known + count ≤ 2 ^ 24 + lowestRow known := by
  have low := @lowestRow_le_firstRow known
  have bound := @firstRow_le known
  rw [List.nodup_append]
  constructor
  · rintro ⟨_, given, apart⟩
    refine Nat.le_of_not_lt fun beyond => ?_
    rcases @lowestRow_cases known with ⟨_, same⟩ | ⟨entry, member, same⟩
    · -- Without strings beforehand the first row is given out again.
      have inRange : 2 ^ 24 ∈ List.range count := List.mem_range.mpr (by omega)
      have zero : 0 ∈ List.range count := List.mem_range.mpr (by omega)
      have again : rowToken (firstRow known + 2 ^ 24) = rowToken (firstRow known + 0) :=
        rowToken_inj.mpr (by omega)
      have equal := (List.nodup_map_iff_inj_on List.nodup_range).mp given _ inRange _ zero again
      omega
    · have inRange : 2 ^ 24 + lowestRow known - firstRow known ∈ List.range count :=
        List.mem_range.mpr (by omega)
      refine apart entry.2 (List.mem_map_of_mem member) _ (List.mem_map_of_mem inRange) ?_
      rw [rowToken_eq_iff (kinds entry member)]
      have below := row_lt entry.2
      omega
  · intro inside
    refine ⟨tokens, ?_, ?_⟩
    · rw [List.nodup_map_iff_inj_on List.nodup_range]
      intro left leftBound right rightBound same
      rw [List.mem_range] at leftBound rightBound
      rw [rowToken_inj] at same
      omega
    · intro token member other given same
      obtain ⟨entry, entryMember, rfl⟩ := List.mem_map.mp member
      obtain ⟨number, numberBound, rfl⟩ := List.mem_map.mp given
      rw [List.mem_range] at numberBound
      rw [rowToken_eq_iff (kinds entry entryMember)] at same
      have above := lt_firstRow entryMember
      have below := lowestRow_le entryMember
      omega

end Distinct

section Interning

variable {known : List (String × Token)} {fresh : List String} {strings : UserStrings}

/-- The strings that are known beforehand and the fresh ones behind them, each of
which got the next row. -/
structure Holds (known : List (String × Token)) (fresh : List String) (strings : UserStrings) :
    Prop where
  entries : strings.entries.toList =
    known ++ fresh.mapIdx fun number text => (text, rowToken (firstRow known + number))
  nextRow : strings.nextRow = UInt32.ofNat (firstRow known + fresh.length)
  distinct : (known.map Prod.fst ++ fresh).Nodup

theorem Holds.texts (holds : Holds known fresh strings) :
    strings.entries.toList.map Prod.fst = known.map Prod.fst ++ fresh := by
  rw [holds.entries, List.map_append]
  congr 1
  apply List.ext_getElem?
  intro number
  rw [List.getElem?_map, List.getElem?_mapIdx]
  cases fresh[number]? <;> rfl

theorem Holds.tokens (holds : Holds known fresh strings) :
    strings.entries.toList.map Prod.snd = known.map Prod.snd ++
      (List.range fresh.length).map fun number => rowToken (firstRow known + number) := by
  rw [holds.entries, List.map_append]
  congr 1
  apply List.ext_getElem?
  intro number
  rw [List.getElem?_map, List.getElem?_mapIdx, List.getElem?_map]
  rcases Nat.lt_or_ge number fresh.length with inside | outside
  · rw [List.getElem?_range inside, List.getElem?_eq_getElem inside]
    rfl
  · rw [List.getElem?_eq_none outside, List.getElem?_eq_none (by rwa [List.length_range])]
    rfl

theorem token?_eq_none_iff {text : String} :
    strings.token? text = none ↔ text ∉ strings.entries.toList.map Prod.fst :=
  lookup_eq_none_iff

theorem Holds.intern (holds : Holds known fresh strings) (text : String) :
    Holds known (if text ∈ known.map Prod.fst ++ fresh then fresh else fresh ++ [text])
      (strings.intern text).2 := by
  rw [← holds.texts]
  cases found : strings.token? text with
  | some token =>
      have held : text ∈ strings.entries.toList.map Prod.fst := by
        refine Decidable.not_not.mp fun absent => ?_
        rw [token?_eq_none_iff.mpr absent] at found
        cases found
      rw [if_pos held]
      simp only [UserStrings.intern, found]
      exact holds
  | none =>
      have absent := token?_eq_none_iff.mp found
      rw [if_neg absent]
      simp only [UserStrings.intern, found]
      rw [holds.texts] at absent
      refine ⟨?_, ?_, ?_⟩
      · rw [Array.toList_push, holds.entries, List.mapIdx_concat, List.append_assoc, holds.nextRow,
          rowToken]
      · change strings.nextRow + 1 = _
        rw [holds.nextRow, List.length_append, ← Nat.add_assoc, UInt32.ofNat_add _ [text].length]
        rfl
      · rw [← List.append_assoc, ← List.concat_eq_append]
        exact (List.nodup_concat _ _).mpr ⟨absent, holds.distinct⟩

/-- By induction on the strings that are known beforehand, each of which is new. -/
theorem foldl_seed (strings : UserStrings)
    (distinct : (strings.entries.toList.map Prod.fst ++ known.map Prod.fst).Nodup) :
    (known.foldl (fun strings (text, token) => strings.seed text token) strings).entries.toList =
        strings.entries.toList ++ known ∧
      (known.foldl (fun strings (text, token) => strings.seed text token) strings).nextRow.toNat =
        known.foldl (fun row entry => max row (entry.2.row.toNat + 1)) strings.nextRow.toNat := by
  induction known generalizing strings with
  | nil => exact ⟨(List.append_nil _).symm, rfl⟩
  | cons entry rest inductionHypothesis =>
      rcases entry with ⟨text, token⟩
      have absent : strings.token? text = none := by
        rw [token?_eq_none_iff]
        intro held
        exact (List.nodup_append.mp distinct).2.2 text held text List.mem_cons_self rfl
      have seeded : strings.seed text token =
          ⟨strings.entries.push (text, token), max strings.nextRow (token.row + 1)⟩ := by
        simp [UserStrings.seed, absent]
      have texts : (strings.seed text token).entries.toList.map Prod.fst ++ rest.map Prod.fst =
          strings.entries.toList.map Prod.fst ++ ((text, token) :: rest).map Prod.fst := by
        simp [seeded]
      obtain ⟨entries, nextRow⟩ := inductionHypothesis (strings.seed text token)
        (by rw [texts]; exact distinct)
      have next : (strings.seed text token).nextRow.toNat =
          max strings.nextRow.toNat (token.row.toNat + 1) := by
        have below := row_lt token
        have plus : (token.row + 1).toNat = token.row.toNat + 1 := by
          rw [UInt32.toNat_add]
          change (token.row.toNat + 1) % 2 ^ 32 = token.row.toNat + 1
          omega
        rw [seeded, ← plus]
        change (max strings.nextRow (token.row + 1)).toNat = _
        simp only [max, UInt32.le_iff_toNat_le]
        split <;> rfl
      rw [List.foldl_cons, List.foldl_cons, entries, nextRow, next, seeded]
      exact ⟨by simp, rfl⟩

theorem holds_seeds (strings : (known.map Prod.fst).Nodup) :
    Holds known [] (known.foldl (fun strings (text, token) => strings.seed text token) empty) := by
  obtain ⟨entries, nextRow⟩ := @foldl_seed known empty strings
  refine ⟨?_, ?_, ?_⟩
  · rw [entries]
    simp [empty]
  · apply UInt32.toNat_inj.mp
    rw [nextRow]
    have bound := @firstRow_le known
    change firstRow known = _
    rw [UInt32.toNat_ofNat', List.length_nil]
    omega
  · rw [List.append_nil]
    exact strings

end Interning

end UserStrings

namespace EmitterCall

def loads? : EmitterCall → Option String
  | emit opcode (.string text) => if opcode = Opcode.ldstr then some text else none
  | _ => none

def loaded (calls : List EmitterCall) : List String :=
  calls.filterMap loads?

theorem eq_of_loads? {call : EmitterCall} {text : String} (loads : call.loads? = some text) :
    call = .emit Opcode.ldstr (.string text) := by
  unfold loads? at loads
  split at loads
  · split at loads
    · rename_i same
      rw [same, Option.some.inj loads]
    · cases loads
  · cases loads

end EmitterCall

theorem Opcode.eq_ldstr_of_known : ∀ entry ∈ Opcode.known, entry.2.operand = .string →
    entry.1 = Opcode.ldstr := by
  decide +kernel

theorem Opcode.info?_ldstr : ∃ mnemonic,
    Opcode.ldstr.info? = some ⟨mnemonic, .string, .fixed 0, .fixed 1, .sequential⟩ :=
  ⟨_, rfl⟩

namespace Emitter

variable {Result : Type}

def KeepsStrings (action : Action Emitter Result) : Prop :=
  ∀ strings, Maintains (fun emitter => emitter.strings = strings) action

theorem FollowsStack.keepsStrings {action : Action Emitter Result}
    (follows : FollowsStack action) : KeepsStrings action := by
  intro strings emitter same
  have kept := follows emitter.written emitter rfl
  simp only [written, Prod.mk.injEq] at kept
  rw [kept.2.2.2, same]

theorem KeepsStrings.bind {Next : Type} {action : Action Emitter Result}
    {next : Result → Action Emitter Next} (first : KeepsStrings action)
    (rest : ∀ value, KeepsStrings (next value)) : KeepsStrings (action >>= next) :=
  fun strings => (first strings).bind fun value => rest value strings

theorem KeepsStrings.throw (error : Error) :
    KeepsStrings (throw error : Action Emitter Result) :=
  fun _ => .throw error

theorem keepsStrings_operandBytes {info : OpcodeInfo} {operand : Operand Nat}
    (other : ∀ text, info.operand = .string → operand ≠ .string text) :
    KeepsStrings (operandBytes info operand) := by
  intro strings
  unfold operandBytes
  dsimp only
  split
  case h_2 text kind => exact absurd rfl (other text kind)
  case h_8 value _ =>
    split
    · exact .pure _
    · exact .throw _
  all_goals first | exact .pure _ | exact .throw _

theorem keepsStrings_emitPiece {opcode : Opcode} {info : OpcodeInfo} {operand : Operand Nat}
    (other : ∀ text, info.operand = .string → operand ≠ .string text) (pops pushes : Int) :
    KeepsStrings (emitPiece opcode info operand pops pushes) := by
  have pushed : ∀ piece, KeepsStrings (pushPiece piece) := fun _ _ _ same => same
  unfold emitPiece
  split
  case h_1 target _ =>
    exact (pushed _).bind fun _ => (FollowsStack.updateDepth _ _ _).keepsStrings.bind fun _ =>
      (FollowsStack.recordDepth target).keepsStrings
  case h_2 target _ =>
    exact (pushed _).bind fun _ => (FollowsStack.updateDepth _ _ _).keepsStrings.bind fun _ =>
      (FollowsStack.recordDepth target).keepsStrings
  case h_3 targets _ =>
    refine (FollowsStack.updateDepth _ _ _).keepsStrings.bind fun _ =>
      (FollowsStack.recordDepths targets).keepsStrings.bind fun _ => ?_
    dsimp only
    split
    · exact .throw _
    · exact pushed _
  case h_7 =>
    exact (keepsStrings_operandBytes other).bind fun bytes => (pushed _).bind fun _ =>
      (FollowsStack.updateDepth _ _ _).keepsStrings
  all_goals exact .throw _

theorem keepsStrings_emit {opcode : Opcode} {operand : Operand Nat}
    (other : (EmitterCall.emit opcode operand).loads? = none) :
    KeepsStrings (emit opcode operand) := by
  unfold emit
  cases known : opcode.info? with
  | none => exact .throw _
  | some info =>
      have others : ∀ text, info.operand = .string → operand ≠ .string text := by
        rintro text kind rfl
        have same := Opcode.eq_ldstr_of_known _ (Opcode.mem_known_of_info? known) kind
        rw [EmitterCall.loads?, if_pos same] at other
        cases other
      refine KeepsStrings.bind (fun _ => .get) fun emitter =>
        KeepsStrings.bind (fun _ => .ofExcept _) fun effect =>
          (keepsStrings_emitPiece others effect.1 effect.2).bind fun _ strings => ?_
      split
      · exact fun _ held => held
      · exact .pure ()

theorem perform_of_other {call : EmitterCall} (other : call.loads? = none) (emitter : Emitter) :
    (run call.perform emitter).2.strings = emitter.strings ∧
      emitter.pieces.toList <+: (run call.perform emitter).2.pieces.toList := by
  cases call with
  | defineLabel => exact ⟨rfl, List.prefix_rfl⟩
  | markLabel label =>
      refine ⟨?_, ?_⟩
      · simp only [EmitterCall.perform, markLabel, run_bind, run_get, run_ite, run_throw]
        split
        · rfl
        · split
          · rfl
          · rfl
          · exact (FollowsStack.enterLabel label).keepsStrings _ _ rfl
      · have same : (run (markLabel label) emitter).2.layout.pieces = emitter.layout.pieces := by
          rcases layout_markLabel label emitter with same | ⟨_, marked⟩
          · rw [same]
          · rw [marked]
        exact ⟨[], (List.append_nil _).trans same.symm⟩
  | emit opcode operand =>
      have grows : AllowsPieces fun layout => emitter.pieces.toList <+: layout.pieces :=
        fun _ held => held.trans (List.prefix_append _ _)
      exact ⟨keepsStrings_emit other _ emitter rfl,
        @maintains_emit (fun layout => emitter.pieces.toList <+: layout.pieces) grows opcode operand
          emitter List.prefix_rfl⟩

def loadBytes (token : Token) : List UInt8 :=
  Opcode.ldstr.bytes ++ tokenBytes token

theorem perform_of_loads (emitter : Emitter) (text : String) :
    (run (EmitterCall.emit Opcode.ldstr (.string text)).perform emitter).2.strings =
        (emitter.strings.intern text).2 ∧
      (run (EmitterCall.emit Opcode.ldstr (.string text)).perform emitter).2.pieces =
        emitter.pieces.push (.plain (loadBytes (emitter.strings.intern text).1)) := by
  obtain ⟨mnemonic, known⟩ := Opcode.info?_ldstr
  have follows : FollowsStack (do
      updateDepth mnemonic 0 1
      pure ()) :=
    fun written => (FollowsStack.updateDepth mnemonic 0 1 written).bind fun _ => .pure ()
  have kept := follows _
    { emitter with
      strings := (emitter.strings.intern text).2
      pieces := emitter.pieces.push (.plain (loadBytes (emitter.strings.intern text).1)) } rfl
  simp only [written, Prod.mk.injEq] at kept
  have same : run (emit Opcode.ldstr (.string text)) emitter = run (do
      updateDepth mnemonic 0 1
      pure ()) { emitter with
        strings := (emitter.strings.intern text).2
        pieces := emitter.pieces.push (.plain (loadBytes (emitter.strings.intern text).1)) } := by
    simp only [emit, known]
    rfl
  rw [EmitterCall.perform, same]
  exact ⟨kept.2.2.2, kept.1⟩

/-- The emitter after requests, of which some may have failed, with strings that
were known beforehand. -/
def afterEach (known : List (String × Token)) (calls : List EmitterCall) : Emitter :=
  calls.foldl (fun emitter call => (run call.perform emitter).2) (empty.withStrings known)

/-- The strings that are not known beforehand, each where it is first loaded. -/
def freshStrings (known : List (String × Token)) (calls : List EmitterCall) : List String :=
  ((EmitterCall.loaded calls).filter fun text => text ∉ known.map Prod.fst).eraseDups

variable {known : List (String × Token)} {calls : List EmitterCall}

theorem afterEach_append (front back : List EmitterCall) :
    afterEach known (front ++ back) =
      back.foldl (fun emitter call => (run call.perform emitter).2) (afterEach known front) :=
  List.foldl_append

theorem freshStrings_append_of_other {call : EmitterCall} (other : call.loads? = none) :
    freshStrings known (calls ++ [call]) = freshStrings known calls := by
  simp [freshStrings, EmitterCall.loaded, other]

theorem freshStrings_append_of_loads {call : EmitterCall} {text : String}
    (loads : call.loads? = some text) :
    freshStrings known (calls ++ [call]) =
      if text ∈ known.map Prod.fst ++ freshStrings known calls then freshStrings known calls
      else freshStrings known calls ++ [text] := by
  have last : EmitterCall.loaded (calls ++ [call]) = EmitterCall.loaded calls ++ [text] := by
    simp [EmitterCall.loaded, loads]
  rw [freshStrings, last, List.filter_append]
  by_cases seeded : text ∈ known.map Prod.fst
  · rw [if_pos (List.mem_append_left _ seeded)]
    simp [freshStrings, seeded]
  · have held : text ∈ known.map Prod.fst ++ freshStrings known calls ↔
        text ∈ (EmitterCall.loaded calls).filter fun text => text ∉ known.map Prod.fst := by
      rw [List.mem_append, freshStrings, List.mem_eraseDups]
      exact or_iff_right seeded
    rw [List.filter_singleton, decide_eq_true seeded, cond_true, eraseDups_concat]
    simp only [held]
    rfl

/-- By induction on the requests, the last of which adds at most one string. -/
theorem holds_afterEach (strings : (known.map Prod.fst).Nodup) (calls : List EmitterCall) :
    (afterEach known calls).strings.Holds known (freshStrings known calls) := by
  induction calls using List.reverseRecOn with
  | nil => exact UserStrings.holds_seeds strings
  | append_singleton front call inductionHypothesis =>
      rw [afterEach_append, List.foldl_cons, List.foldl_nil]
      cases loads : call.loads? with
      | none =>
          rw [freshStrings_append_of_other loads, (perform_of_other loads _).1]
          exact inductionHypothesis
      | some text =>
          rw [freshStrings_append_of_loads loads, EmitterCall.eq_of_loads? loads,
            (perform_of_loads _ text).1]
          exact inductionHypothesis.intern text

theorem afterEach_extends (front back : List EmitterCall) :
    (afterEach known front).pieces.toList <+: (afterEach known (front ++ back)).pieces.toList ∧
      LookupExtends (afterEach known front).strings.entries.toList
        (afterEach known (front ++ back)).strings.entries.toList := by
  induction back using List.reverseRecOn with
  | nil =>
      rw [List.append_nil]
      exact ⟨List.prefix_rfl, .refl _⟩
  | append_singleton back call inductionHypothesis =>
      rw [← List.append_assoc, afterEach_append (front ++ back), List.foldl_cons, List.foldl_nil]
      rcases inductionHypothesis with ⟨pieces, entries⟩
      cases loads : call.loads? with
      | none =>
          have unchanged := perform_of_other loads (afterEach known (front ++ back))
          rw [unchanged.1]
          exact ⟨pieces.trans unchanged.2, entries⟩
      | some text =>
          rw [EmitterCall.eq_of_loads? loads, (perform_of_loads _ text).1,
            (perform_of_loads _ text).2, Array.toList_push]
          exact ⟨pieces.trans (List.prefix_append _ _), entries.trans (intern_spec _ text).2⟩

theorem finish_parts {emitter : Emitter} {body : EmittedBody} (done : emitter.finish = .ok body) :
    body.strings = emitter.strings.entries.toList ∧
      ∃ parts : List (List UInt8), body.code = parts.flatten ∧ parts.length = emitter.pieces.size ∧
        ∀ {index : Nat} {bytes : List UInt8}, emitter.pieces.toList[index]? = some (.plain bytes) →
          parts[index]? = some bytes := by
  obtain ⟨layout, narrowed, rest⟩ := bind_eq_ok.mp done
  obtain ⟨code, written, made⟩ := bind_eq_ok.mp rest
  have narrows := Layout.narrowsTo_of_narrow narrowed
  obtain ⟨parts, known⟩ := Layout.parts_of_code written
  rw [← Except.ok.inj made]
  refine ⟨rfl, parts, known.code_eq, ?_, ?_⟩
  · rw [known.length, narrows.length]
    exact Array.length_toList
  · intro index bytes found
    obtain ⟨bound, _⟩ := List.getElem?_eq_some_iff.mp found
    have narrowBound : index < layout.pieces.length := by
      rw [narrows.length]
      exact bound
    have there := List.getElem?_eq_getElem narrowBound
    have same : layout.pieces[index] = .plain bytes := by
      generalize layout.pieces[index] = narrow at there
      cases narrows.each found there
      rfl
    rw [same] at there
    obtain ⟨part, place, resolves⟩ := known.each there
    cases resolves
    exact place

def mentioned (known : List (String × Token)) (calls : List EmitterCall) : List String :=
  known.map Prod.fst ++ freshStrings known calls

theorem mem_mentioned {text : String} :
    text ∈ mentioned known calls ↔
      text ∈ known.map Prod.fst ∨ text ∈ EmitterCall.loaded calls := by
  rw [mentioned, List.mem_append, freshStrings, List.mem_eraseDups, List.mem_filter,
    decide_eq_true_eq]
  tauto

/-- The requests end up with one token for each string. -/
structure TokenOf (known : List (String × Token)) (calls : List EmitterCall)
    (token : String → Token) : Prop where
  /-- A string that is known beforehand keeps its token. -/
  seeded : ∀ {text : String} {seed : Token}, (text, seed) ∈ known → token text = seed
  /-- The others get the rows behind the highest one. -/
  fresh : ∀ {number : Nat} {text : String}, (freshStrings known calls)[number]? = some text →
    token text = UserStrings.rowToken (UserStrings.firstRow known + number)
  /-- Every request to load a string writes its token behind the code so far. -/
  loads : ∀ {front back : List EmitterCall} {text : String},
    calls = front ++ .emit Opcode.ldstr (.string text) :: back →
      (afterEach known front).pieces.toList ++ [.plain (loadBytes (token text))] <+:
        (afterEach known calls).pieces.toList
  /-- The finished body has each string with its token, and where a string is
  loaded, the token stands in the code. -/
  finished : ∀ {body : EmittedBody}, (afterEach known calls).finish = .ok body →
    body.strings = (mentioned known calls).map (fun text => (text, token text)) ∧
      ∃ parts : List (List UInt8), body.code = parts.flatten ∧
        parts.length = (afterEach known calls).pieces.size ∧
        ∀ {front back : List EmitterCall} {text : String},
          calls = front ++ .emit Opcode.ldstr (.string text) :: back →
            parts[(afterEach known front).pieces.size]? = some (loadBytes (token text))

/-- The token that a string has in the end. -/
def tokenAfter (known : List (String × Token)) (calls : List EmitterCall) (text : String) : Token :=
  ((afterEach known calls).strings.token? text).getD default

theorem tokenAfter_of_lookup {text : String} {token : Token}
    (found : (afterEach known calls).strings.entries.toList.lookup text = some token) :
    tokenAfter known calls text = token := by
  rw [tokenAfter, UserStrings.token?, found, Option.getD_some]

section Distinct

variable (strings : (known.map Prod.fst).Nodup)

include strings

theorem tokenAfter_of_mem {text : String} {token : Token}
    (member : (text, token) ∈ (afterEach known calls).strings.entries.toList) :
    tokenAfter known calls text = token := by
  have holds := holds_afterEach strings calls
  refine tokenAfter_of_lookup (lookup_of_mem ?_ member)
  rw [holds.texts]
  exact holds.distinct

theorem entries_afterEach :
    (afterEach known calls).strings.entries.toList =
      (mentioned known calls).map fun text => (text, tokenAfter known calls text) := by
  rw [mentioned, ← (holds_afterEach strings calls).texts, List.map_map]
  refine (List.map_id _).symm.trans (List.map_congr_left ?_)
  rintro ⟨text, token⟩ member
  rw [Function.comp_apply, tokenAfter_of_mem strings member, id_eq]

theorem tokenOf_tokenAfter : TokenOf known calls (tokenAfter known calls) := by
  have holds := holds_afterEach strings calls
  have loads : ∀ {front back : List EmitterCall} {text : String},
      calls = front ++ .emit Opcode.ldstr (.string text) :: back →
        (afterEach known front).pieces.toList ++ [.plain (loadBytes (tokenAfter known calls text))]
          <+: (afterEach known calls).pieces.toList := by
    rintro front back text rfl
    rw [List.append_cons front]
    have extends_ := @afterEach_extends known (front ++ [.emit Opcode.ldstr (.string text)]) back
    have performed := perform_of_loads (afterEach known front) text
    rw [afterEach_append front, List.foldl_cons, List.foldl_nil, performed.1, performed.2,
      Array.toList_push] at extends_
    rw [tokenAfter_of_lookup (extends_.2 _ _ (intern_spec _ text).1)]
    exact extends_.1
  refine ⟨?_, ?_, loads, ?_⟩
  · intro text seed member
    apply tokenAfter_of_mem strings
    rw [holds.entries]
    exact List.mem_append_left _ member
  · intro number text found
    apply tokenAfter_of_mem strings
    rw [holds.entries]
    refine List.mem_append_right _ (List.mem_iff_getElem?.mpr ⟨number, ?_⟩)
    rw [List.getElem?_mapIdx, found, Option.map_some]
  · intro body done
    obtain ⟨reported, parts, code, length, plain⟩ := finish_parts done
    refine ⟨reported.trans (entries_afterEach strings), parts, code, length, ?_⟩
    intro front back text split
    obtain ⟨rest, pieces⟩ := loads split
    apply plain
    rw [← pieces, List.append_assoc, ← Array.length_toList,
      List.getElem?_append_right (Nat.le_refl _), Nat.sub_self]
    rfl

/-- Each string has its token, once, in the code and in what is reported, and the
tokens tell the strings apart if and only if the rows that are given out do not
run around into the lowest row that was taken. -/
theorem tokens_identify_strings_until_rows_run_around (tokens : (known.map Prod.snd).Nodup)
    (kinds : ∀ entry ∈ known, entry.2.kind? = some .string) (calls : List EmitterCall) :
    (mentioned known calls).Nodup ∧
      (∀ text, text ∈ mentioned known calls ↔
        text ∈ known.map Prod.fst ∨ text ∈ EmitterCall.loaded calls) ∧
      ∃ token, TokenOf known calls token ∧
        ((∀ left ∈ mentioned known calls, ∀ right ∈ mentioned known calls,
            token left = token right → left = right) ↔
          UserStrings.firstRow known + (freshStrings known calls).length ≤
            2 ^ 24 + UserStrings.lowestRow known) := by
  have holds := holds_afterEach strings calls
  refine ⟨holds.distinct, fun _ => mem_mentioned, tokenAfter known calls,
    tokenOf_tokenAfter strings, ?_⟩
  have same : (mentioned known calls).map (tokenAfter known calls) =
      (afterEach known calls).strings.entries.toList.map Prod.snd := by
    rw [entries_afterEach strings, List.map_map]
    rfl
  rw [← UserStrings.nodup_tokens_iff tokens kinds, ← holds.tokens, ← same]
  exact (List.nodup_map_iff_inj_on holds.distinct).symm

end Distinct
end Emitter

namespace StringsSample

def seeds : List (String × Token) := [("first", ⟨0x70000001⟩), ("last", ⟨0x70FFFFFF⟩)]

def load (text : String) : EmitterCall := .emit Opcode.ldstr (.string text)

def drop : EmitterCall := .emit Opcode.pop .none

/-- One string that is not known beforehand, which gets the row zero. -/
def one : List EmitterCall := [load "last", drop, load "new", drop, load "new", drop]

/-- A second one, which gets the first row again. -/
def two : List EmitterCall := one ++ [load "newer", drop, load "first", drop]

end StringsSample

open StringsSample in
theorem tokens_identify_strings_until_rows_run_around_of_one :
    (seeds.map Prod.fst).Nodup ∧ (seeds.map Prod.snd).Nodup ∧
      (∀ entry ∈ seeds, entry.2.kind? = some .string) ∧
      ∃ token, Emitter.TokenOf seeds one token ∧
        ∀ left ∈ Emitter.mentioned seeds one, ∀ right ∈ Emitter.mentioned seeds one,
          token left = token right → left = right := by
  have strings : (seeds.map Prod.fst).Nodup := by decide +kernel
  have tokens : (seeds.map Prod.snd).Nodup := by decide +kernel
  have kinds : ∀ entry ∈ seeds, entry.2.kind? = some .string := by decide +kernel
  obtain ⟨_, _, token, tokenOf, identifies⟩ :=
    Emitter.tokens_identify_strings_until_rows_run_around strings tokens kinds one
  exact ⟨strings, tokens, kinds, token, tokenOf, identifies.mpr (by decide +kernel)⟩

open StringsSample in
/-- All requests succeed, and a string gets the token of another one. -/
theorem fresh_string_gets_known_token :
    (seeds.map Prod.fst).Nodup ∧ (seeds.map Prod.snd).Nodup ∧
      (∀ entry ∈ seeds, entry.2.kind? = some .string) ∧
      ∃ emitter, Runs two (Emitter.empty.withStrings seeds) emitter ∧
        emitter.finish = .ok
          { code := [0x72, 0xFF, 0xFF, 0xFF, 0x70, 0x26, 0x72, 0, 0, 0, 0x70, 0x26,
              0x72, 0, 0, 0, 0x70, 0x26, 0x72, 1, 0, 0, 0x70, 0x26, 0x72, 1, 0, 0, 0x70, 0x26]
            maxStack := 1
            locals := []
            strings := [("first", ⟨0x70000001⟩), ("last", ⟨0x70FFFFFF⟩), ("new", ⟨0x70000000⟩),
              ("newer", ⟨0x70000001⟩)] } :=
  ⟨by decide +kernel, by decide +kernel, by decide +kernel, _,
    run_eq_ok_of_toOption (by decide +kernel), eq_ok_of_toOption (by decide +kernel)⟩

end CilTemplate
