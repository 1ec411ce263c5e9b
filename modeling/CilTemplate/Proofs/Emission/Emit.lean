import CilTemplate.Sink.Emitter

/-
What a request to the emitter does when it succeeds: which piece is written,
how the stack is followed and which depths are remembered for labels.
-/

namespace CilTemplate

open CilTemplate.Action

/-- Whatever is known under a key stays known. -/
def LookupExtends {Key Value : Type} [BEq Key] (before after : List (Key × Value)) : Prop :=
  ∀ key value, before.lookup key = some value → after.lookup key = some value

namespace LookupExtends

variable {Key Value : Type} [BEq Key] {first second third : List (Key × Value)}

theorem refl (entries : List (Key × Value)) : LookupExtends entries entries :=
  fun _ _ found => found

theorem trans (left : LookupExtends first second) (right : LookupExtends second third) :
    LookupExtends first third :=
  fun key value found => right key value (left key value found)

theorem append (entries more : List (Key × Value)) :
    LookupExtends entries (entries ++ more) := by
  intro key value found
  rw [List.lookup_append, found]
  rfl

theorem cons [LawfulBEq Key] {key : Key} (value : Value) (fresh : first.lookup key = none) :
    LookupExtends first ((key, value) :: first) := by
  intro other found known
  have different : (other == key) = false := by
    apply beq_eq_false_iff_ne.mpr
    intro same
    rw [same, fresh] at known
    cases known
  rw [List.lookup_cons, different]
  exact known

end LookupExtends

namespace Emitter

/-- The depth and the greatest depth after an instruction that takes and leaves
so many values, from the depth and the greatest depth before it. -/
structure Follows (reachable : Bool) (start : Int) (greatest : Nat) (pops pushes depth : Int)
    (maxDepth : Nat) : Prop where
  noUnderflow : reachable = true → 0 ≤ start - pops
  depth_eq : depth = max (start - pops) 0 + pushes
  nonneg : 0 ≤ depth
  small : depth ≤ 0xFFFF
  maxDepth_eq : maxDepth = max greatest depth.toNat

namespace Follows

variable {reachable : Bool} {start pops pushes depth : Int} {greatest maxDepth : Nat}

theorem depth_le (follows : Follows reachable start greatest pops pushes depth maxDepth) :
    depth ≤ maxDepth := by
  have exact := follows.maxDepth_eq
  omega

theorem maxDepth_le (follows : Follows reachable start greatest pops pushes depth maxDepth) :
    greatest ≤ maxDepth := by
  rw [follows.maxDepth_eq]
  exact Nat.le_max_left _ _

theorem depth_eq_of_reachable
    (follows : Follows true start greatest pops pushes depth maxDepth) :
    depth = start - pops + pushes := by
  have enough := follows.noUnderflow rfl
  have exact := follows.depth_eq
  omega

end Follows

theorem run_updateDepth {mnemonic : String} {pops pushes : Int} {before after : Emitter}
    (done : run (updateDepth mnemonic pops pushes) before = (.ok (), after)) :
    ∃ depth maxDepth,
      Follows before.reachable before.depth before.maxDepth pops pushes depth maxDepth ∧
      after = { before with depth := depth, maxDepth := maxDepth } := by
  simp only [updateDepth, run_bind, run_get, run_ite, run_set, run_throw, run_modify] at done
  split at done
  · simp at done
  · rename_i enough
    split at done
    · simp at done
    · rename_i inside
      simp only [Prod.mk.injEq, true_and] at done
      refine ⟨_, _, ⟨?_, rfl, ?_, ?_, rfl⟩, done.symm⟩
      · intro reachable
        simp only [reachable, and_true] at enough
        omega
      · omega
      · omega

/-- What is known of labels stays known, and whatever else becomes known is one
depth. -/
structure Learns (depth : Int) (before after : List (Nat × Int)) : Prop where
  kept : LookupExtends before after
  learned : ∀ label known, after.lookup label = some known →
    before.lookup label = some known ∨ known = depth

theorem Learns.refl (depth : Int) (known : List (Nat × Int)) : Learns depth known known :=
  ⟨LookupExtends.refl known, fun _ _ found => Or.inl found⟩

theorem Learns.trans {depth : Int} {first second third : List (Nat × Int)}
    (left : Learns depth first second) (right : Learns depth second third) :
    Learns depth first third := by
  refine ⟨left.kept.trans right.kept, ?_⟩
  intro label known found
  rcases right.learned label known found with earlier | now
  · exact left.learned label known earlier
  · exact Or.inr now

theorem Learns.cons {label : Nat} {known : List (Nat × Int)} (depth : Int)
    (fresh : known.lookup label = none) : Learns depth known ((label, depth) :: known) := by
  refine ⟨LookupExtends.cons depth fresh, ?_⟩
  intro other value found
  rw [List.lookup_cons] at found
  split at found
  · exact Or.inr (Option.some.inj found).symm
  · exact Or.inl found

/-- A label that no depth is known for is entered with this one. -/
def learn (depth : Int) (label : Nat) (known : List (Nat × Int)) : List (Nat × Int) :=
  if (known.lookup label).isSome then known else (label, depth) :: known

def learnAll (depth : Int) : List Nat → List (Nat × Int) → List (Nat × Int)
  | [], known => known
  | label :: rest, known => learnAll depth rest (learn depth label known)

section Learning

variable {depth : Int} {label : Nat} {labels : List Nat} {known : List (Nat × Int)}

theorem learns_learn : Learns depth known (learn depth label known) := by
  unfold learn
  split
  · exact Learns.refl _ _
  · rename_i fresh
    exact Learns.cons depth (Option.not_isSome_iff_eq_none.mp fresh)

theorem learns_learnAll : Learns depth known (learnAll depth labels known) := by
  induction labels generalizing known with
  | nil => exact Learns.refl _ _
  | cons label rest inductionHypothesis => exact learns_learn.trans inductionHypothesis

/-- None of the labels was entered with another depth. -/
def Agree (depth : Int) (labels : List Nat) (known : List (Nat × Int)) : Prop :=
  ∀ label ∈ labels, ∀ expected, known.lookup label = some expected → expected = depth

theorem Agree.nil : Agree depth [] known :=
  List.forall_mem_nil _

theorem Agree.of_learns {after : List (Nat × Int)} (agree : Agree depth labels known)
    (learns : Learns depth known after) : Agree depth labels after := by
  intro label member expected found
  rcases learns.learned label expected found with earlier | now
  · exact agree label member expected earlier
  · exact now

theorem Agree.of_learned {after : List (Nat × Int)} (agree : Agree depth labels after)
    (learns : Learns depth known after) : Agree depth labels known :=
  fun label member expected found => agree label member expected (learns.kept label expected found)

theorem Agree.cons (first : ∀ expected, known.lookup label = some expected → expected = depth)
    (others : Agree depth labels known) : Agree depth (label :: labels) known := by
  intro other member
  rcases List.mem_cons.mp member with rfl | later
  · exact first
  · exact others other later

theorem lookup_learn (agree : ∀ expected, known.lookup label = some expected → expected = depth) :
    (learn depth label known).lookup label = some depth := by
  unfold learn
  cases found : known.lookup label with
  | none => exact List.lookup_cons_self
  | some expected =>
      rw [agree expected found] at found
      exact found

/-- By induction on the labels: what was learned is not forgotten. -/
theorem lookup_learnAll (agree : Agree depth labels known) :
    ∀ label ∈ labels, (learnAll depth labels known).lookup label = some depth := by
  induction labels generalizing known with
  | nil => exact nofun
  | cons first rest inductionHypothesis =>
      intro label member
      rcases List.mem_cons.mp member with rfl | later
      · have kept : Learns depth (learn depth label known)
            (learnAll depth rest (learn depth label known)) := learns_learnAll
        exact kept.kept _ _ (lookup_learn (agree _ List.mem_cons_self))
      · have others : Agree depth rest known :=
          fun other within => agree other (List.mem_cons_of_mem _ within)
        exact inductionHypothesis (others.of_learns learns_learn) label later

end Learning

/-- The depths known for labels after a reachable instruction has named some,
none of which had another one. -/
structure Records (reachable : Bool) (depth : Int) (known : List (Nat × Int))
    (labels : List Nat) (labelDepths : List (Nat × Int)) : Prop where
  agree : reachable = true → Agree depth labels known
  labelDepths_eq : labelDepths = if reachable then learnAll depth labels known else known

namespace Records

variable {reachable : Bool} {depth : Int} {known labelDepths : List (Nat × Int)}
  {labels : List Nat}

theorem learns (records : Records reachable depth known labels labelDepths) :
    Learns depth known labelDepths := by
  rw [records.labelDepths_eq]
  split
  · exact learns_learnAll
  · exact Learns.refl _ _

theorem entered (records : Records reachable depth known labels labelDepths)
    (here : reachable = true) : ∀ label ∈ labels, labelDepths.lookup label = some depth := by
  rw [records.labelDepths_eq, if_pos here]
  exact lookup_learnAll (records.agree here)

end Records

theorem run_recordDepth {label : Nat} {before after : Emitter}
    (done : run (recordDepth label) before = (.ok (), after)) :
    ∃ labelDepths,
      Records before.reachable before.depth before.labelDepths [label] labelDepths ∧
      after = { before with labelDepths := labelDepths } := by
  simp only [recordDepth, run_bind, run_get, run_ite] at done
  split at done
  · rename_i reachable
    cases known : before.labelDepths.lookup label with
    | some expected =>
        simp only [known, run_ite, run_throw, run_pure] at done
        split at done
        · simp at done
        · rename_i agree
          simp only [ne_eq, Decidable.not_not] at agree
          simp only [Prod.mk.injEq, true_and] at done
          refine ⟨before.labelDepths, ⟨fun _ => Agree.cons ?_ Agree.nil, ?_⟩, done.symm⟩
          · intro other found
            rw [known] at found
            rw [← Option.some.inj found, agree]
          · rw [if_pos reachable, learnAll, learn, known]
            rfl
    | none =>
        simp only [known, run_set, Prod.mk.injEq, true_and] at done
        refine ⟨_, ⟨fun _ => Agree.cons ?_ Agree.nil, ?_⟩, done.symm⟩
        · intro other found
          rw [known] at found
          cases found
        · rw [if_pos reachable, learnAll, learn, known]
          rfl
  · rename_i unreachable
    simp only [run_pure, Prod.mk.injEq, true_and] at done
    exact ⟨before.labelDepths,
      ⟨fun reachable => absurd reachable unreachable, (if_neg unreachable).symm⟩, done.symm⟩

theorem run_recordDepths {labels : List Nat} {before after : Emitter}
    (done : run (recordDepths labels) before = (.ok (), after)) :
    ∃ labelDepths,
      Records before.reachable before.depth before.labelDepths labels labelDepths ∧
      after = { before with labelDepths := labelDepths } := by
  induction labels generalizing before with
  | nil =>
      simp only [recordDepths, run_pure, Prod.mk.injEq, true_and] at done
      exact ⟨before.labelDepths, ⟨fun _ => Agree.nil, (ite_self _).symm⟩, done.symm⟩
  | cons label rest inductionHypothesis =>
      obtain ⟨_, middle, first, others⟩ := run_bind_eq_ok.mp done
      obtain ⟨middleDepths, firstRecords, rfl⟩ := run_recordDepth first
      rcases inductionHypothesis others with ⟨labelDepths, restRecords, rfl⟩
      refine ⟨labelDepths, ⟨?_, ?_⟩, rfl⟩
      · intro reachable
        exact Agree.cons (firstRecords.agree reachable label List.mem_cons_self)
          ((restRecords.agree reachable).of_learned firstRecords.learns)
      · rw [restRecords.labelDepths_eq, firstRecords.labelDepths_eq]
        cases before.reachable <;> rfl

def tokenBytes (token : Token) : List UInt8 :=
  LittleEndian.toBytes 4 token.value.toNat

/-- The bytes of an operand that is not a branch target, with the tokens that
strings have. -/
def operandEncoding (strings : UserStrings) : Operand Nat → Option (List UInt8)
  | .none => some []
  | .immediate value => some value.bytes
  | .type type => some (tokenBytes type.token)
  | .field field => some (tokenBytes field.token)
  | .method method => some (tokenBytes method.token)
  | .string text => (strings.token? text).map tokenBytes
  | .symbol symbol => some (tokenBytes symbol.token)
  | .signature _ | .label _ | .switch _ => none

theorem intern_spec (strings : UserStrings) (text : String) :
    (strings.intern text).2.token? text = some (strings.intern text).1 ∧
      LookupExtends strings.entries.toList (strings.intern text).2.entries.toList := by
  unfold UserStrings.intern
  cases known : strings.token? text with
  | some token => exact ⟨known, LookupExtends.refl _⟩
  | none =>
      have absent : strings.entries.toList.lookup text = none := known
      refine ⟨?_, ?_⟩
      · simp [UserStrings.token?, List.lookup_append, absent]
      · simp only [Array.toList_push]
        exact LookupExtends.append _ _

section Replaced

variable {entries : List (String × Token)} {text other : String} {token : Token}

theorem lookup_replaced_of_ne (different : other ≠ text) :
    (entries.map fun entry => if entry.1 == text then (text, token) else entry).lookup other =
      entries.lookup other := by
  induction entries with
  | nil => rfl
  | cons entry rest inductionHypothesis =>
      rcases entry with ⟨key, value⟩
      rw [List.map_cons]
      by_cases same : key = text
      · have elsewhere : (other == text) = false := beq_eq_false_iff_ne.mpr different
        rw [if_pos (beq_iff_eq.mpr same), List.lookup_cons, List.lookup_cons, same, elsewhere]
        exact inductionHypothesis
      · rw [if_neg (fun equal => same (beq_iff_eq.mp equal)), List.lookup_cons, List.lookup_cons,
          inductionHypothesis]

theorem lookup_replaced_self (known : (entries.lookup text).isSome = true) :
    (entries.map fun entry => if entry.1 == text then (text, token) else entry).lookup text =
      some token := by
  induction entries with
  | nil => cases known
  | cons entry rest inductionHypothesis =>
      rcases entry with ⟨key, value⟩
      rw [List.map_cons]
      by_cases same : key = text
      · rw [if_pos (beq_iff_eq.mpr same), List.lookup_cons_self]
      · have elsewhere : (text == key) = false := beq_eq_false_iff_ne.mpr (Ne.symm same)
        rw [List.lookup_cons, elsewhere] at known
        rw [if_neg (fun equal => same (beq_iff_eq.mp equal)), List.lookup_cons, elsewhere]
        exact inductionHypothesis known

end Replaced

theorem token?_seed (strings : UserStrings) (text other : String) (token : Token) :
    (strings.seed text token).token? other =
      if other = text then some token else strings.token? other := by
  by_cases known : (strings.token? text).isSome = true
  · have entries : (strings.seed text token).entries.toList = strings.entries.toList.map fun entry =>
        if entry.1 == text then (text, token) else entry := by
      rw [UserStrings.seed, if_pos known, Array.toList_map]
    rw [UserStrings.token?, entries]
    split
    · rename_i same
      rw [same]
      exact lookup_replaced_self known
    · rename_i different
      exact lookup_replaced_of_ne different
  · have entries : (strings.seed text token).entries.toList =
        strings.entries.toList ++ [(text, token)] := by
      rw [UserStrings.seed, if_neg known, Array.toList_push]
    have absent : strings.entries.toList.lookup text = none := Option.not_isSome_iff_eq_none.mp known
    rw [UserStrings.token?, entries, List.lookup_append]
    split
    · rename_i same
      rw [same, absent]
      simp
    · rename_i different
      have elsewhere : (other == text) = false := beq_eq_false_iff_ne.mpr different
      rw [List.lookup_cons, elsewhere]
      simp [UserStrings.token?]

theorem token?_withStrings {emitter : Emitter} {known : List (String × Token)} {text : String}
    (member : text ∈ known.map Prod.fst) :
    ∃ token, (emitter.withStrings known).strings.token? text = some token ∧
      (text, token) ∈ known := by
  have general : ∀ (known : List (String × Token)) (strings : UserStrings),
      (∃ token, (known.foldl (fun strings entry => strings.seed entry.1 entry.2)
        strings).token? text = some token ∧ (text, token) ∈ known) ∨
      text ∉ known.map Prod.fst ∧
        (known.foldl (fun strings entry => strings.seed entry.1 entry.2)
          strings).token? text = strings.token? text := by
    intro known
    induction known with
    | nil => exact fun strings => Or.inr ⟨by simp, rfl⟩
    | cons entry rest inductionHypothesis =>
        intro strings
        rcases inductionHypothesis (strings.seed entry.1 entry.2) with
          ⟨token, found, later⟩ | ⟨absent, same⟩
        · exact Or.inl ⟨token, found, List.mem_cons_of_mem _ later⟩
        · rw [token?_seed] at same
          by_cases here : text = entry.1
          · rw [if_pos here] at same
            exact Or.inl ⟨entry.2, same, by rw [here]; exact List.mem_cons_self⟩
          · rw [if_neg here] at same
            exact Or.inr ⟨by simp [here, absent], same⟩
  rcases general known emitter.strings with found | ⟨absent, _⟩
  · exact found
  · exact absurd member absent

/-- The strings that are known once an operand is written. -/
def stringsAfter (strings : UserStrings) : Operand Nat → UserStrings
  | .string text => (strings.intern text).2
  | _ => strings

theorem stringsAfter_extends (strings : UserStrings) (operand : Operand Nat) :
    LookupExtends strings.entries.toList (stringsAfter strings operand).entries.toList := by
  cases operand with
  | string text => exact (intern_spec strings text).2
  | _ => exact LookupExtends.refl _

theorem run_operandBytes {info : OpcodeInfo} {operand : Operand Nat} {bytes : List UInt8}
    {before after : Emitter}
    (done : run (operandBytes info operand) before = (.ok bytes, after)) :
    operand.fits info.operand = true ∧
      operandEncoding (stringsAfter before.strings operand) operand = some bytes ∧
      after = { before with strings := stringsAfter before.strings operand } := by
  unfold operandBytes at done
  split at done
  case h_1 => simp at done
  case h_2 text kind =>
    simp only [internString, run_bind, run_get, run_set, run_pure, Prod.mk.injEq,
      Except.ok.injEq] at done
    rcases done with ⟨rfl, rfl⟩
    refine ⟨by rw [kind]; rfl, ?_, rfl⟩
    have interned := (intern_spec before.strings text).1
    simp only [stringsAfter, operandEncoding, interned, Option.map_some, tokenBytes]
  case h_8 value _ =>
    simp only [run_ite, run_pure, run_throw] at done
    split at done
    · rename_i kind
      simp only [Prod.mk.injEq, Except.ok.injEq] at done
      rcases done with ⟨rfl, rfl⟩
      exact ⟨by simp [Operand.fits, kind], rfl, rfl⟩
    · simp at done
  case h_9 => simp at done
  -- The kinds that are left write the token of what they name, or nothing.
  all_goals
    rename_i kind
    simp only [run_pure, Prod.mk.injEq, Except.ok.injEq] at done
    rcases done with ⟨rfl, rfl⟩
    exact ⟨by rw [kind]; rfl, rfl, rfl⟩

theorem effectCount_eq_error {count : Nat} {error : Error}
    (failed : effectCount count = .error error) : error = .malformed (.effectTooLarge count) := by
  unfold effectCount at failed
  split at failed
  · cases failed
  · exact (Except.error.inj failed).symm

theorem stackEffect_eq_error {opcode : Opcode} {info : OpcodeInfo} {operand : Operand Nat}
    {depth : Int} {error : Error} (failed : stackEffect opcode info operand depth = .error error) :
    (∃ count, error = .malformed (.effectTooLarge count)) ∨
      error = .notSupported (.unknownEffect info.mnemonic) := by
  unfold stackEffect at failed
  dsimp only at failed
  split at failed
  · cases failed
  · rcases bind_eq_error.mp failed with early | ⟨_, _, late⟩
    · exact Or.inl ⟨_, effectCount_eq_error early⟩
    · cases late
  · split at failed
    · cases failed
    · exact Or.inr (Except.error.inj failed).symm

/-- The piece of code that an instruction is written as. -/
inductive Writes (strings : UserStrings) (opcode : Opcode) (info : OpcodeInfo) :
    Operand Nat → Piece → Prop
  | plain {operand : Operand Nat} {bytes : List UInt8}
      (fits : operand.fits info.operand = true)
      (encoding : operandEncoding strings operand = some bytes) :
      Writes strings opcode info operand (.plain (opcode.bytes ++ bytes))
  | branch {target : Nat} (kind : info.operand = .branch) :
      Writes strings opcode info (.label target) (.branch opcode target)
  | narrowBranch {target : Nat} (kind : info.operand = .shortBranch) :
      Writes strings opcode info (.label target) (.narrowBranch opcode target)
  | switch {targets : List Nat} (kind : info.operand = .switch)
      (small : targets.length ≤ 0xFFFFFFFF) :
      Writes strings opcode info (.switch targets) (.switch targets)

/-- An operand that is written has the kind that its opcode asks for, and a
signature is never written. -/
theorem Writes.fits {strings : UserStrings} {opcode : Opcode} {info : OpcodeInfo}
    {operand : Operand Nat} {piece : Piece} (writes : Writes strings opcode info operand piece) :
    operand.fits info.operand = true ∧ info.operand ≠ .signature := by
  cases writes with
  | plain fits encoding =>
      refine ⟨fits, ?_⟩
      intro kind
      rw [kind] at fits
      cases operand with
      | signature blob => cases encoding
      | immediate value => cases value <;> cases fits
      | _ => cases fits
  | branch kind => rw [kind]; exact ⟨rfl, nofun⟩
  | narrowBranch kind => rw [kind]; exact ⟨rfl, nofun⟩
  | switch kind => rw [kind]; exact ⟨rfl, nofun⟩

structure Emits (opcode : Opcode) (info : OpcodeInfo) (operand : Operand Nat) (pops pushes : Int)
    (before after : Emitter) : Prop where
  written : ∃ piece, Writes after.strings opcode info operand piece ∧
    after.pieces = before.pieces.push piece
  strings : LookupExtends before.strings.entries.toList after.strings.entries.toList
  follows : Follows before.reachable before.depth before.maxDepth pops pushes after.depth
    after.maxDepth
  entered : before.reachable = true →
    ∀ label ∈ operand.targets, after.labelDepths.lookup label = some after.depth
  labelDepths : Learns after.depth before.labelDepths after.labelDepths
  marks : after.marks = before.marks
  locals : after.locals = before.locals

theorem targets_of_operandEncoding {strings : UserStrings} {operand : Operand Nat}
    {bytes : List UInt8} (encoding : operandEncoding strings operand = some bytes) :
    operand.targets = [] := by
  cases operand <;> first | rfl | cases encoding

theorem emits_branch {opcode : Opcode} {info : OpcodeInfo} {target : Nat} {pops pushes : Int}
    {piece : Piece} {before after : Emitter}
    (writes : ∀ strings, Writes strings opcode info (.label target) piece)
    (done : run (do
      pushPiece piece
      updateDepth info.mnemonic pops pushes
      recordDepth target) before = (.ok (), after)) :
    Emits opcode info (.label target) pops pushes before after ∧
      after.reachable = before.reachable := by
  rw [pushPiece, run_bind, run_modify] at done
  obtain ⟨_, middle, updated, recorded⟩ := run_bind_eq_ok.mp done
  obtain ⟨depth, maxDepth, follows, rfl⟩ := run_updateDepth updated
  obtain ⟨labelDepths, records, rfl⟩ := run_recordDepth recorded
  exact
    ⟨{ written := ⟨piece, writes _, rfl⟩
       strings := LookupExtends.refl _
       follows := follows
       entered := records.entered
       labelDepths := records.learns
       marks := rfl
       locals := rfl }, rfl⟩

theorem run_emitPiece {opcode : Opcode} {info : OpcodeInfo} {operand : Operand Nat}
    {pops pushes : Int} {before after : Emitter}
    (done : run (emitPiece opcode info operand pops pushes) before = (.ok (), after)) :
    Emits opcode info operand pops pushes before after ∧
      after.reachable = before.reachable := by
  unfold emitPiece at done
  split at done
  case h_1 target kind => exact emits_branch (fun _ => .narrowBranch kind) done
  case h_2 target kind => exact emits_branch (fun _ => .branch kind) done
  case h_3 targets kind =>
    obtain ⟨_, middle, updated, rest⟩ := run_bind_eq_ok.mp done
    obtain ⟨_, last, recorded, rest⟩ := run_bind_eq_ok.mp rest
    obtain ⟨depth, maxDepth, follows, rfl⟩ := run_updateDepth updated
    obtain ⟨labelDepths, records, rfl⟩ := run_recordDepths recorded
    simp only [run_ite, run_bind, run_throw, pushPiece, run_modify] at rest
    split at rest
    · simp at rest
    · rename_i small
      simp only [Prod.mk.injEq, true_and] at rest
      subst rest
      exact
        ⟨{ written := ⟨_, .switch kind (Nat.le_of_not_lt small), rfl⟩
           strings := LookupExtends.refl _
           follows := follows
           entered := records.entered
           labelDepths := records.learns
           marks := rfl
           locals := rfl }, rfl⟩
  case h_7 =>
    obtain ⟨bytes, middle, encoded, rest⟩ := run_bind_eq_ok.mp done
    obtain ⟨fits, encoding, rfl⟩ := run_operandBytes encoded
    rw [pushPiece, run_bind, run_modify] at rest
    obtain ⟨depth, maxDepth, follows, rfl⟩ := run_updateDepth rest
    exact
      ⟨{ written := ⟨_, .plain fits encoding, rfl⟩
         strings := stringsAfter_extends _ _
         follows := follows
         entered := by simp [targets_of_operandEncoding encoding]
         labelDepths := Learns.refl _ _
         marks := rfl
         locals := rfl }, rfl⟩
  all_goals simp at done

/-- A successful emission follows the stack through the declared effect of the
instruction, and what is behind a transfer without condition is unreachable. -/
theorem run_emit {opcode : Opcode} {operand : Operand Nat} {before after : Emitter}
    (done : run (emit opcode operand) before = (.ok (), after)) :
    ∃ info pops pushes, opcode.info? = some info ∧
      stackEffect opcode info operand before.depth = .ok (pops, pushes) ∧
      Emits opcode info operand pops pushes before after ∧
      after.reachable = (before.reachable && !info.flow.endsPath) := by
  unfold emit at done
  cases found : opcode.info? with
  | none => simp [found] at done
  | some info =>
      simp only [found] at done
      rw [run_bind, run_get] at done
      obtain ⟨effect, middle, followed, rest⟩ := run_bind_eq_ok.mp done
      simp only [run_ofExcept, Prod.mk.injEq] at followed
      rcases followed with ⟨effectEq, rfl⟩
      obtain ⟨_, written, emitted, ended⟩ := run_bind_eq_ok.mp rest
      obtain ⟨emits, sameReachable⟩ := run_emitPiece emitted
      refine ⟨info, effect.1, effect.2, rfl, effectEq, ?_⟩
      simp only [run_ite, run_modify, run_pure] at ended
      split at ended
      · rename_i ends
        simp only [Prod.mk.injEq, true_and] at ended
        subst ended
        exact
          ⟨⟨emits.written, emits.strings, emits.follows, emits.entered, emits.labelDepths,
            emits.marks, emits.locals⟩, by simp [ends]⟩
      · rename_i continues
        simp only [Prod.mk.injEq, true_and] at ended
        subst ended
        exact ⟨emits, by simp [sameReachable, continues]⟩

/-- What is known after a label was marked.  Where control arrives from nowhere
that is known, the stack is taken to be empty, and this is not remembered. -/
structure Marks (label : Nat) (before after : Emitter) : Prop where
  unmarked : before.marks[label]? = some none
  marks : after.marks = before.marks.setIfInBounds label (some before.pieces.size)
  reachable : after.reachable = true
  arrives : before.reachable = true →
    after.depth = before.depth ∧ after.labelDepths.lookup label = some after.depth
  entered : before.reachable = false →
    before.labelDepths.lookup label = some after.depth ∨
      before.labelDepths.lookup label = none ∧ after.depth = 0
  labelDepths : Learns after.depth before.labelDepths after.labelDepths
  pieces : after.pieces = before.pieces
  locals : after.locals = before.locals
  strings : after.strings = before.strings
  maxDepth : after.maxDepth = before.maxDepth

def withMark (emitter : Emitter) (label : Nat) : Emitter :=
  { emitter with marks := emitter.marks.setIfInBounds label (some emitter.pieces.size) }

/-- The emitter behind a mark that is entered with some depth. -/
def entered (emitter : Emitter) (label : Nat) (depth : Int) (labelDepths : List (Nat × Int)) :
    Emitter :=
  { emitter.withMark label with depth := depth, labelDepths := labelDepths, reachable := true }

theorem marks_entered {label : Nat} {before : Emitter} {depth : Int}
    {labelDepths : List (Nat × Int)} (unmarked : before.marks[label]? = some none)
    (arrives : before.reachable = true →
      depth = before.depth ∧ labelDepths.lookup label = some depth)
    (entered : before.reachable = false →
      before.labelDepths.lookup label = some depth ∨
        before.labelDepths.lookup label = none ∧ depth = 0)
    (learns : Learns depth before.labelDepths labelDepths) :
    Marks label before (before.entered label depth labelDepths) where
  unmarked := unmarked
  marks := rfl
  reachable := rfl
  arrives := arrives
  entered := entered
  labelDepths := learns
  pieces := rfl
  locals := rfl
  strings := rfl
  maxDepth := rfl

theorem marks_of_unreachable {label : Nat} {before : Emitter} {depth : Int}
    {labelDepths : List (Nat × Int)} (unmarked : before.marks[label]? = some none)
    (unreachable : before.reachable = false)
    (entered : before.labelDepths.lookup label = some depth ∨
      before.labelDepths.lookup label = none ∧ depth = 0)
    (learns : Learns depth before.labelDepths labelDepths) :
    Marks label before (before.entered label depth labelDepths) := by
  refine marks_entered unmarked ?_ (fun _ => entered) learns
  intro reached
  rw [unreachable] at reached
  cases reached

theorem marks_of_reachable {label : Nat} {before : Emitter} {labelDepths : List (Nat × Int)}
    (unmarked : before.marks[label]? = some none) (reachable : before.reachable = true)
    (known : labelDepths.lookup label = some before.depth)
    (learns : Learns before.depth before.labelDepths labelDepths) :
    Marks label before (before.entered label before.depth labelDepths) := by
  refine marks_entered unmarked (fun _ => ⟨rfl, known⟩) ?_ learns
  intro unreached
  rw [reachable] at unreached
  cases unreached

theorem run_enterLabel {label : Nat} {before after : Emitter}
    (unmarked : before.marks[label]? = some none)
    (done : run (enterLabel label) (before.withMark label) = (.ok (), after)) :
    Marks label before after := by
  simp only [enterLabel, run_bind, run_get] at done
  have sameDepths : (before.withMark label).labelDepths = before.labelDepths := rfl
  have sameReachable : (before.withMark label).reachable = before.reachable := rfl
  have sameDepth : (before.withMark label).depth = before.depth := rfl
  rw [sameDepths, sameReachable] at done
  cases known : before.labelDepths.lookup label with
  | some expected =>
      cases reachable : before.reachable with
      | false =>
          simp only [known, reachable, Bool.not_false, if_true, run_bind, run_set, run_modify,
            Prod.mk.injEq, true_and] at done
          rw [← done]
          exact marks_of_unreachable unmarked reachable (Or.inl known) (Learns.refl _ _)
      | true =>
          simp only [known, reachable, Bool.not_true, Bool.false_eq_true, if_false, run_ite,
            sameDepth, run_bind, run_throw, run_modify] at done
          split at done
          · cases done
          · rename_i agree
            have same : expected = before.depth := Decidable.not_not.mp agree
            simp only [Prod.mk.injEq, true_and] at done
            rw [← done]
            exact marks_of_reachable unmarked reachable (known.trans (by rw [same]))
              (Learns.refl _ _)
  | none =>
      cases reachable : before.reachable with
      | false =>
          simp only [known, reachable, Bool.false_eq_true, if_false, run_bind, run_set, run_modify,
            Prod.mk.injEq, true_and] at done
          rw [← done]
          exact marks_of_unreachable unmarked reachable (Or.inr ⟨known, rfl⟩) (Learns.refl _ _)
      | true =>
          simp only [known, reachable, if_true, run_bind, run_set, run_modify, Prod.mk.injEq,
            true_and] at done
          rw [← done]
          exact marks_of_reachable unmarked reachable List.lookup_cons_self (Learns.cons _ known)

theorem run_markLabel {label : Nat} {before after : Emitter}
    (done : run (markLabel label) before = (.ok (), after)) : Marks label before after := by
  simp only [markLabel, run_bind, run_get, run_ite, run_throw] at done
  split at done
  · cases done
  · cases found : before.marks[label]? with
    | none => simp [found] at done
    | some mark =>
        cases mark with
        | some position => simp [found] at done
        | none =>
            simp only [found] at done
            exact run_enterLabel found done

end Emitter
end CilTemplate
