import CilTemplate.Proofs.Emission.Reached

/-
Which branches of finished code are short, and where they lead.  A branch that
was emitted in its long form is narrowed on the distances of the layout in which
it is still long.  Narrowing only brings places closer, so a branch that reaches
its target goes on reaching it.
-/

namespace CilTemplate

open CilTemplate.Action

theorem Opcode.size_of_narrowed? {opcode short : Opcode} (narrow : opcode.narrowed? = some short) :
    opcode.size = 1 ∧ short.size = 1 := by
  have conditions : ∀ condition ∈ BranchCondition.all,
      condition.longOpcode.size = 1 ∧ condition.shortOpcode.size = 1 := by decide
  unfold Opcode.narrowed? at narrow
  split at narrow
  · rename_i isLeave
    rw [isLeave, ← Option.some.inj narrow]
    decide
  · obtain ⟨condition, _, chosen⟩ := Option.bind_eq_some_iff.mp narrow
    split at chosen
    · rename_i isLong
      rw [← isLong, ← Option.some.inj chosen]
      exact conditions condition condition.mem_all
    · cases chosen

namespace Piece

def targets : Piece → List Nat
  | plain _ => []
  | branch _ target => [target]
  | narrowBranch _ target => [target]
  | switch targets => targets

theorem Narrows.targets_eq {piece narrow : Piece} (narrows : Narrows piece narrow) :
    narrow.targets = piece.targets := by
  cases narrows <;> rfl

theorem startOf_cons_succ (piece : Piece) (rest : List Piece) (index : Nat) :
    startOf (piece :: rest) (index + 1) = piece.size + startOf rest index := by
  simp [startOf]

theorem startOf_set_of_le {pieces : List Piece} {index place : Nat} (narrow : Piece)
    (order : place ≤ index) : startOf (pieces.set index narrow) place = startOf pieces place := by
  rw [startOf, List.take_set_of_le order]
  rfl

theorem startOf_set_of_lt {pieces : List Piece} {index place : Nat} {piece : Piece}
    (found : pieces[index]? = some piece) (narrow : Piece) (order : index < place) :
    startOf (pieces.set index narrow) place + piece.size =
      startOf pieces place + narrow.size := by
  induction pieces generalizing index place with
  | nil => cases found
  | cons first rest inductionHypothesis =>
      obtain ⟨later, rfl⟩ := Nat.exists_eq_succ_of_ne_zero (Nat.ne_zero_of_lt order)
      cases index with
      | zero =>
          rw [← Option.some.inj found]
          simp only [List.set_cons_zero, startOf_cons_succ]
          omega
      | succ index =>
          have moved := inductionHypothesis found (Nat.lt_of_succ_lt_succ order)
          simp only [List.set_cons_succ, startOf_cons_succ]
          omega

end Piece

namespace Layout

open Piece (startOf)

variable {layout after : Layout} {index place label target rounds : Nat} {piece : Piece}
  {opcode short : Opcode} {error : Error}

/-- The distance from the end of a piece to a place between pieces. -/
def distance (layout : Layout) (index place : Nat) : Int :=
  (startOf layout.pieces place : Int) - startOf layout.pieces (index + 1)

/-- The layout with another form of one of its pieces; whatever stands behind it
moves. -/
def reshaped (layout : Layout) (index : Nat) (form : Piece) : Layout :=
  { layout with pieces := layout.pieces.set index form }

theorem reshaped_self (here : layout.pieces[index]? = some piece) :
    layout.reshaped index piece = layout := by
  obtain ⟨bound, rfl⟩ := List.getElem?_eq_some_iff.mp here
  rw [reshaped, List.set_getElem_self]

def Marked (layout : Layout) (label : Nat) : Prop :=
  ∃ place : Nat, layout.marks[label]? = some (some place)

/-- An offset of one byte leads from the end of a piece to a label. -/
def InReach (layout : Layout) (index label : Nat) : Prop :=
  ∃ place : Nat, layout.marks[label]? = some (some place) ∧
    -128 ≤ layout.distance index place ∧ layout.distance index place ≤ 127

section Narrowed

theorem NarrowsTo.here (narrows : NarrowsTo layout after)
    (there : after.pieces[index]? = some piece) :
    ∃ before, layout.pieces[index]? = some before ∧ Piece.Narrows before piece := by
  obtain ⟨bound, _⟩ := List.getElem?_eq_some_iff.mp there
  have before := List.getElem?_eq_getElem (narrows.length ▸ bound)
  exact ⟨_, before, narrows.each before there⟩

theorem NarrowsTo.there (narrows : NarrowsTo layout after)
    (here : layout.pieces[index]? = some piece) :
    ∃ narrow, after.pieces[index]? = some narrow ∧ Piece.Narrows piece narrow := by
  obtain ⟨bound, _⟩ := List.getElem?_eq_some_iff.mp here
  have narrow := List.getElem?_eq_getElem (narrows.length.symm ▸ bound)
  exact ⟨_, narrow, narrows.each here narrow⟩

/-- Where nothing is left to be narrowed, a long branch is too far from its
target.  A target in front of it would have to be three bytes closer than the
short form needs it. -/
theorem far_of_settled (settled : Settled layout)
    (here : layout.pieces[index]? = some (.branch opcode target))
    (narrow : opcode.narrowed? = some short) :
    ∃ place : Nat, layout.marks[target]? = some (some place) ∧
      let shortened := layout.reshaped index (.narrowBranch short target)
      shortened.distance index place < -128 ∨ 124 < shortened.distance index place := by
  obtain ⟨narrowings, done, allNone⟩ := settled
  obtain ⟨length, each⟩ := narrowings_eq_ok.mp done
  obtain ⟨bound, _⟩ := List.getElem?_eq_some_iff.mp here
  have found := List.getElem?_eq_getElem (length ▸ bound)
  have isNone := List.all_eq_true.mp allNone _ (List.mem_of_getElem? found)
  generalize narrowings[index] = narrowing at found isNone
  cases each here found with
  | keeps other => exact absurd narrow (other opcode target short rfl)
  | @branch _ _ _ place distance _ reaches =>
      refine ⟨place, reaches.marked, ?_⟩
      have tooFar : ¬(-128 ≤ distance ∧ distance ≤ 127) := by
        intro near
        have fits : fitsByte distance = true := decide_eq_true near
        rw [if_pos fits] at isNone
        cases isNone
      have away := reaches.distance_eq
      obtain ⟨longSize, shortSize⟩ := Opcode.size_of_narrowed? narrow
      have next := Piece.startOf_succ here
      have ends := Piece.startOf_set_of_lt here (.narrowBranch short target) (Nat.lt_add_one index)
      simp only [Piece.size, longSize, shortSize] at next ends
      simp only [Layout.distance, reshaped]
      rcases Nat.lt_or_ge index place with ahead | back
      · have moved := Piece.startOf_set_of_lt here (.narrowBranch short target) ahead
        have order := @startOf_le layout.pieces (index + 1) _ ahead
        simp only [Piece.size, longSize, shortSize] at moved
        omega
      · have same := @Piece.startOf_set_of_le layout.pieces _ _ (.narrowBranch short target) back
        have order := @startOf_le layout.pieces _ _ back
        omega

/-- Narrowing brings a place closer to a piece: one behind the piece stays behind
it, and one in front of it comes closer by what the piece itself gives up. -/
theorem distance_closer {narrow : Piece} (narrows : NarrowsTo layout after)
    (here : layout.pieces[index]? = some piece) (there : after.pieces[index]? = some narrow)
    (bound : place ≤ layout.pieces.length) :
    (0 ≤ after.distance index place ∧ after.distance index place ≤ layout.distance index place) ∨
      (layout.distance index place + piece.size ≤ after.distance index place + narrow.size ∧
        after.distance index place + narrow.size ≤ 0) := by
  obtain ⟨inside, _⟩ := List.getElem?_eq_some_iff.mp here
  have next := Piece.startOf_succ here
  have nextAfter := Piece.startOf_succ there
  simp only [Layout.distance]
  rcases Nat.lt_or_ge index place with ahead | back
  · have closer := @startOf_add_le layout after narrows (index + 1) _ ahead bound
    have order := @startOf_le after.pieces (index + 1) _ ahead
    omega
  · have closer := startOf_add_le narrows back (Nat.le_of_lt inside)
    have order := @startOf_le after.pieces _ _ back
    omega

/-- A branch that was narrowed reaches its target, and where this lies in front
of it three bytes are to spare.  By induction on the rounds: later rounds only
bring the target closer. -/
theorem near_of_narrow (done : layout.narrow rounds = .ok after)
    (here : layout.pieces[index]? = some (.branch opcode target))
    (there : after.pieces[index]? = some (.narrowBranch short target)) :
    ∃ place : Nat, after.marks[target]? = some (some place) ∧
      -128 ≤ after.distance index place ∧ after.distance index place ≤ 124 := by
  induction rounds generalizing layout with
  | zero =>
      rw [Except.ok.inj done, there] at here
      cases here
  | succ rounds inductionHypothesis =>
      have narrows := narrowsTo_of_narrow done
      obtain ⟨narrowings, found, _⟩ := bind_eq_ok.mp done
      obtain ⟨length, each⟩ := narrowings_eq_ok.mp found
      obtain ⟨bound, _⟩ := List.getElem?_eq_some_iff.mp here
      have known := List.getElem?_eq_getElem (length ▸ bound)
      have taken := getElem?_taking here known
      have finds := each here known
      rw [narrow_succ found] at done
      split at done
      · rw [Except.ok.inj done, there] at here
        cases here
      · generalize narrowings[index] = narrowing at known taken finds
        cases finds with
        | keeps => exact inductionHypothesis done taken
        | @branch _ _ _ place distance narrow reaches =>
            by_cases fits : fitsByte distance = true
            · have near := of_decide_eq_true fits
              have away := reaches.distance_eq
              obtain ⟨longSize, shortSize⟩ := Opcode.size_of_narrowed? narrow
              have next := Piece.startOf_succ here
              have closer := distance_closer narrows here there reaches.bound
              refine ⟨place, by rw [narrows.marks]; exact reaches.marked, ?_⟩
              cases narrows.each here there with
              | branch sameNarrow =>
                  obtain rfl := Option.some.inj (sameNarrow.symm.trans narrow)
                  have apart : layout.distance index place =
                      startOf layout.pieces place - startOf layout.pieces (index + 1) := rfl
                  simp only [Piece.size, longSize, shortSize] at next closer
                  omega
            · rw [if_neg fits] at taken
              exact inductionHypothesis done taken

theorem InReach.narrows (narrows : NarrowsTo layout after)
    (here : layout.pieces[index]? = some (.narrowBranch opcode target))
    (reach : layout.InReach index target) (sound : layout.Sound) : after.InReach index target := by
  obtain ⟨place, marked, low, high⟩ := reach
  obtain ⟨narrow, there, same⟩ := narrows.there here
  cases same
  have closer := distance_closer narrows here there (sound.marks marked)
  refine ⟨place, by rw [narrows.marks]; exact marked, ?_⟩
  omega

end Narrowed

section Failures

/-- The code is small enough for every offset of four bytes. -/
def Small (layout : Layout) : Prop :=
  startOf layout.pieces layout.pieces.length < 0x80000000

theorem Small.startOf_lt (small : layout.Small) (bound : index ≤ layout.pieces.length) :
    startOf layout.pieces index < 0x80000000 :=
  Nat.lt_of_le_of_lt (startOf_le bound) small

variable (sound : layout.Sound) (small : layout.Small)

include sound small

end Failures

section Resolved

variable {next : Nat} {bytes : List UInt8}

theorem Resolves.marked (resolves : Resolves layout next piece bytes) :
    ∀ label ∈ piece.targets, layout.Marked label := by
  intro label member
  cases resolves with
  | plain => cases member
  | branch reaches =>
      rw [List.mem_singleton.mp member]
      exact ⟨_, reaches.marked⟩
  | narrowBranch reaches =>
      rw [List.mem_singleton.mp member]
      exact ⟨_, reaches.marked⟩
  | switch length each =>
      obtain ⟨index, here⟩ := List.mem_iff_getElem?.mp member
      obtain ⟨bound, _⟩ := List.getElem?_eq_some_iff.mp here
      obtain ⟨place, reaches⟩ := each here (List.getElem?_eq_getElem (length.symm ▸ bound))
      exact ⟨place, reaches.marked⟩

end Resolved

end Layout

namespace Emitter

open Piece (startOf)

variable {emitter : Emitter} {layout : Layout} {error : Error}

theorem finish_eq_ok {body : EmittedBody} (finished : emitter.finish = .ok body) :
    ∃ layout, emitter.layout.narrowed = .ok layout ∧ layout.code = .ok body.code := by
  obtain ⟨layout, narrowed, rest⟩ := bind_eq_ok.mp finished
  obtain ⟨code, written, together⟩ := bind_eq_ok.mp rest
  rw [← Except.ok.inj together]
  exact ⟨layout, narrowed, written⟩

theorem branch_of_narrowed {index target : Nat} {opcode short : Opcode}
    (narrowed : emitter.layout.narrowed = .ok layout)
    (here : emitter.layout.pieces[index]? = some (.branch opcode target))
    (narrow : opcode.narrowed? = some short) :
    layout.pieces[index]? = some (.branch opcode target) ∨
      layout.pieces[index]? = some (.narrowBranch short target) := by
  obtain ⟨form, there, narrows⟩ := (Layout.narrowsTo_of_narrow narrowed).there here
  cases narrows with
  | same => exact Or.inl there
  | branch chosen =>
      rw [Option.some.inj (narrow.symm.trans chosen)]
      exact Or.inr there

/-- In finished code a branch that was emitted long is still long exactly if its
target, with this branch alone made short, lies outside of -128 to 124.  So a
short form could lead further forward than it is used for. -/
theorem long_branches_too_far (reached : Reached emitter) {body : EmittedBody}
    (finished : emitter.finish = .ok body) :
    ∃ layout, emitter.layout.narrowed = .ok layout ∧ layout.code = .ok body.code ∧
      ∀ {index target : Nat} {opcode : Opcode},
        emitter.pieces[index]? = some (.branch opcode target) →
          ∃ (short : Opcode) (place : Nat), opcode.narrowed? = some short ∧
            layout.marks[target]? = some (some place) ∧
            let shortened := layout.reshaped index (.narrowBranch short target)
            let distance := shortened.distance index place
            layout.pieces[index]? = some (.branch opcode target) ∧
                (distance < -128 ∨ 124 < distance) ∨
              layout.pieces[index]? = some (.narrowBranch short target) ∧
                -128 ≤ distance ∧ distance ≤ 124 := by
  obtain ⟨layout, narrowed, written⟩ := finish_eq_ok finished
  refine ⟨layout, narrowed, written, ?_⟩
  intro index target opcode emitted
  have here : emitter.layout.pieces[index]? = some (.branch opcode target) := by
    rw [← emitted]
    exact Array.getElem?_toList
  obtain ⟨short, narrow⟩ := reached.sound.branches (List.mem_of_getElem? here)
  rcases branch_of_narrowed narrowed here narrow with long | isShort
  · obtain ⟨place, marked, far⟩ :=
      Layout.far_of_settled (Layout.settled_of_narrowed narrowed) long narrow
    exact ⟨short, place, narrow, marked, Or.inl ⟨long, far⟩⟩
  · obtain ⟨place, marked, near⟩ := Layout.near_of_narrow narrowed here isShort
    refine ⟨short, place, narrow, marked, Or.inr ⟨isShort, ?_⟩⟩
    rw [Layout.reshaped_self isShort]
    exact near

end Emitter

namespace ShortFormsSample

def loads (count : Nat) : List EmitterCall :=
  List.replicate count (.emit Opcode.ldcI4 (.immediate (.int32 0)))

def loadBytes (count : Nat) : List UInt8 :=
  (List.replicate count [0x20, 0x00, 0x00, 0x00, 0x00]).flatten

def emitterAfter (calls : List EmitterCall) : Emitter :=
  (run (EmitterCall.performAll calls) Emitter.empty).2

theorem emitterAfter_reached (calls : List EmitterCall) : Emitter.Reached (emitterAfter calls) :=
  Emitter.Reached.start.performAll calls

def forward (count : Nat) : List EmitterCall :=
  [.defineLabel, .emit BranchCondition.always.longOpcode (.label 0)] ++ loads count ++
    [.markLabel 0]

end ShortFormsSample

open ShortFormsSample in
theorem long_branches_too_far_of_forward :
    ∃ (body : EmittedBody) (layout : Layout) (short : Opcode) (place : Nat),
      (emitterAfter (forward 24)).finish = .ok body ∧ layout.code = .ok body.code ∧
      layout.marks[0]? = some (some place) ∧
      let shortened := layout.reshaped 0 (.narrowBranch short 0)
      let distance := shortened.distance 0 place
      layout.pieces[0]? = some (.branch BranchCondition.always.longOpcode 0) ∧
          (distance < -128 ∨ 124 < distance) ∨
        layout.pieces[0]? = some (.narrowBranch short 0) ∧ -128 ≤ distance ∧ distance ≤ 124 := by
  have finished : (emitterAfter (forward 24)).finish =
      .ok ⟨[0x2B, 0x78] ++ loadBytes 24, 24, [], []⟩ :=
    eq_ok_of_toOption (by decide +kernel)
  obtain ⟨layout, _, written, each⟩ :=
    Emitter.long_branches_too_far (emitterAfter_reached (forward 24)) finished
  have emitted : (emitterAfter (forward 24)).pieces[0]? =
      some (.branch BranchCondition.always.longOpcode 0) := by
    decide +kernel
  obtain ⟨short, place, _, marked, form⟩ := each emitted
  exact ⟨_, layout, short, place, finished, written, marked, form⟩

open ShortFormsSample in
/-- A branch stays long although its target lies in reach of its short form. -/
theorem long_branch_in_reach :
    ∃ (body : EmittedBody) (layout : Layout) (place : Nat),
      (emitterAfter (forward 25)).finish = .ok body ∧
      (emitterAfter (forward 25)).layout.narrowed = .ok layout ∧
      layout.code = .ok body.code ∧
      layout.pieces[0]? = some (.branch BranchCondition.always.longOpcode 0) ∧
      layout.marks[0]? = some (some place) ∧
      Layout.distance (layout.reshaped 0 (.narrowBranch BranchCondition.always.shortOpcode 0)) 0
        place = 125 := by
  have finished : (emitterAfter (forward 25)).finish =
      .ok ⟨[0x38, 0x7D, 0x00, 0x00, 0x00] ++ loadBytes 25, 25, [], []⟩ :=
    eq_ok_of_toOption (by decide +kernel)
  obtain ⟨layout, narrowed, written⟩ := Emitter.finish_eq_ok finished
  have outcome : ((emitterAfter (forward 25)).layout.narrowed.toOption.map fun layout =>
      (layout.pieces[0]?, layout.marks[0]?,
        Layout.distance
          (layout.reshaped 0 (.narrowBranch BranchCondition.always.shortOpcode 0)) 0 26)) =
      some (some (.branch BranchCondition.always.longOpcode 0), some (some 26), 125) := by
    decide +kernel
  rw [narrowed] at outcome
  simp only [Except.toOption, Option.map_some, Option.some.injEq, Prod.mk.injEq] at outcome
  obtain ⟨here, marked, distance⟩ := outcome
  exact ⟨_, layout, 26, finished, narrowed, written, here, marked, distance⟩

namespace Emitter

variable {emitter : Emitter} {layout : Layout} {error : Error}

section Finish

variable (reached : Reached emitter) (small : emitter.position < 0x80000000)

include reached small

end Finish

end Emitter

end CilTemplate
