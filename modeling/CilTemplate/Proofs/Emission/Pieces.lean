import CilTemplate.Proofs.Emission.Encode
import CilTemplate.Proofs.Emission.Narrowing

/-
What was written so far does not matter for what is written next, except for
the number of pieces, which is what a mark remembers, and for their size, which
is limited.  So code that differs in its narrow forms is written alike.
-/

namespace CilTemplate

open CilTemplate.Action

namespace Emitter

variable {Result Next : Type}

def withPieces (emitter : Emitter) (pieces : Array Piece) : Emitter :=
  { emitter with pieces := pieces }

/-- An action neither looks at the pieces nor changes them. -/
def IgnoresPieces (action : Action Emitter Result) : Prop :=
  ∀ emitter pieces, run action (emitter.withPieces pieces) =
    ((run action emitter).1, (run action emitter).2.withPieces pieces)

namespace IgnoresPieces

theorem pure (value : Result) : IgnoresPieces (pure value : Action Emitter Result) :=
  fun _ _ => rfl

theorem throw (error : Error) : IgnoresPieces (throw error : Action Emitter Result) :=
  fun _ _ => rfl

theorem bind {action : Action Emitter Result} {next : Result → Action Emitter Next}
    (first : IgnoresPieces action) (rest : ∀ value, IgnoresPieces (next value)) :
    IgnoresPieces (action >>= next) := by
  intro emitter pieces
  rw [run_bind, run_bind, first emitter pieces]
  cases run action emitter with
  | mk result after =>
      cases result with
      | ok value => exact rest value after pieces
      | error error => rfl

theorem updateDepth (mnemonic : String) (pops pushes : Int) :
    IgnoresPieces (updateDepth mnemonic pops pushes) := by
  intro emitter pieces
  simp only [Emitter.updateDepth, run_bind, run_get, run_ite, run_set, run_throw, run_modify,
    withPieces]
  split
  · rfl
  · split <;> rfl

theorem recordDepth (label : Nat) : IgnoresPieces (recordDepth label) := by
  intro emitter pieces
  simp only [Emitter.recordDepth, run_bind, run_get, run_ite, run_pure, withPieces]
  split
  · split
    · simp only [run_ite, run_throw, run_pure]
      split <;> rfl
    · rfl
  · rfl

theorem recordDepths (labels : List Nat) : IgnoresPieces (recordDepths labels) := by
  induction labels with
  | nil => exact pure _
  | cons label rest inductionHypothesis =>
      exact bind (recordDepth label) fun _ => inductionHypothesis

theorem internString (text : String) : IgnoresPieces (internString text) :=
  fun _ _ => rfl

theorem operandBytes (info : OpcodeInfo) (operand : Operand Nat) :
    IgnoresPieces (operandBytes info operand) := by
  unfold Emitter.operandBytes
  dsimp only
  split
  case h_2 text _ => exact bind (internString text) fun _ => pure _
  case h_8 value _ =>
    split
    · exact pure _
    · exact throw _
  all_goals first | exact pure _ | exact throw _

end IgnoresPieces

/-- An action that succeeds adds a piece of code, whatever stands in front of
it. -/
def AddsPiece (action : Action Emitter Unit) (before after : Emitter) (piece : Piece) : Prop :=
  ∀ pieces, run action (before.withPieces pieces) = (.ok (), after.withPieces (pieces.push piece))

theorem addsPiece_pushPiece {piece : Piece} {before after : Emitter}
    (done : run (pushPiece piece) before = (.ok (), after)) :
    AddsPiece (pushPiece piece) before after piece := by
  simp only [pushPiece, run_modify, Prod.mk.injEq, true_and] at done
  rw [← done]
  exact fun _ => rfl

variable {before middle after : Emitter} {piece : Piece}

theorem AddsPiece.bind {action : Action Emitter Unit} {next : Unit → Action Emitter Unit}
    (adds : AddsPiece action before middle piece) (ignores : IgnoresPieces (next ()))
    (done : run (next ()) middle = (.ok (), after)) :
    AddsPiece (action >>= next) before after piece := by
  intro pieces
  have moved := ignores middle (pieces.push piece)
  rw [done] at moved
  rw [run_bind, adds pieces]
  exact moved

theorem IgnoresPieces.addsPiece {action : Action Emitter Result}
    {next : Result → Action Emitter Unit} {value : Result} (ignores : IgnoresPieces action)
    (done : run action before = (.ok value, middle))
    (adds : AddsPiece (next value) middle after piece) :
    AddsPiece (action >>= next) before after piece := by
  intro pieces
  have moved := ignores before pieces
  rw [done] at moved
  rw [run_bind, moved]
  exact adds pieces

theorem addsPiece_branch {mnemonic : String} {pops pushes : Int} {target : Nat}
    (done : run (do
      pushPiece piece
      updateDepth mnemonic pops pushes
      recordDepth target) before = (.ok (), after)) :
    AddsPiece (do
      pushPiece piece
      updateDepth mnemonic pops pushes
      recordDepth target) before after piece := by
  obtain ⟨_, middle, pushed, rest⟩ := run_bind_eq_ok.mp done
  exact (addsPiece_pushPiece pushed).bind
    (.bind (.updateDepth _ _ _) fun _ => .recordDepth target) rest

theorem addsPiece_emitPiece {opcode : Opcode} {info : OpcodeInfo} {operand : Operand Nat}
    {pops pushes : Int}
    (done : run (emitPiece opcode info operand pops pushes) before = (.ok (), after)) :
    ∃ piece, AddsPiece (emitPiece opcode info operand pops pushes) before after piece := by
  unfold emitPiece at done ⊢
  split at done
  case h_1 target kind => exact ⟨_, addsPiece_branch done⟩
  case h_2 target kind => exact ⟨_, addsPiece_branch done⟩
  case h_3 targets kind =>
    obtain ⟨_, middle, updated, rest⟩ := run_bind_eq_ok.mp done
    obtain ⟨_, last, recorded, rest⟩ := run_bind_eq_ok.mp rest
    refine ⟨.switch targets, (IgnoresPieces.updateDepth _ _ _).addsPiece updated
      ((IgnoresPieces.recordDepths targets).addsPiece recorded ?_)⟩
    dsimp only at rest ⊢
    split at rest
    · cases rest
    · rename_i small
      rw [if_neg small]
      exact addsPiece_pushPiece rest
  case h_7 =>
    obtain ⟨bytes, middle, encoded, rest⟩ := run_bind_eq_ok.mp done
    refine ⟨.plain (opcode.bytes ++ bytes), (IgnoresPieces.operandBytes _ _).addsPiece encoded ?_⟩
    obtain ⟨_, last, pushed, rest⟩ := run_bind_eq_ok.mp rest
    exact (addsPiece_pushPiece pushed).bind (.updateDepth _ _ _) rest
  all_goals simp at done

def closing (ends : Bool) : Action Emitter Unit :=
  if ends then modify fun emitter => { emitter with reachable := false } else pure ()

theorem ignoresPieces_closing (ends : Bool) : IgnoresPieces (closing ends) := by
  cases ends <;> exact fun _ _ => rfl

theorem emit_eq {opcode : Opcode} {info : OpcodeInfo} (known : opcode.info? = some info)
    (operand : Operand Nat) :
    emit opcode operand = (do
      let emitter ← get
      let (pops, pushes) ← Action.ofExcept (stackEffect opcode info operand emitter.depth)
      emitPiece opcode info operand pops pushes
      closing info.flow.endsPath) := by
  simp only [emit, known, closing]

theorem addsPiece_emit {opcode : Opcode} {operand : Operand Nat}
    (done : run (emit opcode operand) before = (.ok (), after)) :
    ∃ piece, AddsPiece (emit opcode operand) before after piece := by
  cases known : opcode.info? with
  | none =>
      simp only [emit, known] at done
      cases done
  | some info =>
      rw [emit_eq known] at done ⊢
      obtain ⟨_, _, unchanged, rest⟩ := run_bind_eq_ok.mp done
      obtain ⟨⟨⟩, ⟨⟩⟩ := Prod.mk.inj unchanged
      obtain ⟨⟨pops, pushes⟩, _, followed, rest⟩ := run_bind_eq_ok.mp rest
      obtain ⟨effect, ⟨⟩⟩ := Prod.mk.inj followed
      obtain ⟨_, middle, emitted, closed⟩ := run_bind_eq_ok.mp rest
      obtain ⟨piece, adds⟩ := addsPiece_emitPiece emitted
      have both := @AddsPiece.bind _ _ _ _ _ (fun _ => closing info.flow.endsPath) adds
        (ignoresPieces_closing _) closed
      refine ⟨piece, fun pieces => ?_⟩
      have sameEffect : stackEffect opcode info operand (before.withPieces pieces).depth =
          .ok (pops, pushes) := effect
      rw [run_bind, run_get]
      simp only [run_bind, run_ofExcept, sameEffect]
      rw [← run_bind]
      exact both pieces

theorem AddsPiece.pieces_eq {action : Action Emitter Unit}
    (adds : AddsPiece action before after piece)
    (done : run action before = (.ok (), after)) : after.pieces = before.pieces.push piece := by
  have same := adds before.pieces
  change run action before = _ at same
  rw [done] at same
  exact congrArg Emitter.pieces (Prod.mk.inj same).2

theorem ignoresPieces_enterLabel (label : Nat) : IgnoresPieces (enterLabel label) := by
  intro emitter pieces
  simp only [enterLabel, run_bind, run_get, withPieces]
  split
  · rw [run_ite, run_ite]
    split
    · rfl
    · split <;> rfl
  · rw [run_ite, run_ite]
    split <;> rfl

/-- The same emitter, except that its pieces may take less room. -/
structure Mirrors (left right : Emitter) : Prop where
  same : right = left.withPieces right.pieces
  count : right.pieces.size = left.pieces.size
  position_le : right.position ≤ left.position

variable {left right : Emitter}

theorem Mirrors.refl (emitter : Emitter) : Mirrors emitter emitter :=
  ⟨rfl, rfl, Nat.le_refl _⟩

theorem Mirrors.push (mirrors : Mirrors left right) {narrow : Piece}
    (pieces : after.pieces = left.pieces.push piece) (smaller : narrow.size ≤ piece.size) :
    Mirrors after (after.withPieces (right.pieces.push narrow)) := by
  refine ⟨rfl, ?_, ?_⟩
  · change (right.pieces.push narrow).size = _
    rw [pieces, Array.size_push, Array.size_push, mirrors.count]
  · change (right.pieces.push narrow).foldl _ 0 ≤ _
    rw [position, pieces, Array.foldl_push, Array.foldl_push]
    exact Nat.add_le_add mirrors.position_le smaller

theorem Mirrors.of_ignoresPieces {action : Action Emitter Result} {value : Result}
    (ignores : IgnoresPieces action) (mirrors : Mirrors left right)
    (done : run action left = (.ok value, after)) :
    ∃ last, run action right = (.ok value, last) ∧ Mirrors after last := by
  have kept := ignores left left.pieces
  change run action left = _ at kept
  have moved := ignores left right.pieces
  rw [done] at kept moved
  have same : after = after.withPieces left.pieces := (Prod.mk.inj kept).2
  have pieces := congrArg Emitter.pieces same
  change after.pieces = left.pieces at pieces
  refine ⟨after.withPieces right.pieces, ?_, rfl, ?_, ?_⟩
  · rw [mirrors.same]
    exact moved
  · rw [pieces]
    exact mirrors.count
  · have position : after.position = left.position := by rw [Emitter.position, pieces]; rfl
    rw [position]
    exact mirrors.position_le

theorem ignoresPieces_declareLocal (declaration : LocalDeclaration) :
    IgnoresPieces (declareLocal declaration) := by
  intro emitter pieces
  simp only [declareLocal, run_bind, run_get, run_ite, run_throw, run_modify, run_pure, withPieces]
  split <;> rfl

theorem Mirrors.emit {opcode : Opcode} {operand : Operand Nat} (mirrors : Mirrors left right)
    (done : run (emit opcode operand) left = (.ok (), after)) :
    ∃ last, run (Emitter.emit opcode operand) right = (.ok (), last) ∧ Mirrors after last := by
  obtain ⟨piece, adds⟩ := addsPiece_emit done
  refine ⟨_, ?_, mirrors.push (adds.pieces_eq done) (Nat.le_refl _)⟩
  rw [mirrors.same]
  exact adds right.pieces

theorem Mirrors.markLabel {label : Nat} (mirrors : Mirrors left right)
    (done : run (markLabel label) left = (.ok (), after)) :
    ∃ last, run (Emitter.markLabel label) right = (.ok (), last) ∧ Mirrors after last := by
  have position := mirrors.position_le
  have marks := run_markLabel done
  have kept : Mirrors after (after.withPieces right.pieces) :=
    ⟨rfl, by rw [marks.pieces]; exact mirrors.count, by
      simp only [Emitter.position, marks.pieces]
      exact position⟩
  refine ⟨_, ?_, kept⟩
  have sameMarks : right.marks = left.marks := by rw [mirrors.same]; rfl
  simp only [Emitter.markLabel, run_bind, run_get, run_ite, run_throw] at done ⊢
  split at done
  · cases done
  · rename_i short
    rw [if_neg (by omega), sameMarks, marks.unmarked, mirrors.count]
    rw [marks.unmarked] at done
    simp only [run_bind, run_set] at done ⊢
    have moved := ignoresPieces_enterLabel label (left.withMark label) right.pieces
    change run (enterLabel label) (left.withMark label) = _ at done
    rw [done] at moved
    rw [← moved, mirrors.same]
    rfl

theorem run_updateDepth_mnemonic {mnemonic : String} {pops pushes : Int}
    (done : run (updateDepth mnemonic pops pushes) before = (.ok (), after)) (other : String) :
    run (updateDepth other pops pushes) before = (.ok (), after) := by
  simp only [updateDepth, run_bind, run_get, run_ite, run_set, run_throw, run_modify] at done ⊢
  split at done
  · cases done
  · rename_i enough
    split at done
    · cases done
    · rename_i small
      rw [if_neg enough, if_neg small]
      exact done

theorem info?_leave : ∃ long short, Opcode.leave.info? = some ⟨long, .branch, 0, 0, .leave⟩ ∧
    Opcode.leaveS.info? = some ⟨short, .shortBranch, 0, 0, .leave⟩ :=
  ⟨"leave", "leave.s", by decide +kernel, by decide +kernel⟩

/-- A long and a short `leave` leave the same behind, except for their pieces. -/
theorem addsPiece_leave {long short : String} {label : Nat}
    (done : run (do
      emitPiece Opcode.leave ⟨long, .branch, 0, 0, .leave⟩ (.label label) 0 0
      closing true) before = (.ok (), after)) :
    after.pieces = before.pieces.push (.branch Opcode.leave label) ∧
      AddsPiece (do
        emitPiece Opcode.leaveS ⟨short, .shortBranch, 0, 0, .leave⟩ (.label label) 0 0
        closing true) before after (.narrowBranch Opcode.leaveS label) := by
  obtain ⟨_, middle, emitted, closed⟩ := run_bind_eq_ok.mp done
  have branch : AddsPiece (emitPiece Opcode.leave ⟨long, .branch, 0, 0, .leave⟩ (.label label) 0 0)
      before middle (.branch Opcode.leave label) := addsPiece_branch emitted
  obtain ⟨_, first, pushed, rest⟩ := run_bind_eq_ok.mp emitted
  obtain ⟨_, second, updated, recorded⟩ := run_bind_eq_ok.mp rest
  obtain ⟨_, ⟨⟩⟩ := Prod.mk.inj pushed
  have narrowRest : run (do
      updateDepth short 0 0
      recordDepth label) { before with pieces := before.pieces.push (.branch Opcode.leave label) } =
        (.ok (), middle) :=
    run_bind_eq_ok.mpr ⟨(), second, run_updateDepth_mnemonic updated short, recorded⟩
  have narrow : AddsPiece
      (emitPiece Opcode.leaveS ⟨short, .shortBranch, 0, 0, .leave⟩ (.label label) 0 0)
      before middle (.narrowBranch Opcode.leaveS label) := by
    have followed : IgnoresPieces (do
        updateDepth short 0 0
        recordDepth label) := .bind (.updateDepth _ _ _) fun _ => .recordDepth label
    intro pieces
    have moved := followed { before with pieces := before.pieces.push (.branch Opcode.leave label) }
      (pieces.push (.narrowBranch Opcode.leaveS label))
    rw [narrowRest] at moved
    exact moved
  have bindClosing {action : Action Emitter Unit} {piece : Piece}
      (adds : AddsPiece action before middle piece) : AddsPiece (do
        action
        closing true) before after piece :=
    @AddsPiece.bind _ _ _ _ _ (fun _ => closing true) adds (ignoresPieces_closing true) closed
  exact ⟨(bindClosing branch).pieces_eq done, bindClosing narrow⟩

theorem Mirrors.emitLeave {label : Nat} (mirrors : Mirrors left right)
    (done : run (Emitter.emit Opcode.leave (.label label)) left = (.ok (), after)) :
    ∃ last, run (Emitter.emit Opcode.leaveS (.label label)) right = (.ok (), last) ∧
      Mirrors after last := by
  obtain ⟨long, short, longKnown, shortKnown⟩ := info?_leave
  rw [emit_eq longKnown] at done
  obtain ⟨_, _, unchanged, rest⟩ := run_bind_eq_ok.mp done
  obtain ⟨⟨⟩, ⟨⟩⟩ := Prod.mk.inj unchanged
  obtain ⟨⟨pops, pushes⟩, _, followed, rest⟩ := run_bind_eq_ok.mp rest
  obtain ⟨effect, ⟨⟩⟩ := Prod.mk.inj followed
  obtain ⟨rfl, rfl⟩ := Prod.mk.inj (Except.ok.inj effect)
  obtain ⟨pieces, adds⟩ := @addsPiece_leave _ _ long short label rest
  have smaller : (Piece.narrowBranch Opcode.leaveS label).size ≤
      (Piece.branch Opcode.leave label).size :=
    (Piece.Narrows.branch (by decide : Opcode.leave.narrowed? = some Opcode.leaveS)).size_le
  refine ⟨_, ?_, mirrors.push pieces smaller⟩
  rw [emit_eq shortKnown, mirrors.same]
  exact adds right.pieces

end Emitter

end CilTemplate
