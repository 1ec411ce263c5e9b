import CilTemplate.Proofs.Emission.Narrowing
import CilTemplate.Proofs.Emission.StackPaths

/-
Emitters as their requests leave them.  A request may fail, and the emitter goes
on with whatever the failed request has left behind.
-/

namespace CilTemplate

open CilTemplate.Action

namespace Emitter

/-- The emitters that requests lead to, whether they succeed or fail. -/
inductive Reached : Emitter → Prop
  | start : Reached empty
  | withStrings {emitter : Emitter} (reached : Reached emitter) (known : List (String × Token)) :
      Reached (emitter.withStrings known)
  | declareLocal {emitter : Emitter} (reached : Reached emitter)
      (declaration : LocalDeclaration) : Reached (run (declareLocal declaration) emitter).2
  | defineLabel {emitter : Emitter} (reached : Reached emitter) :
      Reached (StateT.run defineLabel emitter).2
  | markLabel {emitter : Emitter} (reached : Reached emitter) (label : Nat) :
      Reached (run (markLabel label) emitter).2
  | emit {emitter : Emitter} (reached : Reached emitter) (opcode : Opcode)
      (operand : Operand Nat) : Reached (run (emit opcode operand) emitter).2

theorem Reached.perform {emitter : Emitter} (reached : Reached emitter) (call : EmitterCall) :
    Reached (run call.perform emitter).2 := by
  cases call with
  | defineLabel => exact reached.defineLabel
  | markLabel label => exact reached.markLabel label
  | emit opcode operand => exact reached.emit opcode operand

theorem Reached.performAll {emitter : Emitter} (reached : Reached emitter)
    (calls : List EmitterCall) : Reached (run (EmitterCall.performAll calls) emitter).2 := by
  induction calls generalizing emitter with
  | nil => exact reached
  | cons call rest inductionHypothesis =>
      have performed := reached.perform call
      rw [EmitterCall.performAll, run_bind]
      cases outcome : run call.perform emitter with
      | mk result after =>
          rw [outcome] at performed
          cases result with
          | ok => exact inductionHypothesis performed
          | error => exact performed

end Emitter

/-- Marks stand between pieces, and every long branch has a short form. -/
structure Layout.Sound (layout : Layout) : Prop where
  marks : ∀ {label place : Nat}, layout.marks[label]? = some (some place) →
    place ≤ layout.pieces.length
  branches : ∀ {opcode : Opcode} {target : Nat}, Piece.branch opcode target ∈ layout.pieces →
    ∃ short, opcode.narrowed? = some short

theorem Opcode.narrowed?_of_known : ∀ entry ∈ Opcode.known, entry.2.operand = .branch →
    (Opcode.narrowed? entry.1).isSome = true := by
  decide +kernel

namespace Layout.Sound

variable {layout : Layout}

theorem push (sound : layout.Sound) {piece : Piece}
    (branch : ∀ opcode target, piece = .branch opcode target →
      ∃ short, opcode.narrowed? = some short) :
    (Layout.mk (layout.pieces ++ [piece]) layout.marks).Sound where
  marks marked := by
    rw [List.length_append]
    exact Nat.le_add_right_of_le (sound.marks marked)
  branches member := by
    rcases List.mem_append.mp member with earlier | last
    · exact sound.branches earlier
    · exact branch _ _ (List.mem_singleton.mp last).symm

theorem define (sound : layout.Sound) :
    (Layout.mk layout.pieces (layout.marks.push none)).Sound where
  marks {label place} marked := by
    rw [Array.getElem?_push] at marked
    split at marked
    · cases marked
    · exact sound.marks marked
  branches := sound.branches

theorem mark (sound : layout.Sound) (label : Nat) :
    (Layout.mk layout.pieces
      (layout.marks.setIfInBounds label (some layout.pieces.length))).Sound where
  marks {other place} marked := by
    rw [Array.getElem?_setIfInBounds] at marked
    split at marked
    · split at marked
      · exact Nat.le_of_eq (Option.some.inj (Option.some.inj marked)).symm
      · cases marked
    · exact sound.marks marked
  branches := sound.branches

end Layout.Sound

namespace Emitter

variable {Result : Type}

def written (emitter : Emitter) :
    Array Piece × Array (Option Nat) × Array LocalDeclaration × UserStrings :=
  (emitter.pieces, emitter.marks, emitter.locals, emitter.strings)

/-- Whether it succeeds or fails, the action changes only what follows the stack. -/
def FollowsStack (action : Action Emitter Result) : Prop :=
  ∀ known, Maintains (fun emitter => emitter.written = known) action

namespace FollowsStack

theorem updateDepth (mnemonic : String) (pops pushes : Int) :
    FollowsStack (updateDepth mnemonic pops pushes) := by
  intro known emitter same
  simp only [Emitter.updateDepth, run_bind, run_get, run_ite, run_set, run_throw, run_modify]
  split
  · exact same
  · split <;> exact same

theorem recordDepth (label : Nat) : FollowsStack (recordDepth label) := by
  intro known emitter same
  simp only [Emitter.recordDepth, run_bind, run_get, run_ite, run_pure]
  split
  · split
    · simp only [run_ite, run_throw, run_pure]
      split <;> exact same
    · exact same
  · exact same

theorem recordDepths (labels : List Nat) : FollowsStack (recordDepths labels) := by
  intro known
  induction labels with
  | nil => exact .pure ()
  | cons label rest inductionHypothesis =>
      exact (recordDepth label known).bind fun _ => inductionHypothesis

theorem enterLabel (label : Nat) : FollowsStack (enterLabel label) := by
  intro known emitter same
  simp only [Emitter.enterLabel, run_bind, run_get]
  split
  · rw [run_ite, run_ite]
    split
    · exact same
    · split <;> exact same
  · rw [run_ite]
    split <;> exact same

end FollowsStack

def KeepsLayout (action : Action Emitter Result) : Prop :=
  ∀ layout, Maintains (fun emitter => emitter.layout = layout) action

theorem FollowsStack.keepsLayout {action : Action Emitter Result} (follows : FollowsStack action) :
    KeepsLayout action := by
  intro layout emitter same
  have kept := follows emitter.written emitter rfl
  simp only [written, Prod.mk.injEq] at kept
  rw [← same, Emitter.layout, Emitter.layout, kept.1, kept.2.1]

theorem KeepsLayout.operandBytes (info : OpcodeInfo) (operand : Operand Nat) :
    KeepsLayout (operandBytes info operand) := by
  intro layout
  unfold Emitter.operandBytes
  dsimp only
  split
  case h_2 text _ => exact Maintains.bind (fun _ same => same) fun _ => .pure _
  case h_8 value _ =>
    split
    · exact .pure _
    · exact .throw _
  all_goals first | exact .pure _ | exact .throw _

section Layouts

variable {invariant : Layout → Prop}

theorem KeepsLayout.maintains {action : Action Emitter Result} (keeps : KeepsLayout action) :
    Maintains (fun emitter => invariant emitter.layout) action := by
  intro emitter held
  have same : (run action emitter).2.layout = emitter.layout := keeps emitter.layout emitter rfl
  rw [same]
  exact held

/-- What holds of a layout holds with a piece behind it, where a long branch has
a short form. -/
def AllowsPieces (invariant : Layout → Prop) : Prop :=
  ∀ {layout : Layout} {piece : Piece},
    (∀ opcode target, piece = .branch opcode target → ∃ short, opcode.narrowed? = some short) →
      invariant layout → invariant ⟨layout.pieces ++ [piece], layout.marks⟩

variable (allows : AllowsPieces invariant)

include allows

theorem maintains_pushPiece {piece : Piece}
    (branch : ∀ opcode target, piece = .branch opcode target →
      ∃ short, opcode.narrowed? = some short) :
    Maintains (fun emitter => invariant emitter.layout) (pushPiece piece) := by
  intro emitter held
  have pushed : (run (pushPiece piece) emitter).2.layout =
      ⟨emitter.layout.pieces ++ [piece], emitter.layout.marks⟩ := by
    simp only [pushPiece, run_modify, layout, Array.toList_push]
  rw [pushed]
  exact allows branch held

theorem maintains_emitPiece {opcode : Opcode} {info : OpcodeInfo}
    (known : opcode.info? = some info) (operand : Operand Nat) (pops pushes : Int) :
    Maintains (fun emitter => invariant emitter.layout)
      (emitPiece opcode info operand pops pushes) := by
  unfold emitPiece
  split
  case h_1 target _ =>
    refine (maintains_pushPiece allows ?_).bind fun _ =>
      (FollowsStack.updateDepth _ _ _).keepsLayout.maintains.bind fun _ =>
        (FollowsStack.recordDepth target).keepsLayout.maintains
    rintro _ _ ⟨⟩
  case h_2 target kind =>
    refine (maintains_pushPiece allows ?_).bind fun _ =>
      (FollowsStack.updateDepth _ _ _).keepsLayout.maintains.bind fun _ =>
        (FollowsStack.recordDepth target).keepsLayout.maintains
    rintro _ _ ⟨⟩
    exact Option.isSome_iff_exists.mp
      (Opcode.narrowed?_of_known _ (Opcode.mem_known_of_info? known) kind)
  case h_3 targets _ =>
    refine (FollowsStack.updateDepth _ _ _).keepsLayout.maintains.bind fun _ =>
      (FollowsStack.recordDepths targets).keepsLayout.maintains.bind fun _ => ?_
    dsimp only
    split
    · exact .throw _
    · refine maintains_pushPiece allows ?_
      rintro _ _ ⟨⟩
  case h_7 =>
    refine (KeepsLayout.operandBytes info _).maintains.bind fun bytes =>
      (maintains_pushPiece allows ?_).bind fun _ =>
        (FollowsStack.updateDepth _ _ _).keepsLayout.maintains
    rintro _ _ ⟨⟩
  all_goals exact .throw _

theorem maintains_emit (opcode : Opcode) (operand : Operand Nat) :
    Maintains (fun emitter => invariant emitter.layout) (emit opcode operand) := by
  unfold emit
  cases known : opcode.info? with
  | none => exact .throw _
  | some info =>
      refine Maintains.get.bind fun emitter => (Maintains.ofExcept _).bind fun effect =>
        (maintains_emitPiece allows known operand effect.1 effect.2).bind fun _ => ?_
      split
      · exact fun _ held => held
      · exact .pure ()

end Layouts

theorem KeepsLayout.declareLocal (declaration : LocalDeclaration) :
    KeepsLayout (declareLocal declaration) := by
  intro layout emitter same
  simp only [Emitter.declareLocal, run_bind, run_get, run_ite, run_throw, run_modify, run_pure]
  split <;> exact same

/-- A mark is set at the end of the code where there was none, and it stays when
entering the label fails. -/
theorem layout_markLabel (label : Nat) (emitter : Emitter) :
    (run (markLabel label) emitter).2.layout = emitter.layout ∨
      emitter.marks[label]? = some none ∧
        (run (markLabel label) emitter).2.layout =
          ⟨emitter.layout.pieces,
            emitter.marks.setIfInBounds label (some emitter.pieces.size)⟩ := by
  simp only [markLabel, run_bind, run_get, run_ite, run_throw]
  split
  · exact Or.inl rfl
  · split
    · exact Or.inl rfl
    · exact Or.inl rfl
    · rename_i unmarked
      exact Or.inr ⟨unmarked, (FollowsStack.enterLabel label).keepsLayout _ _ rfl⟩

/-- By induction on the requests, each of which keeps pieces and marks sound. -/
theorem Reached.sound {emitter : Emitter} (reached : Reached emitter) : emitter.layout.Sound := by
  induction reached with
  | start =>
      refine ⟨?_, ?_⟩
      · intro label place marked
        cases marked
      · intro opcode target member
        cases member
  | withStrings _ _ inductionHypothesis => exact inductionHypothesis
  | declareLocal _ declaration inductionHypothesis =>
      exact (KeepsLayout.declareLocal declaration).maintains _ inductionHypothesis
  | defineLabel _ inductionHypothesis => exact inductionHypothesis.define
  | @markLabel emitter _ label inductionHypothesis =>
      rcases layout_markLabel label emitter with same | ⟨_, marked⟩
      · rw [same]
        exact inductionHypothesis
      · rw [marked, ← Array.length_toList]
        exact inductionHypothesis.mark label
  | emit _ opcode operand inductionHypothesis =>
      exact maintains_emit (fun branch sound => sound.push branch) opcode operand _
        inductionHypothesis

end Emitter
end CilTemplate
