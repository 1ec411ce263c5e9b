import CilTemplate.Proofs.Emission.Emit
import CilTemplate.Proofs.Emission.Reached

/-
What a failed request leaves in the emitter.  A request that is refused for what
it asks changes nothing.  The stack is followed last, when the code or the mark
is already in place, and where it cannot be followed nothing is taken back.
-/

namespace CilTemplate

open CilTemplate.Action

/-- The errors that a request meets when it is already being carried out. -/
def Error.comesLate : Error → Bool
  | .malformed (.underflow _ _ _) | .malformed (.depthTooLarge _)
  | .malformed (.depthAtBranch _ _ _) | .malformed (.depthAtMark _ _ _)
  | .invalidBranch .tableTooLarge => true
  | _ => false

/-- A request that the emitter may refuse. -/
inductive EmitterRequest
  | declareLocal (declaration : LocalDeclaration)
  | markLabel (label : Nat)
  | emit (opcode : Opcode) (operand : Operand Nat)
deriving DecidableEq

def EmitterRequest.perform : EmitterRequest → Action Emitter Unit
  | declareLocal declaration => do let _ ← Emitter.declareLocal declaration
  | markLabel label => Emitter.markLabel label
  | emit opcode operand => Emitter.emit opcode operand

namespace Emitter

/-- The stack is not followed to the end of an instruction that leads to labels:
values are missing, there are too many, or a label was entered with others. -/
inductive Stops (before : Emitter) (mnemonic : String) (pops pushes : Int) (targets : List Nat) :
    Error → Emitter → Prop
  | underflow (reachable : before.reachable = true) (missing : before.depth - pops < 0) :
      Stops before mnemonic pops pushes targets
        (.malformed (.underflow mnemonic (before.depth - pops) pops))
        { before with depth := before.depth - pops }
  | overflow {depth : Int} (enough : before.reachable = true → 0 ≤ before.depth - pops)
      (depth_eq : depth = max (before.depth - pops) 0 + pushes)
      (outside : depth < 0 ∨ 0xFFFF < depth) :
      Stops before mnemonic pops pushes targets (.malformed (.depthTooLarge depth))
        { before with depth := depth }
  | conflict {depth expected : Int} {maxDepth label : Nat} {earlier later : List Nat}
      (reachable : before.reachable = true)
      (follows : Follows before.reachable before.depth before.maxDepth pops pushes depth maxDepth)
      (targets_eq : targets = earlier ++ label :: later)
      (agree : Agree depth earlier before.labelDepths)
      (known : before.labelDepths.lookup label = some expected) (differs : expected ≠ depth) :
      Stops before mnemonic pops pushes targets
        (.malformed (.depthAtBranch (Layout.labelText label) expected depth))
        { before with
          depth := depth
          maxDepth := maxDepth
          labelDepths := learnAll depth earlier before.labelDepths }

/-- A request that met an error when it was already being carried out, with what
it leaves behind. -/
inductive Interrupted (before : Emitter) : EmitterRequest → Error → Emitter → Prop
  | marked {label : Nat} {expected : Int} (unmarked : before.marks[label]? = some none)
      (reachable : before.reachable = true)
      (known : before.labelDepths.lookup label = some expected)
      (differs : expected ≠ before.depth) :
      Interrupted before (.markLabel label)
        (.malformed (.depthAtMark (Layout.labelText label) expected before.depth))
        (before.withMark label)
  | written {opcode : Opcode} {info : OpcodeInfo} {operand : Operand Nat} {pops pushes : Int}
      {piece : Piece} {error : Error} {after : Emitter} (known : opcode.info? = some info)
      (effect : stackEffect opcode info operand before.depth = .ok (pops, pushes))
      (writes : Writes (stringsAfter before.strings operand) opcode info operand piece)
      (stops : Stops
        { before with
          pieces := before.pieces.push piece
          strings := stringsAfter before.strings operand }
        info.mnemonic pops pushes operand.targets error after) :
      Interrupted before (.emit opcode operand) error after
  | followed {opcode : Opcode} {info : OpcodeInfo} {targets : List Nat} {error : Error}
      {after : Emitter} (known : opcode.info? = some info) (kind : info.operand = .switch)
      (stops : Stops before info.mnemonic 1 0 targets error after) :
      Interrupted before (.emit opcode (.switch targets)) error after
  | oversized {opcode : Opcode} {info : OpcodeInfo} {targets : List Nat} {depth : Int}
      {maxDepth : Nat} {labelDepths : List (Nat × Int)} (known : opcode.info? = some info)
      (kind : info.operand = .switch) (many : 0xFFFFFFFF < targets.length)
      (follows : Follows before.reachable before.depth before.maxDepth 1 0 depth maxDepth)
      (records : Records before.reachable depth before.labelDepths targets labelDepths) :
      Interrupted before (.emit opcode (.switch targets)) (.invalidBranch .tableTooLarge)
        { before with depth := depth, maxDepth := maxDepth, labelDepths := labelDepths }

section Stopping

variable {before after middle : Emitter} {error : Error} {mnemonic : String} {pops pushes : Int}
  {targets : List Nat}

theorem Stops.comesLate (stops : Stops before mnemonic pops pushes targets error after) :
    error.comesLate = true ∧ error ≠ .invalidBranch .tableTooLarge := by
  cases stops <;> exact ⟨rfl, nofun⟩

theorem Stops.kept (stops : Stops before mnemonic pops pushes targets error after) :
    after.pieces = before.pieces ∧ after.locals = before.locals ∧
      after.reachable = before.reachable := by
  cases stops <;> exact ⟨rfl, rfl, rfl⟩

theorem Stops.depth_ne (stops : Stops before mnemonic 1 0 targets error after) :
    after.depth ≠ before.depth := by
  cases stops with
  | underflow reachable missing =>
      change before.depth - 1 ≠ before.depth
      omega
  | @overflow depth enough depth_eq outside =>
      change depth ≠ before.depth
      omega
  | @conflict depth _ _ _ _ _ reachable follows targets_eq agree known differs =>
      rw [reachable] at follows
      have moved := follows.depth_eq_of_reachable
      change depth ≠ before.depth
      omega

theorem stops_of_updateDepth (targets : List Nat)
    (failed : run (updateDepth mnemonic pops pushes) before = (.error error, after)) :
    Stops before mnemonic pops pushes targets error after := by
  simp only [updateDepth, run_bind, run_get, run_ite, run_set, run_throw, run_modify] at failed
  split at failed
  · rename_i missing
    simp only [Prod.mk.injEq, Except.error.injEq] at failed
    obtain ⟨rfl, rfl⟩ := failed
    exact .underflow missing.2 missing.1
  · rename_i notMissing
    split at failed
    · rename_i outside
      simp only [Prod.mk.injEq, Except.error.injEq] at failed
      obtain ⟨rfl, rfl⟩ := failed
      refine .overflow ?_ rfl outside
      intro reachable
      exact Int.not_lt.mp fun missing => notMissing ⟨missing, reachable⟩
    · simp at failed

theorem recordDepth_eq_error {label : Nat}
    (failed : run (recordDepth label) before = (.error error, after)) :
    before.reachable = true ∧ ∃ expected, before.labelDepths.lookup label = some expected ∧
      expected ≠ before.depth ∧
      error = .malformed (.depthAtBranch (Layout.labelText label) expected before.depth) ∧
      after = before := by
  simp only [recordDepth, run_bind, run_get, run_ite] at failed
  split at failed
  · rename_i reachable
    cases known : before.labelDepths.lookup label with
    | none => simp [known] at failed
    | some expected =>
        simp only [known, run_ite, run_throw, run_pure] at failed
        split at failed
        · rename_i differs
          simp only [Prod.mk.injEq, Except.error.injEq] at failed
          exact ⟨reachable, expected, rfl, differs, failed.1.symm, failed.2.symm⟩
        · simp at failed
  · simp at failed

/-- By induction on the labels: those before the conflict are entered. -/
theorem recordDepths_eq_error
    (failed : run (recordDepths targets) before = (.error error, after)) :
    before.reachable = true ∧ ∃ earlier label later expected,
      targets = earlier ++ label :: later ∧ Agree before.depth earlier before.labelDepths ∧
      before.labelDepths.lookup label = some expected ∧ expected ≠ before.depth ∧
      error = .malformed (.depthAtBranch (Layout.labelText label) expected before.depth) ∧
      after = { before with labelDepths := learnAll before.depth earlier before.labelDepths } := by
  induction targets generalizing before with
  | nil => simp [recordDepths] at failed
  | cons first rest inductionHypothesis =>
      rcases run_bind_eq_error.mp failed with here | ⟨_, middle, entered, beyond⟩
      · obtain ⟨reachable, expected, known, differs, rfl, rfl⟩ := recordDepth_eq_error here
        exact ⟨reachable, [], first, rest, expected, rfl, Agree.nil, known, differs, rfl, rfl⟩
      · obtain ⟨middleDepths, records, rfl⟩ := run_recordDepth entered
        obtain ⟨reachable, earlier, label, later, expected, rfl, agree, known, differs, rfl, rfl⟩ :=
          inductionHypothesis beyond
        have middle_eq := records.labelDepths_eq.trans (if_pos reachable)
        have before_known : before.labelDepths.lookup label = some expected :=
          (records.learns.learned label expected known).resolve_right differs
        refine ⟨reachable, first :: earlier, label, later, expected, rfl, ?_, before_known, differs,
          rfl, by rw [middle_eq]; rfl⟩
        exact Agree.cons (records.agree reachable first List.mem_cons_self)
          (agree.of_learned records.learns)

theorem stops_of_recordDepths
    (updated : run (updateDepth mnemonic pops pushes) before = (.ok (), middle))
    (failed : run (recordDepths targets) middle = (.error error, after)) :
    Stops before mnemonic pops pushes targets error after := by
  obtain ⟨depth, maxDepth, follows, rfl⟩ := run_updateDepth updated
  obtain ⟨reachable, earlier, label, later, expected, targets_eq, agree, known, differs, rfl, rfl⟩ :=
    recordDepths_eq_error failed
  exact .conflict reachable follows targets_eq agree known differs

end Stopping

section Requests

variable {before after : Emitter} {error : Error}

theorem operandBytes_eq_error {info : OpcodeInfo} {operand : Operand Nat}
    (failed : run (operandBytes info operand) before = (.error error, after)) :
    error.comesLate = false ∧ after = before := by
  unfold operandBytes at failed
  dsimp only at failed
  split at failed
  case h_1 | h_9 =>
    cases failed
    exact ⟨rfl, rfl⟩
  case h_8 value _ =>
    split at failed
    · cases failed
    · cases failed
      exact ⟨rfl, rfl⟩
  all_goals cases failed

section Pieces

variable {opcode : Opcode} {info : OpcodeInfo} {pops pushes : Int}

theorem interrupted_branch {target : Nat} {piece : Piece} (known : opcode.info? = some info)
    (effect : stackEffect opcode info (.label target) before.depth = .ok (pops, pushes))
    (writes : Writes before.strings opcode info (.label target) piece)
    (failed : run (do
      pushPiece piece
      updateDepth info.mnemonic pops pushes
      recordDepth target) before = (.error error, after)) :
    Interrupted before (.emit opcode (.label target)) error after := by
  rw [pushPiece, run_bind, run_modify] at failed
  refine .written known effect writes ?_
  rcases run_bind_eq_error.mp failed with early | ⟨_, middle, updated, late⟩
  · exact stops_of_updateDepth _ early
  · have listed : run (recordDepths [target]) middle = (.error error, after) :=
      run_bind_eq_error.mpr (Or.inl late)
    exact stops_of_recordDepths updated listed

theorem interrupted_switch {targets : List Nat} (known : opcode.info? = some info)
    (kind : info.operand = .switch)
    (failed : run (do
      updateDepth info.mnemonic 1 0
      recordDepths targets
      if 0xFFFFFFFF < targets.length then throw (.invalidBranch .tableTooLarge)
      pushPiece (.switch targets)) before = (.error error, after)) :
    Interrupted before (.emit opcode (.switch targets)) error after := by
  rcases run_bind_eq_error.mp failed with early | ⟨_, middle, updated, rest⟩
  · exact .followed known kind (stops_of_updateDepth _ early)
  rcases run_bind_eq_error.mp rest with early | ⟨_, last, recorded, late⟩
  · exact .followed known kind (stops_of_recordDepths updated early)
  obtain ⟨depth, maxDepth, follows, rfl⟩ := run_updateDepth updated
  obtain ⟨labelDepths, records, rfl⟩ := run_recordDepths recorded
  simp only [run_ite, run_bind, run_throw, pushPiece, run_modify] at late
  split at late
  · rename_i many
    cases late
    exact .oversized known kind many follows records
  · simp at late

theorem stackEffect_of_fixed {operand : Operand Nat} {depth : Int} {taken left : Nat}
    (fixedPops : info.pops = .fixed taken) (fixedPushes : info.pushes = .fixed left) :
    stackEffect opcode info operand depth = .ok ((taken : Int), (left : Int)) := by
  simp only [stackEffect, fixedPops, fixedPushes]
  rfl

theorem table_of_known : ∀ entry ∈ Opcode.known, entry.2.operand = .switch →
    entry.2.pops = .fixed 1 ∧ entry.2.pushes = .fixed 0 := by
  decide +kernel

theorem emitPiece_eq_error {operand : Operand Nat} (known : opcode.info? = some info)
    (effect : stackEffect opcode info operand before.depth = .ok (pops, pushes))
    (failed : run (emitPiece opcode info operand pops pushes) before = (.error error, after)) :
    error.comesLate = false ∧ after = before ∨
      Interrupted before (.emit opcode operand) error after := by
  unfold emitPiece at failed
  split at failed
  case h_1 target kind =>
    exact Or.inr (interrupted_branch known effect (.narrowBranch kind) failed)
  case h_2 target kind => exact Or.inr (interrupted_branch known effect (.branch kind) failed)
  case h_3 targets kind =>
    obtain ⟨one, none⟩ := table_of_known _ (Opcode.mem_known_of_info? known) kind
    rw [stackEffect_of_fixed one none] at effect
    obtain ⟨rfl, rfl⟩ := Prod.mk.inj (Except.ok.inj effect)
    exact Or.inr (interrupted_switch known kind failed)
  case h_7 =>
    rcases run_bind_eq_error.mp failed with early | ⟨bytes, middle, encoded, rest⟩
    · exact Or.inl (operandBytes_eq_error early)
    · obtain ⟨fits, encoding, rfl⟩ := run_operandBytes encoded
      rw [pushPiece, run_bind, run_modify] at rest
      exact Or.inr (.written known effect (.plain fits encoding) (stops_of_updateDepth _ rest))
  all_goals
    cases failed
    exact Or.inl ⟨rfl, rfl⟩

end Pieces

theorem emit_eq_error {opcode : Opcode} {operand : Operand Nat}
    (failed : run (emit opcode operand) before = (.error error, after)) :
    error.comesLate = false ∧ after = before ∨
      Interrupted before (.emit opcode operand) error after := by
  unfold emit at failed
  cases known : opcode.info? with
  | none =>
      rw [known] at failed
      cases failed
      exact Or.inl ⟨rfl, rfl⟩
  | some info =>
      rw [known] at failed
      dsimp only at failed
      rw [run_bind, run_get] at failed
      rcases run_bind_eq_error.mp failed with early | ⟨⟨pops, pushes⟩, middle, counted, rest⟩
      · obtain ⟨uncounted, rfl⟩ := Prod.mk.inj early
        rcases stackEffect_eq_error uncounted with ⟨count, rfl⟩ | rfl
        · exact Or.inl ⟨rfl, rfl⟩
        · exact Or.inl ⟨rfl, rfl⟩
      · obtain ⟨effect, rfl⟩ := Prod.mk.inj counted
        rcases run_bind_eq_error.mp rest with early | ⟨_, _, _, ended⟩
        · exact emitPiece_eq_error known effect early
        · split at ended <;> cases ended

theorem enterLabel_eq_error {label : Nat} (unmarked : before.marks[label]? = some none)
    (failed : run (enterLabel label) (before.withMark label) = (.error error, after)) :
    Interrupted before (.markLabel label) error after := by
  simp only [enterLabel, run_bind, run_get] at failed
  split at failed
  · rename_i expected known
    rw [run_ite, run_ite] at failed
    split at failed
    · cases failed
    · rename_i reachable
      split at failed
      · rename_i differs
        cases failed
        exact .marked unmarked (by simpa [withMark] using reachable) known differs
      · cases failed
  · rw [run_ite] at failed
    split at failed <;> cases failed

theorem markLabel_eq_error {label : Nat}
    (failed : run (markLabel label) before = (.error error, after)) :
    error.comesLate = false ∧ after = before ∨
      Interrupted before (.markLabel label) error after := by
  simp only [markLabel, run_bind, run_get, run_ite, run_throw] at failed
  split at failed
  · cases failed
    exact Or.inl ⟨rfl, rfl⟩
  · split at failed
    · cases failed
      exact Or.inl ⟨rfl, rfl⟩
    · cases failed
      exact Or.inl ⟨rfl, rfl⟩
    · rename_i unmarked
      exact Or.inr (enterLabel_eq_error unmarked failed)

theorem declareLocal_eq_error {declaration : LocalDeclaration}
    (failed : run (EmitterRequest.declareLocal declaration).perform before =
      (.error error, after)) :
    error.comesLate = false ∧ after = before := by
  rcases run_bind_eq_error.mp failed with early | ⟨_, _, _, ended⟩
  · simp only [declareLocal, run_bind, run_get, run_ite, run_throw, run_modify, run_pure] at early
    split at early
    · cases early
      exact ⟨rfl, rfl⟩
    · cases early
  · cases ended

theorem perform_eq_error {request : EmitterRequest}
    (failed : run request.perform before = (.error error, after)) :
    error.comesLate = false ∧ after = before ∨ Interrupted before request error after := by
  cases request with
  | declareLocal declaration => exact Or.inl (declareLocal_eq_error failed)
  | markLabel label => exact markLabel_eq_error failed
  | emit opcode operand => exact emit_eq_error failed

end Requests

namespace Interrupted

variable {before after : Emitter} {request : EmitterRequest} {error : Error}

theorem comesLate (interrupted : Interrupted before request error after) :
    error.comesLate = true := by
  cases interrupted with
  | marked => rfl
  | written _ _ _ stops => exact stops.comesLate.1
  | followed _ _ stops => exact stops.comesLate.1
  | oversized => rfl

theorem kept (interrupted : Interrupted before request error after) :
    after.locals = before.locals ∧ after.reachable = before.reachable := by
  cases interrupted with
  | marked => exact ⟨rfl, rfl⟩
  | written _ _ _ stops => exact stops.kept.2
  | followed _ _ stops => exact stops.kept.2
  | oversized => exact ⟨rfl, rfl⟩

theorem changed (interrupted : Interrupted before request error after)
    (inSize : error ≠ .invalidBranch .tableTooLarge) : after ≠ before := by
  intro same
  cases interrupted with
  | @marked label _ unmarked =>
      have bound : label < before.marks.size := (Array.getElem?_eq_some_iff.mp unmarked).1
      have there : (before.withMark label).marks[label]? = some (some before.pieces.size) :=
        Array.getElem?_setIfInBounds_self_of_lt bound
      rw [same, unmarked] at there
      cases there
  | written _ _ _ stops =>
      have grown := congrArg Array.size stops.kept.1
      rw [same, Array.size_push] at grown
      omega
  | followed _ _ stops => exact stops.depth_ne (congrArg Emitter.depth same)
  | oversized => exact inSize rfl

end Interrupted

/-- Whatever state the emitter is in, a request that fails changes nothing unless
its error comes up while the stack is followed.  Then the request is left where
the error met it. -/
theorem failed_request_changes_nothing_unless_late {before after : Emitter}
    {request : EmitterRequest} {error : Error}
    (failed : run request.perform before = (.error error, after)) :
    (error.comesLate = false → after = before) ∧
    (error.comesLate = true → Interrupted before request error after ∧
      (error ≠ .invalidBranch .tableTooLarge → after ≠ before)) ∧
    after.locals = before.locals ∧ after.reachable = before.reachable := by
  rcases perform_eq_error failed with ⟨early, same⟩ | interrupted
  · refine ⟨fun _ => same, ?_, by rw [same], by rw [same]⟩
    intro late
    rw [early] at late
    cases late
  · refine ⟨?_, fun _ => ⟨interrupted, interrupted.changed⟩, interrupted.kept⟩
    intro early
    rw [interrupted.comesLate] at early
    cases early

end Emitter

namespace FailedRequestsSample

def loaded : Emitter := (run (Emitter.emit Opcode.ldcI40 .none) Emitter.empty).2

def mismatch : EmitterRequest := .emit ⟨0x00⟩ (.label 0)

def drop : EmitterRequest := .emit Opcode.pop .none

end FailedRequestsSample

open FailedRequestsSample in
theorem failed_request_changes_nothing_unless_late_of_mismatch :
    run mismatch.perform loaded =
      (.error (.wrongOperandType "nop" .none), loaded) := by
  have refused : (run mismatch.perform loaded).1 = .error (.wrongOperandType "nop" .none) := rfl
  have failed := run_eq_of_result refused
  obtain ⟨unchanged, _⟩ := Emitter.failed_request_changes_nothing_unless_late failed
  rw [unchanged rfl] at failed
  exact failed

open FailedRequestsSample in
/-- A failed request leaves its code behind, and a depth below zero. -/
theorem failed_request_leaves_code :
    ∃ after, Emitter.Reached Emitter.empty ∧
      run drop.perform Emitter.empty = (.error (.malformed (.underflow "pop" (-1) 1)), after) ∧
      Emitter.empty.position = 0 ∧ Emitter.empty.depth = 0 ∧
      after.position = 1 ∧ after.depth = -1 := by
  have refused : (run drop.perform Emitter.empty).1 =
      .error (.malformed (.underflow "pop" (-1) 1)) := rfl
  exact ⟨_, .start, run_eq_of_result refused, rfl, rfl, by decide +kernel, by decide +kernel⟩

end CilTemplate
