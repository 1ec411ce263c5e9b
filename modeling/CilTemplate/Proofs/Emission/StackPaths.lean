import CilTemplate.Proofs.Code.KnownOpcodes
import CilTemplate.Proofs.Emission.Emit

/-
The reported stack size and the paths of control through the emitted code.  The
emitter follows the code once, in the order in which it is written, while a path
may jump backward into code that was followed before.
-/

namespace CilTemplate

open CilTemplate.Action

inductive EmitterCall
  | defineLabel
  | markLabel (label : Nat)
  | emit (opcode : Opcode) (operand : Operand Nat)
deriving DecidableEq

namespace EmitterCall

def perform : EmitterCall → Action Emitter Unit
  | defineLabel => do let _ ← ExceptT.lift Emitter.defineLabel
  | markLabel label => Emitter.markLabel label
  | emit opcode operand => Emitter.emit opcode operand

def performAll : List EmitterCall → Action Emitter Unit
  | [] => pure ()
  | call :: rest => do
      call.perform
      performAll rest

def emitted : List EmitterCall → List (Opcode × Operand Nat)
  | [] => []
  | emit opcode operand :: rest => (opcode, operand) :: emitted rest
  | _ :: rest => emitted rest

def beforeMark : List EmitterCall → Nat → Option (List EmitterCall)
  | [], _ => none
  | defineLabel :: rest, label => (beforeMark rest label).map (defineLabel :: ·)
  | markLabel marked :: rest, label =>
      if marked = label then some []
      else (beforeMark rest label).map (markLabel marked :: ·)
  | emit opcode operand :: rest, label => (beforeMark rest label).map (emit opcode operand :: ·)

/-- The number of instructions in front of the mark of a label. -/
def markedAt (calls : List EmitterCall) (label : Nat) : Option Nat :=
  (beforeMark calls label).map fun front => (emitted front).length

/-- The requests in front of an instruction, with the marks at its place. -/
def upTo : List EmitterCall → Nat → List EmitterCall
  | [], _ => []
  | emit _ _ :: _, 0 => []
  | emit opcode operand :: rest, position + 1 => emit opcode operand :: upTo rest position
  | defineLabel :: rest, position => defineLabel :: upTo rest position
  | markLabel label :: rest, position => markLabel label :: upTo rest position

/-- The numbers of values that an instruction is declared to take and to leave.
A return takes at most one. -/
def declaredEffect (opcode : Opcode) (operand : Operand Nat) (depth : Int) :
    Except Error (Int × Int) := do
  let instruction : Instruction Nat := .raw opcode operand
  let pushes ← instruction.stackPushes
  if opcode = Opcode.ret then pure (min depth 1, pushes)
  else
    let pops ← instruction.stackPops
    pure (pops, pushes)

def endsPath (opcode : Opcode) : Bool :=
  opcode.info?.any fun info => info.flow.endsPath

/-- A path of control from the first instruction to the instruction at a place,
with the sum of the declared effects along it. -/
inductive Path (calls : List EmitterCall) : Nat → Int → Prop
  | start : Path calls 0 0
  | fallThrough {position : Nat} {depth pops pushes : Int} {opcode : Opcode}
      {operand : Operand Nat} (path : Path calls position depth)
      (at_ : (emitted calls)[position]? = some (opcode, operand))
      (effect : declaredEffect opcode operand depth = .ok (pops, pushes))
      (continues : endsPath opcode = false) :
      Path calls (position + 1) (depth - pops + pushes)
  | jump {position target label : Nat} {depth pops pushes : Int} {opcode : Opcode}
      {operand : Operand Nat} (path : Path calls position depth)
      (at_ : (emitted calls)[position]? = some (opcode, operand))
      (effect : declaredEffect opcode operand depth = .ok (pops, pushes))
      (member : label ∈ operand.targets) (marked : markedAt calls label = some target) :
      Path calls target (depth - pops + pushes)

end EmitterCall

open EmitterCall

def Runs (calls : List EmitterCall) (before after : Emitter) : Prop :=
  run (performAll calls) before = (.ok (), after)

theorem runs_nil {before after : Emitter} : Runs [] before after ↔ before = after := by
  simp [Runs, performAll]

theorem runs_cons {call : EmitterCall} {rest : List EmitterCall} {before after : Emitter} :
    Runs (call :: rest) before after ↔
      ∃ middle, run call.perform before = (.ok (), middle) ∧ Runs rest middle after := by
  simp only [Runs, performAll, run_bind_eq_ok]
  constructor
  · rintro ⟨_, middle, first, others⟩
    exact ⟨middle, first, others⟩
  · rintro ⟨middle, first, others⟩
    exact ⟨(), middle, first, others⟩

theorem runs_append {left right : List EmitterCall} {before after : Emitter} :
    Runs (left ++ right) before after ↔
      ∃ middle, Runs left before middle ∧ Runs right middle after := by
  induction left generalizing before with
  | nil => simp [runs_nil]
  | cons call rest inductionHypothesis =>
      rw [List.cons_append, runs_cons]
      constructor
      · rintro ⟨first, performed, others⟩
        rcases inductionHypothesis.mp others with ⟨middle, left, right⟩
        exact ⟨middle, runs_cons.mpr ⟨first, performed, left⟩, right⟩
      · rintro ⟨middle, left, right⟩
        obtain ⟨first, performed, others⟩ := runs_cons.mp left
        exact ⟨first, performed, inductionHypothesis.mpr ⟨middle, others, right⟩⟩

theorem run_perform_defineLabel {before after : Emitter}
    (done : run defineLabel.perform before = (.ok (), after)) :
    after = { before with marks := before.marks.push none } := by
  simp only [perform, run_bind, run_lift, run_pure, Prod.mk.injEq, true_and] at done
  exact done.symm

/-- Depths that were followed are no negative numbers and not above the greatest. -/
structure WithinGreatest (emitter : Emitter) : Prop where
  nonneg : 0 ≤ emitter.depth
  depth_le : emitter.depth ≤ emitter.maxDepth
  known : ∀ label depth, emitter.labelDepths.lookup label = some depth →
    0 ≤ depth ∧ depth ≤ emitter.maxDepth

structure Keeps (before after : Emitter) : Prop where
  labelDepths : LookupExtends before.labelDepths after.labelDepths
  maxDepth_le : before.maxDepth ≤ after.maxDepth
  within : WithinGreatest before → WithinGreatest after

theorem Keeps.refl (emitter : Emitter) : Keeps emitter emitter :=
  ⟨LookupExtends.refl _, Nat.le_refl _, id⟩

theorem Keeps.trans {first second third : Emitter} (left : Keeps first second)
    (right : Keeps second third) : Keeps first third :=
  ⟨left.labelDepths.trans right.labelDepths, Nat.le_trans left.maxDepth_le right.maxDepth_le,
    fun within => right.within (left.within within)⟩

theorem keeps_emit {opcode : Opcode} {info : OpcodeInfo} {operand : Operand Nat}
    {pops pushes : Int} {before after : Emitter}
    (emits : Emitter.Emits opcode info operand pops pushes before after) : Keeps before after := by
  have grows := emits.follows.maxDepth_le
  refine ⟨emits.labelDepths.kept, grows, ?_⟩
  intro within
  refine ⟨emits.follows.nonneg, emits.follows.depth_le, ?_⟩
  intro label depth found
  rcases emits.labelDepths.learned label depth found with earlier | now
  · rcases within.known label depth earlier with ⟨low, high⟩
    omega
  · rw [now]
    exact ⟨emits.follows.nonneg, emits.follows.depth_le⟩

theorem Marks.lookup_eq {label : Nat} {before after : Emitter}
    (marks : Emitter.Marks label before after)
    (known : ¬ (before.reachable = false ∧ before.labelDepths.lookup label = none)) :
    after.labelDepths.lookup label = some after.depth := by
  cases reachable : before.reachable with
  | true => exact (marks.arrives reachable).2
  | false =>
      rcases marks.entered reachable with found | ⟨unknown, _⟩
      · exact marks.labelDepths.kept label after.depth found
      · exact absurd ⟨reachable, unknown⟩ known

theorem keeps_markLabel {label : Nat} {before after : Emitter}
    (marks : Emitter.Marks label before after) : Keeps before after := by
  refine ⟨marks.labelDepths.kept, Nat.le_of_eq marks.maxDepth.symm, ?_⟩
  intro within
  have low := within.nonneg
  have high := within.depth_le
  have inside : 0 ≤ after.depth ∧ after.depth ≤ after.maxDepth := by
    rw [marks.maxDepth]
    cases reachable : before.reachable with
    | true =>
        rw [(marks.arrives reachable).1]
        exact ⟨low, high⟩
    | false =>
        rcases marks.entered reachable with found | ⟨_, empty⟩
        · exact within.known label after.depth found
        · omega
  refine ⟨inside.1, inside.2, ?_⟩
  intro other depth found
  rcases marks.labelDepths.learned other depth found with earlier | now
  · rw [marks.maxDepth]
    exact within.known other depth earlier
  · rw [now]
    exact inside

theorem keeps_perform {call : EmitterCall} {before after : Emitter}
    (done : run call.perform before = (.ok (), after)) : Keeps before after := by
  cases call with
  | defineLabel =>
      rw [run_perform_defineLabel done]
      exact ⟨LookupExtends.refl _, Nat.le_refl _, fun within => ⟨within.1, within.2, within.3⟩⟩
  | markLabel label => exact keeps_markLabel (Emitter.run_markLabel done)
  | emit opcode operand =>
      obtain ⟨_, _, _, _, _, emits, _⟩ := Emitter.run_emit done
      exact keeps_emit emits

theorem keeps_of_runs {calls : List EmitterCall} {before after : Emitter}
    (done : Runs calls before after) : Keeps before after := by
  induction calls generalizing before with
  | nil =>
      rw [runs_nil.mp done]
      exact Keeps.refl after
  | cons call rest inductionHypothesis =>
      obtain ⟨middle, performed, others⟩ := runs_cons.mp done
      exact (keeps_perform performed).trans (inductionHypothesis others)

theorem depth_of_runs {calls : List EmitterCall} {before after : Emitter}
    (done : Runs calls before after) (still : emitted calls = [])
    (reachable : before.reachable = true) :
    after.reachable = true ∧ after.depth = before.depth := by
  induction calls generalizing before with
  | nil =>
      rw [← runs_nil.mp done]
      exact ⟨reachable, rfl⟩
  | cons call rest inductionHypothesis =>
      obtain ⟨middle, performed, others⟩ := runs_cons.mp done
      cases call with
      | defineLabel =>
          have unchanged := run_perform_defineLabel performed
          have sameReachable : middle.reachable = true := by rw [unchanged]; exact reachable
          rcases inductionHypothesis others still sameReachable with ⟨later, same⟩
          exact ⟨later, same.trans (by rw [unchanged])⟩
      | markLabel label =>
          have marks := Emitter.run_markLabel performed
          rcases inductionHypothesis others still marks.reachable with ⟨later, same⟩
          exact ⟨later, same.trans (marks.arrives reachable).1⟩
      | emit opcode operand => cases still

namespace EmitterCall

variable {calls : List EmitterCall}

theorem exists_rest (calls : List EmitterCall) (position : Nat) :
    ∃ rest, calls = upTo calls position ++ rest := by
  induction calls generalizing position with
  | nil => exact ⟨[], rfl⟩
  | cons call rest inductionHypothesis =>
      cases call with
      | emit opcode operand =>
          cases position with
          | zero => exact ⟨_, rfl⟩
          | succ position =>
              rcases inductionHypothesis position with ⟨back, split⟩
              exact ⟨back, congrArg (emit opcode operand :: ·) split⟩
      | defineLabel =>
          rcases inductionHypothesis position with ⟨back, split⟩
          exact ⟨back, congrArg (defineLabel :: ·) split⟩
      | markLabel label =>
          rcases inductionHypothesis position with ⟨back, split⟩
          exact ⟨back, congrArg (markLabel label :: ·) split⟩

theorem emitted_upTo_zero (calls : List EmitterCall) : emitted (upTo calls 0) = [] := by
  induction calls with
  | nil => rfl
  | cons call rest inductionHypothesis =>
      cases call with
      | emit opcode operand => rfl
      | defineLabel => exact inductionHypothesis
      | markLabel label => exact inductionHypothesis

theorem upTo_succ {position : Nat} {opcode : Opcode} {operand : Operand Nat}
    (found : (emitted calls)[position]? = some (opcode, operand)) :
    ∃ marks, emitted marks = [] ∧
      upTo calls (position + 1) = upTo calls position ++ emit opcode operand :: marks := by
  induction calls generalizing position with
  | nil => cases found
  | cons call rest inductionHypothesis =>
      cases call with
      | emit first firstOperand =>
          cases position with
          | zero =>
              simp only [emitted, List.getElem?_cons_zero, Option.some.injEq, Prod.mk.injEq] at found
              rw [← found.1, ← found.2]
              exact ⟨upTo rest 0, emitted_upTo_zero rest, rfl⟩
          | succ position =>
              rcases inductionHypothesis found with ⟨marks, still, split⟩
              exact ⟨marks, still, congrArg (emit first firstOperand :: ·) split⟩
      | defineLabel =>
          rcases inductionHypothesis found with ⟨marks, still, split⟩
          exact ⟨marks, still, congrArg (defineLabel :: ·) split⟩
      | markLabel label =>
          rcases inductionHypothesis found with ⟨marks, still, split⟩
          exact ⟨marks, still, congrArg (markLabel label :: ·) split⟩

theorem upTo_beforeMark {label : Nat} {front : List EmitterCall}
    (found : beforeMark calls label = some front) :
    ∃ marks, emitted marks = [] ∧
      upTo calls (emitted front).length = front ++ markLabel label :: marks := by
  induction calls generalizing front with
  | nil => cases found
  | cons call rest inductionHypothesis =>
      cases call with
      | emit opcode operand =>
          obtain ⟨later, earlier, rfl⟩ := Option.map_eq_some_iff.mp found
          rcases inductionHypothesis earlier with ⟨marks, still, split⟩
          exact ⟨marks, still, congrArg (emit opcode operand :: ·) split⟩
      | defineLabel =>
          obtain ⟨later, earlier, rfl⟩ := Option.map_eq_some_iff.mp found
          rcases inductionHypothesis earlier with ⟨marks, still, split⟩
          exact ⟨marks, still, congrArg (defineLabel :: ·) split⟩
      | markLabel marked =>
          unfold beforeMark at found
          split at found
          · rename_i same
            rw [← Option.some.inj found, same]
            exact ⟨upTo rest 0, emitted_upTo_zero rest, rfl⟩
          · obtain ⟨later, earlier, rfl⟩ := Option.map_eq_some_iff.mp found
            rcases inductionHypothesis earlier with ⟨marks, still, split⟩
            exact ⟨marks, still, congrArg (markLabel marked :: ·) split⟩

end EmitterCall

section Effects

/-- Apart from a return, only calls take as many values as their operand says. -/
theorem dynamic_pops_of_known : ∀ entry ∈ Opcode.known, entry.2.pops = .dynamic →
    entry.1 = Opcode.ret ∨ entry.2.operand = .signature ∨ entry.2.operand = .method ∧
      (entry.1 = Opcode.call ∨ entry.1 = Opcode.callvirt ∨ entry.1 = Opcode.newobj) := by
  decide +kernel

theorem dynamic_pushes_of_known : ∀ entry ∈ Opcode.known, entry.2.pushes = .dynamic →
    entry.2.pops = .dynamic ∧ entry.1 ≠ Opcode.newobj := by
  decide +kernel

theorem ret_of_known : ∀ entry ∈ Opcode.known, entry.1 = Opcode.ret →
    entry.2.operand = .none ∧ entry.2.pops = .dynamic ∧ entry.2.pushes = .fixed 0 := by
  decide +kernel

variable {strings : UserStrings} {opcode : Opcode} {info : OpcodeInfo} {operand : Operand Nat}
  {piece : Piece} {pops pushes depth : Int}

theorem eq_method_of_fits (fits : operand.fits .method = true) :
    ∃ method, operand = .method method := by
  cases operand with
  | method method => exact ⟨method, rfl⟩
  | immediate value => cases value <;> cases fits
  | _ => cases fits

theorem eq_none_of_fits (fits : operand.fits .none = true) : operand = .none := by
  cases operand with
  | none => rfl
  | immediate value => cases value <;> cases fits
  | _ => cases fits

theorem eq_of_effectCount {count : Nat} (counted : Emitter.effectCount count = .ok pops) :
    pops = count := by
  unfold Emitter.effectCount at counted
  split at counted
  · exact (Except.ok.inj counted).symm
  · cases counted

theorem declaredEffect_ret :
    declaredEffect Opcode.ret .none depth = .ok (min depth 1, 0) := by
  have pushes : (Instruction.raw Opcode.ret (.none : Operand Nat)).stackPushes = .ok 0 := by
    rfl
  simp only [declaredEffect, pushes, bind, Except.bind, if_true, pure, Except.pure]
  rfl

theorem declaredEffect_eq {taken left : Nat} (noReturn : opcode ≠ Opcode.ret)
    (pops : (Instruction.raw opcode operand).stackPops = .ok taken)
    (pushes : (Instruction.raw opcode operand).stackPushes = .ok left) :
    declaredEffect opcode operand depth = .ok ((taken : Int), (left : Int)) := by
  simp only [declaredEffect, pops, pushes, bind, Except.bind, if_neg noReturn, pure, Except.pure]

theorem declaredEffect_of_call {method : Method} (found : opcode.info? = some info)
    (dynamic : info.pops = .dynamic)
    (calls : opcode = Opcode.call ∨ opcode = Opcode.callvirt ∨ opcode = Opcode.newobj)
    (effect : Emitter.stackEffect opcode info (.method method) depth = .ok (pops, pushes)) :
    declaredEffect opcode (.method method) depth = .ok (pops, pushes) := by
  have noReturn : opcode ≠ Opcode.ret := by
    rcases calls with rfl | rfl | rfl <;> decide
  have callee : (Instruction.raw opcode (.method method : Operand Nat)).callee? =
      some method := by
    rcases calls with rfl | rfl | rfl <;> rfl
  have taken : (Instruction.raw opcode (.method method : Operand Nat)).stackPops =
      .ok (if opcode = Opcode.newobj then method.parameterCount else method.callPops) := by
    simp [Instruction.stackPops, callee, Instruction.pops, found, dynamic,
      Instruction.constructsObject]
  unfold Emitter.stackEffect at effect
  simp only [dynamic] at effect
  cases counted : Emitter.effectCount
      (if opcode = Opcode.newobj then method.parameterCount else method.callPops) with
  | error error => simp [counted, bind, Except.bind] at effect
  | ok count =>
      simp only [counted, bind, Except.bind, pure, Except.pure, Except.ok.injEq,
        Prod.mk.injEq] at effect
      rw [← effect.1, ← effect.2, eq_of_effectCount counted]
      cases left : info.pushes with
      | fixed count =>
          apply declaredEffect_eq noReturn taken
          simp [Instruction.stackPushes, Instruction.pushes, found, left]
      | dynamic =>
          have noConstructor :=
            (dynamic_pushes_of_known _ (Opcode.mem_known_of_info? found) left).2
          simp only [if_neg noConstructor] at taken ⊢
          apply declaredEffect_eq noReturn taken
          simp [Instruction.stackPushes, callee, Instruction.pushes, found, left]

theorem declaredEffect_of_stackEffect (found : opcode.info? = some info)
    (effect : Emitter.stackEffect opcode info operand depth = .ok (pops, pushes))
    (writes : Emitter.Writes strings opcode info operand piece) :
    declaredEffect opcode operand depth = .ok (pops, pushes) := by
  have known := Opcode.mem_known_of_info? found
  rcases writes.fits with ⟨fits, notSignature⟩
  by_cases isRet : opcode = Opcode.ret
  · obtain ⟨kind, popsEq, pushesEq⟩ := ret_of_known _ known isRet
    simp only at kind popsEq pushesEq
    rw [kind] at fits
    rw [eq_none_of_fits fits] at effect ⊢
    simp only [Emitter.stackEffect, popsEq, pushesEq, isRet, if_true, bind, Except.bind, pure,
      Except.pure, Except.ok.injEq, Prod.mk.injEq] at effect
    rw [isRet, declaredEffect_ret, ← effect.1, ← effect.2]
    rfl
  · cases popsEq : info.pops with
    | fixed taken =>
        cases pushesEq : info.pushes with
        | dynamic =>
            have dynamicPops := (dynamic_pushes_of_known _ known pushesEq).1
            simp only [popsEq] at dynamicPops
            cases dynamicPops
        | fixed left =>
            simp only [Emitter.stackEffect, popsEq, pushesEq, bind, Except.bind, pure,
              Except.pure, Except.ok.injEq, Prod.mk.injEq] at effect
            rw [← effect.1, ← effect.2]
            apply declaredEffect_eq isRet
            · simp [Instruction.stackPops, Instruction.pops, found, popsEq]
            · simp [Instruction.stackPushes, Instruction.pushes, found, pushesEq]
    | dynamic =>
        obtain ⟨kind, calls⟩ : info.operand = .method ∧
            (opcode = Opcode.call ∨ opcode = Opcode.callvirt ∨ opcode = Opcode.newobj) := by
          rcases dynamic_pops_of_known _ known popsEq with ret | signature | callee
          · exact absurd ret isRet
          · exact absurd signature notSignature
          · exact callee
        rw [kind] at fits
        obtain ⟨method, rfl⟩ := eq_method_of_fits fits
        exact declaredEffect_of_call found popsEq calls effect

end Effects

/-- The emitter when it comes to an instruction, or to the end. -/
def arrival (calls : List EmitterCall) (position : Nat) : Emitter :=
  (run (performAll (upTo calls position)) Emitter.empty).2

/-- A label is marked where control does not arrive from above, before any
branch to it was emitted from where control arrives. -/
def AssumedEmpty (calls : List EmitterCall) (label : Nat) : Prop :=
  ∃ front, beforeMark calls label = some front ∧
    let before := (run (performAll front) Emitter.empty).2
    before.reachable = false ∧ before.labelDepths.lookup label = none

/-- Every path that jumps to a label for which an empty stack was assumed has an
empty stack there. -/
def EntersEmpty (calls : List EmitterCall) : Prop :=
  ∀ {position label : Nat} {depth pops pushes : Int} {opcode : Opcode} {operand : Operand Nat},
    Path calls position depth → (emitted calls)[position]? = some (opcode, operand) →
      declaredEffect opcode operand depth = .ok (pops, pushes) → label ∈ operand.targets →
        AssumedEmpty calls label → depth - pops + pushes = 0

section Run

variable {calls : List EmitterCall} {final : Emitter}

theorem runs_arrival (done : Runs calls Emitter.empty final) (position : Nat) :
    Runs (upTo calls position) Emitter.empty (arrival calls position) ∧
      Keeps (arrival calls position) final := by
  obtain ⟨rest, split⟩ := exists_rest calls position
  rw [split] at done
  obtain ⟨middle, front, back⟩ := runs_append.mp done
  have same : arrival calls position = middle := by rw [arrival, front]
  rw [same]
  exact ⟨front, keeps_of_runs back⟩

theorem within_arrival (done : Runs calls Emitter.empty final) (position : Nat) :
    WithinGreatest (arrival calls position) := by
  have start : WithinGreatest Emitter.empty :=
    ⟨Int.le_refl 0, Int.le_refl 0, fun _ _ found => by cases found⟩
  exact (keeps_of_runs (runs_arrival done position).1).within start

theorem arrival_succ {position : Nat} {opcode : Opcode} {operand : Operand Nat}
    (done : Runs calls Emitter.empty final)
    (found : (emitted calls)[position]? = some (opcode, operand)) :
    ∃ after marks, run (Emitter.emit opcode operand) (arrival calls position) = (.ok (), after) ∧
      emitted marks = [] ∧ Runs marks after (arrival calls (position + 1)) := by
  obtain ⟨marks, still, split⟩ := upTo_succ found
  have next := (runs_arrival done (position + 1)).1
  rw [split] at next
  obtain ⟨middle, front, back⟩ := runs_append.mp next
  obtain ⟨after, performed, others⟩ := runs_cons.mp back
  have same : arrival calls position = middle := by rw [arrival, front]
  exact ⟨after, marks, by rw [same]; exact performed, still, others⟩

theorem arrival_of_beforeMark {label : Nat} {front : List EmitterCall}
    (done : Runs calls Emitter.empty final) (found : beforeMark calls label = some front) :
    let before := (run (performAll front) Emitter.empty).2
    ∃ after marks, Emitter.Marks label before after ∧ emitted marks = [] ∧
      Runs marks after (arrival calls (emitted front).length) := by
  obtain ⟨marks, still, split⟩ := upTo_beforeMark found
  have next := (runs_arrival done (emitted front).length).1
  rw [split] at next
  obtain ⟨middle, first, back⟩ := runs_append.mp next
  obtain ⟨after, performed, others⟩ := runs_cons.mp back
  refine ⟨after, marks, ?_, still, others⟩
  have marked := Emitter.run_markLabel performed
  rw [show (run (performAll front) Emitter.empty).2 = middle by rw [first]]
  exact marked

theorem depth_of_assumedEmpty {label target : Nat} (done : Runs calls Emitter.empty final)
    (assumed : AssumedEmpty calls label) (marked : markedAt calls label = some target) :
    (arrival calls target).depth = 0 := by
  rcases assumed with ⟨front, found, unreachable, unknown⟩
  simp only [markedAt, found, Option.map_some, Option.some.injEq] at marked
  obtain ⟨after, marks, entered, still, others⟩ := arrival_of_beforeMark done found
  rw [← marked, (depth_of_runs others still entered.reachable).2]
  rcases entered.entered unreachable with known | ⟨_, empty⟩
  · rw [unknown] at known
    cases known
  · exact empty

theorem depth_of_jump {label target : Nat} {depth : Int} (done : Runs calls Emitter.empty final)
    (marked : markedAt calls label = some target)
    (recorded : final.labelDepths.lookup label = some depth)
    (empty : AssumedEmpty calls label → depth = 0) :
    (arrival calls target).reachable = true ∧ (arrival calls target).depth = depth := by
  obtain ⟨front, found, length⟩ := Option.map_eq_some_iff.mp marked
  obtain ⟨after, marks, entered, still, others⟩ := arrival_of_beforeMark done found
  rw [length] at others
  obtain ⟨reachable, same⟩ := depth_of_runs others still entered.reachable
  refine ⟨reachable, ?_⟩
  by_cases assumed : AssumedEmpty calls label
  · rw [empty assumed]
    exact depth_of_assumedEmpty done assumed marked
  · have known : after.labelDepths.lookup label = some after.depth :=
      Marks.lookup_eq entered fun neither => assumed ⟨front, found, neither⟩
    have kept : LookupExtends after.labelDepths final.labelDepths :=
      (keeps_of_runs others).labelDepths.trans (runs_arrival done target).2.labelDepths
    have final_ := kept label after.depth known
    rw [recorded] at final_
    rw [same, Option.some.inj final_]

theorem maxStack_of_finish {body : EmittedBody} (finished : final.finish = .ok body) :
    body.maxStack = final.maxDepth := by
  unfold Emitter.finish at finished
  cases narrowed : final.layout.narrowed with
  | error error => simp [narrowed, bind, Except.bind] at finished
  | ok layout =>
      cases written : layout.code with
      | error error => simp [narrowed, written, bind, Except.bind] at finished
      | ok code =>
          simp only [narrowed, written, bind, Except.bind, pure, Except.pure,
            Except.ok.injEq] at finished
          rw [← finished]

/-- What an instruction takes where control arrives, what it leaves there, and
where this depth is found again. -/
theorem step_of_arrival {position : Nat} {opcode : Opcode} {operand : Operand Nat}
    (done : Runs calls Emitter.empty final)
    (found : (emitted calls)[position]? = some (opcode, operand))
    (reachable : (arrival calls position).reachable = true) :
    ∃ pops pushes,
      declaredEffect opcode operand (arrival calls position).depth = .ok (pops, pushes) ∧
      0 ≤ (arrival calls position).depth - pops ∧
      (arrival calls position).depth - pops + pushes ≤ final.maxDepth ∧
      (endsPath opcode = false → (arrival calls (position + 1)).reachable = true ∧
        (arrival calls (position + 1)).depth = (arrival calls position).depth - pops + pushes) ∧
      ∀ label ∈ operand.targets, final.labelDepths.lookup label =
        some ((arrival calls position).depth - pops + pushes) := by
  obtain ⟨after, marks, performed, still, others⟩ := arrival_succ done found
  obtain ⟨info, pops, pushes, known, effect, emits, goesOn⟩ := Emitter.run_emit performed
  rcases emits.written with ⟨piece, writes, _⟩
  have follows := emits.follows
  rw [reachable] at follows
  have sum := follows.depth_eq_of_reachable
  have kept : Keeps after final := (keeps_of_runs others).trans (runs_arrival done _).2
  refine ⟨pops, pushes, declaredEffect_of_stackEffect known effect writes, follows.noUnderflow rfl,
    ?_, ?_, ?_⟩
  · have high := follows.depth_le
    have grows := kept.maxDepth_le
    omega
  · intro continues
    simp only [endsPath, known, Option.any_some] at continues
    have arrives : after.reachable = true := by rw [goesOn, reachable, continues]; rfl
    obtain ⟨later, same⟩ := depth_of_runs others still arrives
    exact ⟨later, same.trans sum⟩
  · intro label member
    rw [← sum]
    exact kept.labelDepths label after.depth (emits.entered reachable label member)

/-- Every path arrives with the depth that was followed. -/
theorem depth_of_path {position : Nat} {depth : Int} (done : Runs calls Emitter.empty final)
    (enters : EntersEmpty calls) (path : Path calls position depth) :
    (arrival calls position).reachable = true ∧ (arrival calls position).depth = depth := by
  induction path with
  | start => exact depth_of_runs (runs_arrival done 0).1 (emitted_upTo_zero calls) rfl
  | fallThrough path found effect continues inductionHypothesis =>
      rcases inductionHypothesis with ⟨reachable, followed⟩
      obtain ⟨_, _, declared, _, _, next, _⟩ := step_of_arrival done found reachable
      rw [followed, effect] at declared
      simp only [Except.ok.injEq, Prod.mk.injEq] at declared
      rcases declared with ⟨rfl, rfl⟩
      rw [followed] at next
      exact next continues
  | jump path found effect member marked inductionHypothesis =>
      rcases inductionHypothesis with ⟨reachable, followed⟩
      obtain ⟨_, _, declared, _, _, _, recorded⟩ := step_of_arrival done found reachable
      rw [followed, effect] at declared
      simp only [Except.ok.injEq, Prod.mk.injEq] at declared
      rcases declared with ⟨rfl, rfl⟩
      rw [followed] at recorded
      exact depth_of_jump done marked (recorded _ member)
        fun assumed => enters path found effect member assumed

end Run

/-- Paths of control have the depths that were followed, exactly if each label
that was taken to be entered with an empty stack is entered with one.  Then no
instruction on a path takes more than there is, and no depth is above the
reported size. -/
theorem maxStack_bounds_paths {calls : List EmitterCall} {final : Emitter} {body : EmittedBody}
    (done : run (performAll calls) Emitter.empty = (.ok (), final))
    (finished : final.finish = .ok body) :
    (EntersEmpty calls ↔
      ∀ position depth, Path calls position depth → (arrival calls position).depth = depth) ∧
    (EntersEmpty calls → ∀ position depth, Path calls position depth →
      0 ≤ depth ∧ depth ≤ body.maxStack ∧
      ∀ opcode operand, (emitted calls)[position]? = some (opcode, operand) →
        ∃ pops pushes, declaredEffect opcode operand depth = .ok (pops, pushes) ∧
          0 ≤ depth - pops ∧ depth - pops + pushes ≤ body.maxStack) := by
  have reported : body.maxStack = final.maxDepth := maxStack_of_finish finished
  refine ⟨⟨fun enters _ _ path => (depth_of_path done enters path).2, ?_⟩, ?_⟩
  · intro followed position label depth pops pushes opcode operand path found effect member assumed
    rcases id assumed with ⟨front, before, _⟩
    have marked : markedAt calls label = some (emitted front).length := by
      rw [markedAt, before]
      rfl
    rw [← followed _ _ (.jump path found effect member marked)]
    exact depth_of_assumedEmpty done assumed marked
  · intro enters position depth path
    obtain ⟨reachable, followed⟩ := depth_of_path done enters path
    have within := within_arrival done position
    have grows := (runs_arrival done position).2.maxDepth_le
    rw [reported]
    refine ⟨followed ▸ within.nonneg, ?_, ?_⟩
    · have high := within.depth_le
      omega
    · intro opcode operand found
      obtain ⟨pops, pushes, declared, enough, high, _⟩ := step_of_arrival done found reachable
      rw [followed] at declared enough high
      exact ⟨pops, pushes, declared, enough, high⟩

namespace StackPathsSample

def loop : List EmitterCall :=
  [.defineLabel, .defineLabel, .markLabel 0, .emit Opcode.ldcI40 .none,
    .emit BranchCondition.isTrue.longOpcode (.label 1), .emit Opcode.ldcI40 .none,
    .emit Opcode.pop .none, .emit BranchCondition.always.longOpcode (.label 0), .markLabel 1,
    .emit Opcode.ret .none]

/-- The second part of the code jumps into the first with one value more than
was there when the first part was followed. -/
def jumpWithValue : List EmitterCall :=
  [.defineLabel, .defineLabel, .emit BranchCondition.always.longOpcode (.label 1), .markLabel 0,
    .emit Opcode.ldcI40 .none, .emit Opcode.pop .none, .emit Opcode.ret .none, .markLabel 1,
    .emit Opcode.ldcI40 .none, .emit BranchCondition.always.longOpcode (.label 0)]

def finalOf (calls : List EmitterCall) : Emitter :=
  (run (performAll calls) Emitter.empty).2

end StackPathsSample

open StackPathsSample in
theorem maxStack_bounds_paths_of_loop :
    ∃ final body, run (performAll loop) Emitter.empty = (.ok (), final) ∧
      final.finish = .ok body ∧ body.maxStack = 1 ∧ EntersEmpty loop ∧
      ∀ position depth, Path loop position depth →
        (arrival loop position).depth = depth ∧ 0 ≤ depth ∧ depth ≤ body.maxStack := by
  have done : run (performAll loop) Emitter.empty = (.ok (), finalOf loop) :=
    run_eq_ok_of_toOption (by decide +kernel)
  have finished : (finalOf loop).finish =
      .ok ⟨[0x16, 0x2D, 0x04, 0x16, 0x26, 0x2B, 0xF9, 0x2A], 1, [], []⟩ :=
    eq_ok_of_toOption (by decide +kernel)
  have enters : EntersEmpty loop := by
    intro position label depth pops pushes opcode operand _ _ _ _ assumed
    rcases assumed with ⟨front, found, unreachable, unknown⟩
    by_cases first : label = 0
    · rw [first] at found
      have front_ : [.defineLabel, .defineLabel] = front := Option.some.inj found
      rw [← front_] at unreachable
      exact absurd unreachable (by decide +kernel)
    · by_cases second : label = 1
      · rw [second] at found unknown
        have front_ : loop.take 8 = front := Option.some.inj found
        rw [← front_] at unknown
        exact absurd unknown (by decide +kernel)
      · simp [loop, beforeMark, Ne.symm first, Ne.symm second] at found
  obtain ⟨followed, bounds⟩ := maxStack_bounds_paths done finished
  refine ⟨_, _, done, finished, rfl, enters, ?_⟩
  intro position depth path
  rcases bounds enters position depth path with ⟨low, high, _⟩
  exact ⟨followed.mp enters position depth path, low, high⟩

open StackPathsSample in
/-- A path may need more room than is reported. -/
theorem maxStack_exceeded_by_path :
    ∃ final body position depth, run (performAll jumpWithValue) Emitter.empty = (.ok (), final) ∧
      final.finish = .ok body ∧ Path jumpWithValue position depth ∧
      (body.maxStack : Int) < depth := by
  have done : run (performAll jumpWithValue) Emitter.empty = (.ok (), finalOf jumpWithValue) :=
    run_eq_ok_of_toOption (by decide +kernel)
  have finished : (finalOf jumpWithValue).finish =
      .ok ⟨[0x2B, 0x03, 0x16, 0x26, 0x2A, 0x16, 0x2B, 0xFA], 1, [], []⟩ :=
    eq_ok_of_toOption (by decide +kernel)
  have forward : declaredEffect BranchCondition.always.longOpcode (.label 1) 0 = .ok (0, 0) :=
    eq_ok_of_toOption (by decide +kernel)
  have second : Path jumpWithValue 4 0 :=
    .jump .start rfl forward (List.mem_singleton_self 1) rfl
  have loads : ∀ depth, declaredEffect Opcode.ldcI40 .none depth = .ok (0, 1) := fun _ =>
    declaredEffect_eq (by decide) rfl rfl
  have loaded : Path jumpWithValue 5 1 :=
    .fallThrough second rfl (loads 0) (by decide +kernel)
  have backward : declaredEffect BranchCondition.always.longOpcode (.label 0) 1 = .ok (0, 0) :=
    eq_ok_of_toOption (by decide +kernel)
  have back : Path jumpWithValue 1 1 :=
    .jump loaded rfl backward (List.mem_singleton_self 0) rfl
  have loadedAgain : Path jumpWithValue 2 2 :=
    .fallThrough back rfl (loads 1) (by decide +kernel)
  exact ⟨_, _, 2, 2, done, finished, loadedAgain, by decide⟩

end CilTemplate
