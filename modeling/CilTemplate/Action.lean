import CilTemplate.Error

/-
Actions on a state that may fail.  A failed action still says which state it
left behind, so what it changed before it failed is not lost.
-/

namespace CilTemplate

abbrev Action (State Result : Type) := ExceptT Error (StateM State) Result

namespace Action

variable {State Part Result Next : Type}

def run (action : Action State Result) (state : State) : Except Error Result × State :=
  StateT.run (ExceptT.run action) state

def ofRun (step : State → Except Error Result × State) : Action State Result :=
  ExceptT.mk (fun state => step state)

def ofExcept (result : Except Error Result) : Action State Result :=
  ofRun fun state => (result, state)

/-- An action on a part of the state.  The state is split into the part and
what puts the state together again around another part. -/
def onPart (split : State → Part × (Part → State)) (action : Action Part Result) :
    Action State Result :=
  ofRun fun state =>
    let (part, rebuild) := split state
    let (result, part) := action.run part
    (result, rebuild part)

def attempt (action : Action State Result) : StateM State (Except Error Result) :=
  ExceptT.run action

@[simp] theorem run_pure (value : Result) (state : State) :
    run (pure value : Action State Result) state = (.ok value, state) :=
  rfl

@[simp] theorem run_throw (error : Error) (state : State) :
    run (throw error : Action State Result) state = (.error error, state) :=
  rfl

@[simp] theorem run_get (state : State) :
    run (get : Action State State) state = (.ok state, state) :=
  rfl

@[simp] theorem run_set (next state : State) :
    run (set next : Action State PUnit) state = (.ok ⟨⟩, next) :=
  rfl

@[simp] theorem run_modify (change : State → State) (state : State) :
    run (modify change : Action State PUnit) state = (.ok ⟨⟩, change state) :=
  rfl

@[simp] theorem run_ofRun (step : State → Except Error Result × State) (state : State) :
    run (ofRun step) state = step state :=
  rfl

@[simp] theorem run_ofExcept (result : Except Error Result) (state : State) :
    run (ofExcept result) state = (result, state) :=
  rfl

@[simp] theorem run_lift (step : StateM State Result) (state : State) :
    run (ExceptT.lift step : Action State Result) state =
      (.ok (StateT.run step state).1, (StateT.run step state).2) :=
  rfl

@[simp] theorem run_attempt (action : Action State Result) (state : State) :
    StateT.run action.attempt state = run action state :=
  rfl

@[simp] theorem run_onPart (split : State → Part × (Part → State))
    (action : Action Part Result) (state : State) :
    run (action.onPart split) state =
      ((run action (split state).1).1, (split state).2 (run action (split state).1).2) :=
  rfl

@[simp] theorem run_ite (condition : Prop) [Decidable condition]
    (left right : Action State Result) (state : State) :
    run (if condition then left else right) state =
      if condition then run left state else run right state := by
  split <;> rfl

theorem run_bind (action : Action State Result) (next : Result → Action State Next)
    (state : State) :
    run (action >>= next) state =
      match run action state with
      | (.ok value, after) => run (next value) after
      | (.error error, after) => (.error error, after) := by
  change (ExceptT.bindCont next =<< StateT.run action.run) state = _
  change (match (action.run state) with
    | (value, after) => (ExceptT.bindCont next value) after) = _
  cases action.run state with
  | mk result after => cases result <;> rfl

theorem run_bind_eq_ok {action : Action State Result} {next : Result → Action State Next}
    {state final : State} {value : Next} :
    run (action >>= next) state = (.ok value, final) ↔
      ∃ middle after, run action state = (.ok middle, after) ∧
        run (next middle) after = (.ok value, final) := by
  rw [run_bind]
  cases run action state with
  | mk result after => cases result <;> simp [and_assoc]

theorem run_bind_eq_error {action : Action State Result} {next : Result → Action State Next}
    {state final : State} {error : Error} :
    run (action >>= next) state = (.error error, final) ↔
      run action state = (.error error, final) ∨
        ∃ middle after, run action state = (.ok middle, after) ∧
          run (next middle) after = (.error error, final) := by
  rw [run_bind]
  cases run action state with
  | mk result after => cases result <;> simp [and_assoc]

theorem run_eq_of_result {action : Action State Result} {state : State}
    {result : Except Error Result} (same : (run action state).1 = result) :
    run action state = (result, (run action state).2) :=
  Prod.ext same rfl

theorem run_eq_ok_of_toOption {action : Action State Result} {state : State} {value : Result}
    (same : (run action state).1.toOption = some value) :
    run action state = (.ok value, (run action state).2) :=
  run_eq_of_result (eq_ok_of_toOption same)

theorem exists_error_of_ne_ok {action : Action State Result} {state : State}
    (never : ∀ value after, run action state ≠ (.ok value, after)) :
    ∃ error after, run action state = (.error error, after) := by
  cases outcome : run action state with
  | mk result after =>
      cases result with
      | ok value => exact absurd outcome (never value after)
      | error error => exact ⟨error, after, rfl⟩

/-- Whether it succeeds or fails, the action keeps a property of the state. -/
def Maintains (invariant : State → Prop) (action : Action State Result) : Prop :=
  ∀ state, invariant state → invariant (run action state).2

variable {invariant : State → Prop}

theorem Maintains.run_bind {action : Action State Result} {next : Result → Action State Next}
    {state : State} {post : Except Error Next × State → Prop}
    (keeps : Maintains invariant action) (held : invariant state)
    (fails : ∀ error after, invariant after → post (.error error, after))
    (continues : ∀ value after, invariant after → post (run (next value) after)) :
    post (run (action >>= next) state) := by
  have heldAfter := keeps state held
  rw [Action.run_bind]
  cases outcome : run action state with
  | mk result after =>
      rw [outcome] at heldAfter
      cases result with
      | ok value => exact continues value after heldAfter
      | error error => exact fails error after heldAfter

namespace Maintains

theorem pure (value : Result) : Maintains invariant (pure value : Action State Result) :=
  fun _ held => held

theorem throw (error : Error) : Maintains invariant (throw error : Action State Result) :=
  fun _ held => held

theorem get : Maintains invariant (get : Action State State) :=
  fun _ held => held

theorem ofExcept (result : Except Error Result) :
    Maintains invariant (Action.ofExcept result) :=
  fun _ held => held

theorem attempt {action : Action State Result} (keeps : Maintains invariant action) :
    Maintains invariant (ExceptT.lift action.attempt) :=
  keeps

theorem bind {action : Action State Result} {next : Result → Action State Next}
    (first : Maintains invariant action) (rest : ∀ value, Maintains invariant (next value)) :
    Maintains invariant (action >>= next) := by
  intro state held
  exact @Maintains.run_bind _ _ _ _ action next state (fun outcome => invariant outcome.2) first
    held (fun _ _ kept => kept) fun value after kept => rest value after kept

end Maintains
end Action
end CilTemplate
