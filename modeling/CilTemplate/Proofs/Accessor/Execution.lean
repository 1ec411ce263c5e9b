import CilTemplate.Accessor.Accessor
import CilTemplate.Proofs.Code.Correspondence
import Mathlib.Logic.Function.Basic

/-
Callers of one accessor.  They run its code side by side on the same fields
and the same capture table, and every step is one instruction of one caller.
-/

namespace CilTemplate

inductive Datum
  | null
  | int32 (value : Int32)
  | int64 (value : Int64)
  | location (field : Field)
  | object (object : CapturedObject)
deriving DecidableEq

/-- A test holds of everything but zero and the null reference. -/
def Datum.isTrue : Datum → Bool
  | null => false
  | int32 value => value != 0
  | int64 value => value != 0
  | location _ => true
  | object _ => true

theorem Datum.isTrue_int32 {value : Int32} (other : value ≠ 0) : (int32 value).isTrue = true :=
  bne_iff_ne.mpr other

/-- What all callers share.  The keys that were taken are listed, also those
that were missing, the latest first. -/
structure SharedState where
  fields : Field → Datum
  table : CaptureTable
  taken : List UInt64

namespace SharedState

def store (shared : SharedState) (field : Field) (value : Datum) : SharedState :=
  { shared with fields := Function.update shared.fields field value }

def compareExchange (shared : SharedState) (field : Field) (value expected : Datum) :
    SharedState :=
  if shared.fields field = expected then shared.store field value else shared

def take (shared : SharedState) (key : UInt64) : Except Error CapturedObject × SharedState :=
  let (outcome, table) := (CaptureTable.take key).run shared.table
  (outcome, { shared with table := table, taken := key :: shared.taken })

@[simp] theorem fields_store (shared : SharedState) (field : Field) (value : Datum) :
    (shared.store field value).fields field = value := by
  simp only [store, Function.update_self]

theorem fields_store_of_ne (shared : SharedState) {field other : Field} (different : other ≠ field)
    (value : Datum) : (shared.store field value).fields other = shared.fields other := by
  simp only [store, Function.update_of_ne different]

theorem take_eq_ok {shared : SharedState} {key : UInt64} {object : CapturedObject}
    (parked : shared.table.find? key = some object) :
    ∃ table, shared.take key =
      (.ok object, { shared with table := table, taken := key :: shared.taken }) := by
  refine ⟨((CaptureTable.take key).run shared.table).2, Prod.ext ?_ rfl⟩
  change ((CaptureTable.take key).run shared.table).1 = .ok object
  simp only [CaptureTable.take, Action.run_bind, Action.run_get, parked, Action.run_set,
    Action.run_pure]

end SharedState

/-- A caller stands in front of an instruction, has returned, or has failed
since it took a key that was missing. -/
inductive Caller
  | running (position : Nat) (stack : List Datum)
  | returned (value : Datum)
  | missed (key : UInt64)
deriving DecidableEq

/-- Code with the methods that it calls: one compares and exchanges, the other
one takes an object out of the table. -/
structure CallerCode where
  body : Body
  claimMethod : Method
  takeMethod : Method

namespace CallerCode

def branches? : BranchCondition → List Datum → Option (Bool × List Datum)
  | .always, stack => some (true, stack)
  | .isTrue, tested :: stack => some (tested.isTrue, stack)
  | .isFalse, tested :: stack => some (!tested.isTrue, stack)
  | _, _ => none

/-- A prefix does nothing by itself, a constant is pushed, and an object gets
its own type back. -/
def rawStack? (opcode : Opcode) (operand : Operand Label) (stack : List Datum) :
    Option (List Datum) :=
  if opcode = Opcode.volatile then some stack
  else if opcode = Opcode.castclass ∨ opcode = Opcode.unboxAny then
    match stack with
    | .object object :: stack => some (.object object :: stack)
    | _ => none
  else
    match operand with
    | .immediate (.int64 value) => some (.int64 value :: stack)
    | _ =>
        (Instruction.int32Constant? (.raw opcode operand)).map fun value => .int32 value :: stack

variable (code : CallerCode)

def call? (shared : SharedState) (position : Nat) (method : Method) (stack : List Datum) :
    Option (SharedState × Caller) :=
  if method = code.claimMethod then
    match stack with
    | expected :: value :: .location field :: stack =>
        some (shared.compareExchange field value expected,
          .running (position + 1) (shared.fields field :: stack))
    | _ => none
  else if method = code.takeMethod then
    match stack with
    | .int64 key :: stack =>
        let (outcome, shared) := shared.take key.toUInt64
        match outcome with
        | .ok object => some (shared, .running (position + 1) (.object object :: stack))
        | .error _ => some (shared, .missed key.toUInt64)
    | _ => none
  else none

/-- Executes an instruction.  One that no accessor has, or that does not find
its values on the stack, is stuck. -/
def execute? (shared : SharedState) (position : Nat) :
    Instruction Label → List Datum → Option (SharedState × Caller)
  | .field .ofType .load field, stack =>
      some (shared, .running (position + 1) (shared.fields field :: stack))
  | .field .ofType .address field, stack =>
      some (shared, .running (position + 1) (.location field :: stack))
  | .field .ofType .store field, value :: stack =>
      some (shared.store field value, .running (position + 1) stack)
  | .branch condition target, stack => do
      let (taken, stack) ← branches? condition stack
      let place ← code.body.place? target
      some (shared, .running (if taken then place else position + 1) stack)
  | .call method, stack => code.call? shared position method stack
  | .raw opcode operand, stack => do
      let stack ← rawStack? opcode operand stack
      some (shared, .running (position + 1) stack)
  | .ret, [value] => some (shared, .returned value)
  | _, _ => none

def advance? (shared : SharedState) : Caller → Option (SharedState × Caller)
  | .running position stack => do
      let instruction ← code.body.instructions[position]?
      code.execute? shared position instruction stack
  | _ => none

end CallerCode

structure CallerStates (Name : Type) where
  shared : SharedState
  caller : Name → Caller

namespace CallerStates

variable {Name : Type}

def start (cache : Field) (table : CaptureTable) : CallerStates Name where
  shared := ⟨fun field => if field = cache then .null else .int32 0, table, []⟩
  caller _ := .running 0 []

variable [DecidableEq Name]

def put (states : CallerStates Name) (name : Name) (shared : SharedState) (caller : Caller) :
    CallerStates Name :=
  ⟨shared, Function.update states.caller name caller⟩

@[simp] theorem shared_put (states : CallerStates Name) (name : Name) (shared : SharedState)
    (caller : Caller) : (states.put name shared caller).shared = shared :=
  rfl

@[simp] theorem caller_put (states : CallerStates Name) (name : Name) (shared : SharedState)
    (caller : Caller) : (states.put name shared caller).caller name = caller := by
  simp only [put, Function.update_self]

theorem caller_put_of_ne (states : CallerStates Name) {name other : Name} (different : other ≠ name)
    (shared : SharedState) (caller : Caller) :
    (states.put name shared caller).caller other = states.caller other := by
  simp only [put, Function.update_of_ne different]

def step? (code : CallerCode) (states : CallerStates Name) (name : Name) :
    Option (CallerStates Name) := do
  let (shared, caller) ← code.advance? states.shared (states.caller name)
  some (states.put name shared caller)

theorem step?_eq_some {code : CallerCode} {states next : CallerStates Name} {name : Name}
    (step : states.step? code name = some next) :
    ∃ shared caller, code.advance? states.shared (states.caller name) = some (shared, caller) ∧
      next = states.put name shared caller := by
  obtain ⟨⟨shared, caller⟩, advanced, made⟩ := Option.bind_eq_some_iff.mp step
  exact ⟨shared, caller, advanced, (Option.some.inj made).symm⟩

/-- States that come from a first one by steps of callers in any order. -/
inductive Reachable (code : CallerCode) (first : CallerStates Name) : CallerStates Name → Prop
  | first : Reachable code first first
  | step {states next : CallerStates Name} {name : Name} (reached : Reachable code first states)
      (step : states.step? code name = some next) : Reachable code first next

def steps? (code : CallerCode) : List Name → CallerStates Name → Option (CallerStates Name)
  | [], states => some states
  | name :: rest, states => (states.step? code name).bind (steps? code rest)

theorem Reachable.steps {code : CallerCode} {first states last : CallerStates Name}
    (reached : Reachable code first states) (schedule : List Name)
    (done : steps? code schedule states = some last) : Reachable code first last := by
  induction schedule generalizing states with
  | nil => exact Option.some.inj done ▸ reached
  | cons name rest inductionHypothesis =>
      obtain ⟨next, step, later⟩ := Option.bind_eq_some_iff.mp done
      exact inductionHypothesis (reached.step step) later

end CallerStates
end CilTemplate
