import CilTemplate.Proofs.Accessor.Execution

/-
One caller claims the captured object.  It alone takes the object out of the
table and publishes it, and all callers return what is published.
-/

namespace CilTemplate
namespace Accessor

/-- What the callers of an accessor work on. -/
structure Parts where
  runtime : AccessorRuntime
  key : UInt64
  object : CapturedObject
  cache : Field
  claimed : Field
  ready : Field

namespace Parts

structure Apart (parts : Parts) : Prop where
  methods : parts.runtime.claimMethod ≠ parts.runtime.takeMethod
  cacheClaimed : parts.cache ≠ parts.claimed
  cacheReady : parts.cache ≠ parts.ready
  claimedReady : parts.claimed ≠ parts.ready

def code (parts : Parts) (type : CilType) : CallerCode where
  body := body parts.runtime parts.key type parts.cache parts.claimed parts.ready
  claimMethod := parts.runtime.claimMethod
  takeMethod := parts.runtime.takeMethod

variable (parts : Parts)

structure Flags (shared : SharedState) (claimed ready : Int32) : Prop where
  claimed : shared.fields parts.claimed = .int32 claimed
  ready : shared.fields parts.ready = .int32 ready

structure Untaken (shared : SharedState) : Prop where
  parked : shared.table.find? parts.key = some parts.object
  taken : shared.taken = []

structure Kept (shared : SharedState) : Prop where
  cache : shared.fields parts.cache = .object parts.object
  taken : shared.taken = [parts.key]

/-- A caller that has not claimed the object, or that has published it. -/
inductive Visits (published : Prop) : Caller → Prop
  | enters : Visits published (.running 0 [])
  | asks : Visits published (.running 1 [])
  | knows {answer : Int32} (truthful : answer ≠ 0 → published) :
      Visits published (.running 2 [.int32 answer])
  | claims : Visits published (.running 3 [])
  | locates : Visits published (.running 4 [.location parts.claimed])
  | offers : Visits published (.running 5 [.int32 1, .location parts.claimed])
  | expects : Visits published (.running 6 [.int32 0, .int32 1, .location parts.claimed])
  | loses : Visits published (.running 7 [.int32 1])
  | publishes (done : published) : Visits published (.running 15 [])
  | waits : Visits published (.running 16 [])
  | asksAgain : Visits published (.running 17 [])
  | knowsAgain {answer : Int32} (truthful : answer ≠ 0 → published) :
      Visits published (.running 18 [.int32 answer])
  | finds (done : published) : Visits published (.running 19 [])
  | loads (done : published) : Visits published (.running 20 [.object parts.object])
  | returns : Visits published (.returned (.object parts.object))

/-- The caller that has claimed the object and has not published it yet. -/
inductive Owns (shared : SharedState) : Caller → Prop
  | wins (untaken : parts.Untaken shared) : Owns shared (.running 7 [.int32 0])
  | names (untaken : parts.Untaken shared) : Owns shared (.running 8 [])
  | takes (untaken : parts.Untaken shared) : Owns shared (.running 9 [.int64 parts.key.toInt64])
  | unpacks (taken : shared.taken = [parts.key]) : Owns shared (.running 10 [.object parts.object])
  | caches (taken : shared.taken = [parts.key]) : Owns shared (.running 11 [.object parts.object])
  | announces (kept : parts.Kept shared) : Owns shared (.running 12 [])
  | flags (kept : parts.Kept shared) : Owns shared (.running 13 [.int32 1])
  | stores (kept : parts.Kept shared) : Owns shared (.running 14 [.int32 1])

/-- At first the object is unclaimed, then one caller owns it, and at last it
is published. -/
inductive Guarded {Name : Type} (states : CallerStates Name) : Prop
  | unclaimed (flags : parts.Flags states.shared 0 0) (untaken : parts.Untaken states.shared)
      (visits : ∀ name, parts.Visits False (states.caller name))
  | claimed (owner : Name) (flags : parts.Flags states.shared 1 0)
      (owns : parts.Owns states.shared (states.caller owner))
      (visits : ∀ name, name ≠ owner → parts.Visits False (states.caller name))
  | published (flags : parts.Flags states.shared 1 1) (kept : parts.Kept states.shared)
      (visits : ∀ name, parts.Visits True (states.caller name))

variable {parts} {published : Prop} {shared : SharedState} {caller : Caller} {type : CilType}

theorem Visits.publish (visits : parts.Visits False caller) : parts.Visits True caller := by
  cases visits with
  | enters => exact .enters
  | asks => exact .asks
  | knows truthful => exact .knows fun _ => trivial
  | claims => exact .claims
  | locates => exact .locates
  | offers => exact .offers
  | expects => exact .expects
  | loses => exact .loses
  | publishes done => exact done.elim
  | waits => exact .waits
  | asksAgain => exact .asksAgain
  | knowsAgain truthful => exact .knowsAgain fun _ => trivial
  | finds done => exact done.elim
  | loads done => exact done.elim
  | returns => exact .returns

theorem Visits.advance (type : CilType) {claimed ready : Int32}
    (visits : parts.Visits published caller) (flags : parts.Flags shared claimed ready)
    (truthful : ready ≠ 0 → published)
    (kept : published → shared.fields parts.cache = .object parts.object) :
    caller = .returned (.object parts.object) ∨
      caller = .running 6 [.int32 0, .int32 1, .location parts.claimed] ∨
      ∃ after, (parts.code type).advance? shared caller = some (shared, after) ∧
        parts.Visits published after := by
  cases visits with
  | returns => exact Or.inl rfl
  | expects => exact Or.inr (Or.inl rfl)
  | enters => exact Or.inr (Or.inr ⟨_, rfl, .asks⟩)
  | asks =>
      refine Or.inr (Or.inr ⟨.running 2 [.int32 ready], ?_, .knows truthful⟩)
      rw [← flags.ready]
      rfl
  | @knows answer truthful =>
      refine Or.inr (Or.inr ⟨_, rfl, ?_⟩)
      by_cases zero : answer = 0
      · rw [zero]
        exact .claims
      · rw [Datum.isTrue_int32 zero]
        exact .finds (truthful zero)
  | claims => exact Or.inr (Or.inr ⟨_, rfl, .locates⟩)
  | locates => exact Or.inr (Or.inr ⟨_, rfl, .offers⟩)
  | offers => exact Or.inr (Or.inr ⟨_, rfl, .expects⟩)
  | loses => exact Or.inr (Or.inr ⟨_, rfl, .waits⟩)
  | publishes done => exact Or.inr (Or.inr ⟨_, rfl, .finds done⟩)
  | waits => exact Or.inr (Or.inr ⟨_, rfl, .asksAgain⟩)
  | asksAgain =>
      refine Or.inr (Or.inr ⟨.running 18 [.int32 ready], ?_, .knowsAgain truthful⟩)
      rw [← flags.ready]
      rfl
  | @knowsAgain answer truthful =>
      refine Or.inr (Or.inr ⟨_, rfl, ?_⟩)
      by_cases zero : answer = 0
      · rw [zero]
        exact .waits
      · rw [Datum.isTrue_int32 zero]
        exact .finds (truthful zero)
  | finds done =>
      refine Or.inr (Or.inr ⟨.running 20 [.object parts.object], ?_, .loads done⟩)
      rw [← kept done]
      rfl
  | loads done => exact Or.inr (Or.inr ⟨_, rfl, .returns⟩)

/-- The exchange succeeds for the first caller and changes nothing for all
others. -/
theorem advance_expects {claimed ready : Int32} (flags : parts.Flags shared claimed ready) :
    (parts.code type).advance? shared
        (.running 6 [.int32 0, .int32 1, .location parts.claimed]) =
      some (if claimed = 0 then shared.store parts.claimed (.int32 1) else shared,
        .running 7 [.int32 claimed]) := by
  change (parts.code type).call? shared 6 parts.runtime.claimMethod
    [.int32 0, .int32 1, .location parts.claimed] = _
  simp only [CallerCode.call?, code, if_true, SharedState.compareExchange, flags.claimed,
    Datum.int32.injEq]

theorem Owns.advance (type : CilType) (apart : parts.Apart) (flags : parts.Flags shared 1 0)
    (owns : parts.Owns shared caller) :
    ∃ next after, (parts.code type).advance? shared caller = some (next, after) ∧
      (parts.Flags next 1 0 ∧ parts.Owns next after ∨
        parts.Flags next 1 1 ∧ parts.Kept next ∧ parts.Visits True after) := by
  cases owns with
  | wins untaken => exact ⟨shared, _, rfl, Or.inl ⟨flags, .names untaken⟩⟩
  | names untaken => exact ⟨shared, _, rfl, Or.inl ⟨flags, .takes untaken⟩⟩
  | takes untaken =>
      obtain ⟨table, taken⟩ := SharedState.take_eq_ok untaken.parked
      refine ⟨{ shared with table := table, taken := parts.key :: shared.taken },
        .running 10 [.object parts.object], ?_, Or.inl ⟨⟨flags.claimed, flags.ready⟩, .unpacks ?_⟩⟩
      · change (parts.code type).call? shared 9 parts.runtime.takeMethod
          [.int64 parts.key.toInt64] = _
        simp only [CallerCode.call?, code, if_neg apart.methods.symm, if_true,
          UInt64.toUInt64_toInt64, taken]
      · rw [untaken.taken]
  | unpacks taken =>
      refine ⟨shared, .running 11 [.object parts.object], ?_, Or.inl ⟨flags, .caches taken⟩⟩
      change (do
        let stack ← CallerCode.rawStack? (unpackOpcode type) (.type type) [.object parts.object]
        some (shared, Caller.running 11 stack)) = _
      unfold unpackOpcode
      split <;> rfl
  | caches taken =>
      refine ⟨_, _, rfl, Or.inl ⟨⟨?_, ?_⟩, .announces ⟨SharedState.fields_store _ _ _, taken⟩⟩⟩
      · rw [SharedState.fields_store_of_ne _ apart.cacheClaimed.symm]
        exact flags.claimed
      · rw [SharedState.fields_store_of_ne _ apart.cacheReady.symm]
        exact flags.ready
  | announces kept => exact ⟨shared, _, rfl, Or.inl ⟨flags, .flags kept⟩⟩
  | flags kept => exact ⟨shared, _, rfl, Or.inl ⟨flags, .stores kept⟩⟩
  | stores kept =>
      refine ⟨_, _, rfl, Or.inr ⟨⟨?_, SharedState.fields_store _ _ _⟩, ⟨?_, kept.taken⟩,
        .publishes trivial⟩⟩
      · rw [SharedState.fields_store_of_ne _ apart.claimedReady]
        exact flags.claimed
      · rw [SharedState.fields_store_of_ne _ apart.cacheReady]
        exact kept.cache

theorem Visits.step {claimed ready : Int32} {next : SharedState} {after : Caller}
    (visits : parts.Visits published caller) (flags : parts.Flags shared claimed ready)
    (binary : claimed = 0 ∨ claimed = 1) (truthful : ready ≠ 0 → published)
    (kept : published → shared.fields parts.cache = .object parts.object)
    (advanced : (parts.code type).advance? shared caller = some (next, after)) :
    next = shared ∧ parts.Visits published after ∨
      claimed = 0 ∧ next = shared.store parts.claimed (.int32 1) ∧
        after = .running 7 [.int32 0] := by
  rcases visits.advance type flags truthful kept with returned | expecting | ⟨last, goes, still⟩
  · rw [returned] at advanced
    cases advanced
  · rw [expecting, advance_expects flags] at advanced
    obtain ⟨rfl, rfl⟩ := Prod.mk.inj (Option.some.inj advanced)
    rcases binary with rfl | rfl
    · exact Or.inr ⟨rfl, rfl, rfl⟩
    · exact Or.inl ⟨rfl, .loses⟩
  · obtain ⟨rfl, rfl⟩ := Prod.mk.inj (Option.some.inj (goes.symm.trans advanced))
    exact Or.inl ⟨rfl, still⟩

theorem Visits.advances {claimed ready : Int32} (visits : parts.Visits published caller)
    (flags : parts.Flags shared claimed ready) (truthful : ready ≠ 0 → published)
    (kept : published → shared.fields parts.cache = .object parts.object) :
    caller = .returned (.object parts.object) ∨
      ((parts.code type).advance? shared caller).isSome = true := by
  rcases visits.advance type flags truthful kept with returned | expecting | ⟨last, goes, _⟩
  · exact Or.inl returned
  · rw [expecting, advance_expects flags]
    exact Or.inr rfl
  · rw [goes]
    exact Or.inr rfl

variable {Name : Type}

theorem guarded_start (apart : parts.Apart) {table : CaptureTable}
    (parked : table.find? parts.key = some parts.object) :
    parts.Guarded (CallerStates.start parts.cache table : CallerStates Name) :=
  .unclaimed ⟨if_neg apart.cacheClaimed.symm, if_neg apart.cacheReady.symm⟩ ⟨parked, rfl⟩
    fun _ => .enters

theorem Guarded.taken {states : CallerStates Name} (guarded : parts.Guarded states) :
    states.shared.taken = [] ∨ states.shared.taken = [parts.key] := by
  cases guarded with
  | unclaimed flags untaken visits => exact Or.inl untaken.taken
  | published flags kept visits => exact Or.inr kept.taken
  | claimed owner flags owns visits =>
      generalize states.caller _ = caller at owns
      cases owns with
      | wins untaken | names untaken | takes untaken => exact Or.inl untaken.taken
      | unpacks taken | caches taken => exact Or.inr taken
      | announces kept | flags kept | stores kept => exact Or.inr kept.taken

variable [DecidableEq Name]

theorem visits_put {states : CallerStates Name} {name other : Name} {next : SharedState}
    {after : Caller} (visits : parts.Visits published (states.caller other))
    (still : parts.Visits published after) :
    parts.Visits published ((states.put name next after).caller other) := by
  by_cases same : other = name
  · rw [same, CallerStates.caller_put]
    exact still
  · rw [CallerStates.caller_put_of_ne states same]
    exact visits

/-- No step of any caller breaks the order of claim and publication. -/
theorem Guarded.step (apart : parts.Apart) {states next : CallerStates Name} {name : Name}
    (guarded : parts.Guarded states) (step : states.step? (parts.code type) name = some next) :
    parts.Guarded next := by
  obtain ⟨shared, after, advanced, rfl⟩ := CallerStates.step?_eq_some step
  cases guarded with
  | unclaimed flags untaken visits =>
      rcases (visits name).step flags (Or.inl rfl) (fun set => (set rfl).elim) False.elim
        advanced with ⟨rfl, still⟩ | ⟨_, rfl, rfl⟩
      · exact .unclaimed flags untaken fun other => visits_put (visits other) still
      · refine .claimed name ⟨SharedState.fields_store _ _ _, ?_⟩ ?_ ?_
        · rw [CallerStates.shared_put, SharedState.fields_store_of_ne _ apart.claimedReady.symm]
          exact flags.ready
        · rw [CallerStates.caller_put]
          exact .wins ⟨untaken.parked, untaken.taken⟩
        · intro other different
          rw [CallerStates.caller_put_of_ne states different]
          exact visits other
  | claimed owner flags owns visits =>
      by_cases own : name = owner
      · subst own
        obtain ⟨_, _, goes, stays⟩ := owns.advance type apart flags
        obtain ⟨rfl, rfl⟩ := Prod.mk.inj (Option.some.inj (goes.symm.trans advanced))
        rcases stays with ⟨flags, owns⟩ | ⟨flags, kept, publishes⟩
        · refine .claimed name flags ?_ fun other different => ?_
          · rw [CallerStates.caller_put]
            exact owns
          · rw [CallerStates.caller_put_of_ne states different]
            exact visits other different
        · refine .published flags kept fun other => ?_
          by_cases same : other = name
          · rw [same, CallerStates.caller_put]
            exact publishes
          · rw [CallerStates.caller_put_of_ne states same]
            exact (visits other same).publish
      · rcases (visits name own).step flags (Or.inr rfl) (fun set => (set rfl).elim) False.elim
          advanced with ⟨rfl, still⟩ | ⟨impossible, _⟩
        · refine .claimed owner flags ?_ fun other different =>
            visits_put (visits other different) still
          rw [CallerStates.caller_put_of_ne states (Ne.symm own)]
          exact owns
        · exact absurd impossible (by decide)
  | published flags kept visits =>
      rcases (visits name).step flags (Or.inr rfl) (fun _ => trivial) (fun _ => kept.cache)
        advanced with ⟨rfl, still⟩ | ⟨impossible, _⟩
      · exact .published flags kept fun other => visits_put (visits other) still
      · exact absurd impossible (by decide)

theorem guarded_of_reachable (apart : parts.Apart) {table : CaptureTable}
    (parked : table.find? parts.key = some parts.object) {states : CallerStates Name}
    (reached : CallerStates.Reachable (parts.code type) (.start parts.cache table) states) :
    parts.Guarded states := by
  induction reached with
  | first => exact guarded_start apart parked
  | step _ step inductionHypothesis => exact inductionHypothesis.step apart step

/-- Each caller has returned the object or can go on. -/
theorem Guarded.progress (type : CilType) (apart : parts.Apart) {states : CallerStates Name}
    (guarded : parts.Guarded states) (name : Name) :
    states.caller name = .returned (.object parts.object) ∨
      ((parts.code type).advance? states.shared (states.caller name)).isSome = true := by
  cases guarded with
  | unclaimed flags untaken visits =>
      exact (visits name).advances flags (fun set => (set rfl).elim) False.elim
  | published flags kept visits =>
      exact (visits name).advances flags (fun _ => trivial) (fun _ => kept.cache)
  | claimed owner flags owns visits =>
      by_cases own : name = owner
      · obtain ⟨_, _, goes, _⟩ := owns.advance type apart flags
        rw [own, goes]
        exact Or.inr rfl
      · exact (visits name own).advances flags (fun set => (set rfl).elim) False.elim

end Parts

/-- Any number of callers run the code of an accessor, one instruction at a
time in any order.  At most one of them takes an object out of the table, none
takes a key that is missing, and whoever returns, returns the parked object.  A
caller that has not returned is never stuck. -/
theorem callers_claim_once {Name : Type} [DecidableEq Name] {parts : Parts} {type : CilType}
    {table : CaptureTable} (apart : parts.Apart)
    (parked : table.find? parts.key = some parts.object) {states : CallerStates Name}
    (reached : CallerStates.Reachable (parts.code type) (.start parts.cache table) states) :
    (states.shared.taken = [] ∨ states.shared.taken = [parts.key]) ∧
      (∀ name key, states.caller name ≠ .missed key) ∧
      (∀ name value, states.caller name = .returned value → value = .object parts.object) ∧
      ∀ name position stack, states.caller name = .running position stack →
        ∃ next, states.step? (parts.code type) name = some next := by
  have guarded := Parts.guarded_of_reachable apart parked reached
  refine ⟨guarded.taken, ?_, ?_, ?_⟩
  · intro name key missed
    rcases guarded.progress type apart name with returned | goes
    · rw [missed] at returned
      cases returned
    · rw [missed] at goes
      cases goes
  · intro name value returned
    rcases guarded.progress type apart name with same | goes
    · rw [returned] at same
      exact Caller.returned.inj same
    · rw [returned] at goes
      cases goes
  · intro name position stack running
    rcases guarded.progress type apart name with returned | goes
    · rw [running] at returned
      cases returned
    · obtain ⟨⟨shared, after⟩, goes⟩ := Option.isSome_iff_exists.mp goes
      exact ⟨states.put name shared after, by rw [CallerStates.step?, goes]; rfl⟩

namespace ClaimOnceSample

def type : CilType := ⟨⟨0x02000002⟩, "Demo", "Payload", "Demo", .value, 1⟩

def method (row : UInt32) (name : String) : Method :=
  ⟨⟨0x06000000 + row⟩, name, type, [], some type, 0x10⟩

def field (row : UInt32) : Field := ⟨⟨0x04000000 + row⟩, "captured", type, type, 0x11⟩

def parts : Parts :=
  ⟨⟨type, type, method 1 "Take", method 2 "CompareExchange"⟩, 7, ⟨type, 3⟩, field 1, field 2,
    field 3⟩

def table : CaptureTable := ⟨[(6, ⟨type, 2⟩), (7, ⟨type, 3⟩)], 8⟩

/-- The callers go side by side up to their claims.  One of them waits once
before the other one has published the object. -/
def schedule : List Bool :=
  (List.replicate 8 [true, false]).flatten ++ List.replicate 3 false ++ List.replicate 10 true ++
    List.replicate 5 false

end ClaimOnceSample

open ClaimOnceSample in
theorem callers_claim_once_of_two :
    parts.Apart ∧ table.find? parts.key = some parts.object ∧
      ∃ states : CallerStates Bool,
        CallerStates.Reachable (parts.code type) (.start parts.cache table) states ∧
        (states.shared.taken = [] ∨ states.shared.taken = [7]) ∧
        ∃ first second, states.caller true = .returned first ∧
          states.caller false = .returned second ∧ first = .object ⟨type, 3⟩ ∧
          second = .object ⟨type, 3⟩ := by
  have apart : parts.Apart := ⟨by decide, by decide, by decide, by decide⟩
  have ended : (CallerStates.steps? (parts.code type) schedule
      (.start parts.cache table)).map (fun states => (states.caller true, states.caller false)) =
        some (.returned (.object ⟨type, 3⟩), .returned (.object ⟨type, 3⟩)) := by
    decide +kernel
  obtain ⟨states, done, callers⟩ := Option.map_eq_some_iff.mp ended
  obtain ⟨returned, otherReturned⟩ := Prod.mk.inj callers
  have reached := CallerStates.Reachable.first.steps schedule done
  obtain ⟨taken, _, values, _⟩ := callers_claim_once apart rfl reached
  exact ⟨apart, rfl, states, reached, taken, _, _, returned, otherReturned,
    values true _ returned, values false _ otherReturned⟩

end Accessor
end CilTemplate
