import CilTemplate.Proofs.Accessor.Definition
import CilTemplate.Proofs.Emission.SinkStates
import CilTemplate.Proofs.Emission.Validation
import CilTemplate.Template

/-
What a failed pass leaves behind.  Objects are parked while accessors are
defined, and the pass may fail at any request after that.  It then takes its
own objects out of the capture table again, so that the table holds what it
held before.
-/

namespace CilTemplate

open CilTemplate.Action

namespace CaptureTable

variable {Host Result : Type} {trusted : Host → Prop} {entries : List (UInt64 × CapturedObject)}
  {keys : List UInt64}

/-- Code that can reach the table may take out objects that were parked after the
given entries, but it leaves the entries themselves alone and parks nothing.
That holds as long as its host is in a state that is trusted to do so. -/
def Spared (trusted : Host → Prop) (entries : List (UInt64 × CapturedObject))
    (action : Action (Host × CaptureTable) Result) : Prop :=
  ∀ host parked nextKey, trusted host →
    let after := (run action (host, ⟨entries ++ parked, nextKey⟩)).2
    trusted after.1 ∧ ∃ left, left.Sublist parked ∧ after.2.entries = entries ++ left

/-- The table holds the entries from before the pass and, behind them, objects
under keys of the pass, which no earlier entry has. -/
structure Parked (entries : List (UInt64 × CapturedObject)) (keys : List UInt64)
    (table : CaptureTable) : Prop where
  behind : ∃ parked, table.entries = entries ++ parked ∧ ∀ entry ∈ parked, entry.1 ∈ keys
  apart : ∀ entry ∈ entries, entry.1 ∉ keys

/-- The host of some code is in a trusted state, beside such a table. -/
def ParkedBeside (trusted : Host → Prop) (entries : List (UInt64 × CapturedObject))
    (keys : List UInt64) (state : Host × CaptureTable) : Prop :=
  trusted state.1 ∧ state.2.Parked entries keys

theorem Spared.maintains {action : Action (Host × CaptureTable) Result}
    (spared : Spared trusted entries action) (keys : List UInt64) :
    Maintains (ParkedBeside trusted entries keys) action := by
  rintro ⟨host, table⟩ ⟨held, ⟨parked, here, owned⟩, apart⟩
  have after := spared host parked table.nextKey held
  rw [← here] at after
  obtain ⟨heldAfter, left, sublist, there⟩ := after
  exact ⟨heldAfter, ⟨left, there, fun entry member => owned entry (sublist.subset member)⟩, apart⟩

theorem Parked.start (table : CaptureTable) : table.Parked table.entries [] where
  behind := ⟨[], by simp, by simp⟩
  apart := by simp

theorem Parked.entries_eq {table : CaptureTable} (parked : table.Parked entries []) :
    table.entries = entries := by
  obtain ⟨own, here, owned⟩ := parked.behind
  have none : own = [] := by
    apply List.eq_nil_iff_forall_not_mem.mpr
    intro entry member
    exact absurd (owned entry member) List.not_mem_nil
  rw [here, none, List.append_nil]

end CaptureTable

/-- Whatever it is asked, the builder spares the entries. -/
abbrev TypeBuilder.Spares {Builder : Type} [TypeBuilder Builder] (trusted : Builder → Prop)
    (entries : List (UInt64 × CapturedObject)) : Prop :=
  TypeBuilder.Every (CaptureTable.Spared trusted entries)

/-- Whatever it is asked, the sink spares the entries. -/
abbrev CodeSink.Spares {Sink : Type} [CodeSink (Sink × CaptureTable)] (trusted : Sink → Prop)
    (entries : List (UInt64 × CapturedObject)) : Prop :=
  CodeSink.Every (CaptureTable.Spared trusted entries)

/-- A sink that leaves the table alone spares whatever it holds. -/
theorem CodeSink.spares_besideTable {Sink : Type} [CodeSink Sink]
    (entries : List (UInt64 × CapturedObject)) :
    CodeSink.Spares (fun _ : Sink => True) entries where
  declareLocal _ := fun _ parked _ _ => ⟨trivial, parked, List.Sublist.refl _, rfl⟩
  defineLabel := fun _ parked _ _ => ⟨trivial, parked, List.Sublist.refl _, rfl⟩
  markLabel _ := fun _ parked _ _ => ⟨trivial, parked, List.Sublist.refl _, rfl⟩
  emit _ _ := fun _ parked _ _ => ⟨trivial, parked, List.Sublist.refl _, rfl⟩

namespace Workspace

variable {Builder : Type} {trusted : Builder → Prop}
  {entries : List (UInt64 × CapturedObject)}

def Parked (trusted : Builder → Prop) (entries : List (UInt64 × CapturedObject))
    (keys : List UInt64) (workspace : Workspace Builder) : Prop :=
  CaptureTable.ParkedBeside trusted entries keys (workspace.builder, workspace.table)

/-- Taking out a key that is missing changes nothing, so in either case the
entries under other keys remain. -/
theorem entries_take (key : UInt64) (table : CaptureTable) :
    (run (CaptureTable.take key) table).2.entries =
      table.entries.filter fun entry => entry.1 != key := by
  simp only [CaptureTable.take, run_bind, run_get]
  cases found : table.find? key with
  | some object => simp only [run_bind, run_set, run_pure]
  | none =>
      have absent : ∀ entry ∈ table.entries, entry.1 ≠ key := by
        intro entry member same
        have missing := List.lookup_eq_none_iff.mp found entry member
        simp [same] at missing
      simp only [run_throw]
      symm
      apply List.filter_eq_self.mpr
      intro entry member
      simpa using absent entry member

theorem run_withdraw (keys : List UInt64) (workspace : Workspace Builder) :
    ∃ after, run (withdraw keys) workspace = (.ok (), after) ∧
      after.table.entries = workspace.table.entries.filter fun entry => !keys.contains entry.1 := by
  induction keys generalizing workspace with
  | nil =>
      refine ⟨workspace, rfl, ?_⟩
      symm
      apply List.filter_eq_self.mpr
      simp
  | cons key rest inductionHypothesis =>
      have taken := entries_take key workspace.table
      have others : ∀ table : CaptureTable,
          table.entries = workspace.table.entries.filter (fun entry => entry.1 != key) →
          table.entries.filter (fun entry => !rest.contains entry.1) =
            workspace.table.entries.filter fun entry => !(key :: rest).contains entry.1 := by
        intro table left
        rw [left, List.filter_filter]
        congr 1
        funext entry
        rw [List.contains_cons, Bool.not_or, Bool.and_comm]
        rfl
      simp only [withdraw, run_bind, run_lift, run_attempt, onTable, run_onPart]
      cases outcome : run (CaptureTable.take key) workspace.table with
      | mk result table =>
          rw [outcome] at taken
          cases result with
          | ok object =>
              obtain ⟨after, done, left⟩ :=
                inductionHypothesis { workspace with table := table }
              exact ⟨after, by simpa using done, by rw [left, others table taken]⟩
          | error error =>
              simp only [note]
              rcases inductionHypothesis _ with ⟨after, done, left⟩
              exact ⟨after, done, by rw [left]; exact others table taken⟩

theorem withdraw_of_parked {keys : List UInt64} {workspace : Workspace Builder}
    (parked : workspace.table.Parked entries keys) :
    ∃ after, run (withdraw keys) workspace = (.ok (), after) ∧ after.table.entries = entries := by
  obtain ⟨after, done, left⟩ := run_withdraw keys workspace
  refine ⟨after, done, ?_⟩
  obtain ⟨own, table, owned⟩ := parked.behind
  have kept : entries.filter (fun entry => !keys.contains entry.1) = entries := by
    apply List.filter_eq_self.mpr
    intro entry member
    simpa using parked.apart entry member
  have gone : own.filter (fun entry => !keys.contains entry.1) = [] := by
    apply List.filter_eq_nil_iff.mpr
    intro entry member
    simpa using owned entry member
  rw [left, table, List.filter_append, kept, gone, List.append_nil]

end Workspace

namespace Accessor

variable {Builder : Type} {trusted : Builder → Prop} {entries : List (UInt64 × CapturedObject)}

open Workspace

theorem maintains_freshKey (keys : List UInt64) :
    Maintains (Parked trusted entries keys)
      (onTable (ExceptT.lift CaptureTable.freshKey)) :=
  fun _ parked => ⟨parked.1, parked.2.behind, parked.2.apart⟩

/-- The outcome of a definition: the new object is parked, or nothing is. -/
def ParkedAfter (trusted : Builder → Prop) (entries : List (UInt64 × CapturedObject))
    (keys : List UInt64) : Except Error Accessor × Workspace Builder → Prop
  | (.ok accessor, after) => Parked trusted entries (keys ++ [accessor.key]) after
  | (.error _, after) => Parked trusted entries keys after

theorem parkedAfter_insert {keys : List UInt64} {workspace : Workspace Builder}
    (parked : Parked trusted entries keys workspace) (key : UInt64) (object : CapturedObject)
    (accessor : Accessor) (sameKey : accessor.key = key) (text : String) :
    ParkedAfter trusted entries keys
      (run (do
        onTable (CaptureTable.insert key object)
        note .debug text
        pure accessor) workspace) := by
  simp only [run_bind, onTable, run_onPart, CaptureTable.insert, run_get]
  cases present : workspace.table.contains key with
  | true => exact parked
  | false =>
      obtain ⟨builder, ⟨own, table, owned⟩, apart⟩ := parked
      dsimp only at table
      have missing : workspace.table.entries.lookup key = none := by
        simpa [CaptureTable.contains, CaptureTable.find?] using present
      have absent := List.lookup_eq_none_iff.mp missing
      refine ⟨builder, ⟨own ++ [(key, object)], ?_, ?_⟩, ?_⟩
      · simp [table]
      · intro entry member
        rcases List.mem_append.mp member with earlier | new
        · exact List.mem_append_left _ (owned entry earlier)
        · rw [List.mem_singleton.mp new, sameKey]
          simp
      · intro entry member shared
        rcases List.mem_append.mp shared with earlier | new
        · exact apart entry member earlier
        · have same : entry.1 = key := (List.mem_singleton.mp new).trans sameKey
          have different := absent entry (by rw [table]; exact List.mem_append_left _ member)
          simp [same] at different

variable [TypeBuilder Builder]

theorem parkedAfter_define (spares : TypeBuilder.Spares trusted entries)
    (runtime : AccessorRuntime) (object : CapturedObject) {keys : List UInt64}
    {workspace : Workspace Builder} (parked : Parked trusted entries keys workspace) :
    ParkedAfter trusted entries keys (run (define runtime object) workspace) := by
  have failed : ∀ (error : Error) (after : Workspace Builder),
      Parked trusted entries keys after → ParkedAfter trusted entries keys (.error error, after) :=
    fun _ _ parkedAfter => parkedAfter
  have asks : ∀ {Result : Type} {action : Action (Builder × CaptureTable) Result},
      Maintains (CaptureTable.ParkedBeside trusted entries keys) action →
        Maintains (Parked trusted entries keys) (onBuilder action) :=
    fun keeps workspace parked => keeps (workspace.builder, workspace.table) parked
  have keeps : TypeBuilder.Every (Maintains (CaptureTable.ParkedBeside trusted entries keys)) :=
    spares.mono fun spared => spared.maintains keys
  unfold define
  refine (maintains_freshKey keys).run_bind parked failed ?_
  intro key workspace parked
  refine (asks (keeps.grantFor (.pure _) .bind _)).run_bind parked failed ?_
  intro _ workspace parked
  refine (asks (keeps.defineField _ _)).run_bind parked failed ?_
  intro cache workspace parked
  refine (asks (keeps.defineField _ _)).run_bind parked failed ?_
  intro claimed workspace parked
  refine (asks (keeps.defineField _ _)).run_bind parked failed ?_
  intro ready workspace parked
  refine (asks (keeps.defineMethod _ _ _)).run_bind parked failed ?_
  intro method workspace parked
  exact parkedAfter_insert parked key object _ rfl _

/-- Either all accessors are defined and their objects parked, or the table
holds the entries from before. -/
theorem defineAll_parked (spares : TypeBuilder.Spares trusted entries)
    (runtime : AccessorRuntime) (objects : List CapturedObject) (defined : List Accessor)
    {workspace : Workspace Builder}
    (parked : Parked trusted entries (defined.map Accessor.key) workspace) :
    match run (defineAll runtime objects defined) workspace with
    | (.ok accessors, after) => Parked trusted entries (accessors.map Accessor.key) after
    | (.error _, after) => after.table.entries = entries := by
  induction objects generalizing defined workspace with
  | nil => exact parked
  | cons object rest inductionHypothesis =>
      have next := parkedAfter_define spares runtime object parked
      simp only [defineAll, run_bind, run_lift, run_attempt]
      cases outcome : run (define runtime object) workspace with
      | mk result after =>
          rw [outcome] at next
          cases result with
          | ok accessor =>
              apply inductionHypothesis
              rw [List.map_append]
              exact next
          | error error =>
              obtain ⟨restored, done, entriesRestored⟩ := withdraw_of_parked next.2
              simp only [run_bind, done, run_throw]
              exact entriesRestored

end Accessor

namespace Expander

variable {Builder : Type} {trusted : Builder → Prop} {entries : List (UInt64 × CapturedObject)}

open Workspace

/-- Code is generated only when all of the template is expanded, so the first
part of expansion does not reach the table. -/
theorem maintains_expandPass (expander : Expander) (body : Body) (keys : List UInt64) :
    Maintains (Parked trusted entries keys) (expander.expandPass body) := by
  intro workspace parked
  simp only [expandPass, run_bind, run_get, run_set, run_ofExcept]
  cases run (expander.expandItems 0 (expander.trimmed body.items))
      (Pass.start body.locals.length workspace.reads workspace.log) with
  | mk result pass =>
      cases result with
      | ok expanded => exact parked
      | error error => exact parked

/-- The outcome of a pass: its objects are parked, or the table holds the
entries from before. -/
def RestoredAfter (trusted : Builder → Prop) (entries : List (UInt64 × CapturedObject)) :
    Except Error (Body × List Accessor) × Workspace Builder → Prop
  | (.ok (_, accessors), after) => Parked trusted entries (accessors.map Accessor.key) after
  | (.error _, after) => after.table.entries = entries

variable [TypeBuilder Builder]

theorem restoredAfter_expand (spares : TypeBuilder.Spares trusted entries)
    (expander : Expander) (body : Body) {workspace : Workspace Builder}
    (parked : Parked trusted entries [] workspace) :
    RestoredAfter trusted entries (run (expander.expand body) workspace) := by
  unfold expand
  refine (maintains_expandPass expander body []).run_bind parked
    (fun _ _ unchanged => unchanged.2.entries_eq) ?_
  rintro ⟨expanded, pass⟩ workspace parked
  have defined := Accessor.defineAll_parked spares expander.runtime pass.objects [] parked
  simp only [run_bind]
  cases outcome : run (Accessor.defineAll expander.runtime pass.objects []) workspace with
  | mk result after =>
      rw [outcome] at defined
      cases result with
      | ok accessors => exact defined
      | error error => exact defined

end Expander

namespace TemplateProcessor

variable {Builder Sink : Type} {trusted : Builder → Prop} {trustedSink : Sink → Prop}
  {entries : List (UInt64 × CapturedObject)}

open Workspace

theorem restoredAfter_expand [TypeBuilder Builder] (spares : TypeBuilder.Spares trusted entries)
    (processor : TemplateProcessor) (template : TemplateMethod) (options : TemplateOptions)
    {workspace : Workspace Builder} (parked : Parked trusted entries [] workspace) :
    Expander.RestoredAfter trusted entries
      (run (processor.expand template options) workspace) := by
  have keepsLog : ∀ {Result : Type} (action : Action Log Result),
      Maintains (Parked trusted entries [])
        (action.onPart fun workspace : Workspace Builder =>
          (workspace.log, fun log => { workspace with log := log })) :=
    fun _ _ parked => parked
  unfold expand
  refine (keepsLog _).run_bind parked (fun _ _ unchanged => unchanged.2.entries_eq) ?_
  intro decoded workspace parked
  have expanded := Expander.restoredAfter_expand spares (processor.expander template options)
    decoded parked
  simp only [run_bind]
  cases outcome : run ((processor.expander template options).expand decoded) workspace with
  | mk result after =>
      rw [outcome] at expanded
      cases result with
      | ok value => exact expanded
      | error error => exact expanded

variable [CodeSink (Sink × CaptureTable)]

/-- Writing reaches the table only through the sink. -/
theorem parked_write (spares : CodeSink.Spares trustedSink entries) (options : EncoderOptions)
    (bound : List (Local × UInt16)) (body : Body) {keys : List UInt64}
    {workspace : Workspace Builder} {sink : Sink} (held : trustedSink sink)
    (parked : workspace.table.Parked entries keys) :
    (run (write options bound body) (workspace, sink)).2.1.table.Parked entries keys := by
  let start : Encoder (Sink × CaptureTable) :=
    { Encoder.onto (sink, workspace.table) options with log := workspace.log }
  have binds : Maintains (fun encoder : Encoder (Sink × CaptureTable) =>
      CaptureTable.ParkedBeside trustedSink entries keys encoder.sink)
      (bound.forM fun entry => Encoder.bindLocal entry.1 entry.2) := by
    intro encoder kept
    rw [Encoder.run_bindLocals]
    exact kept
  have keeps : CodeSink.Keeps (CaptureTable.ParkedBeside trustedSink entries keys) :=
    spares.mono fun spared => spared.maintains keys
  have kept := binds.bind (fun _ => keeps.encodeBody body) start ⟨held, parked⟩
  exact kept.2

/-- When a pass fails, be it at an instruction, at a request to the builder, at
a key that is taken already or at a request to the sink, the body is as it was
and the table holds exactly the entries that it held before. -/
theorem failed_pass_restores_table [TypeBuilder Builder] (trusted : Builder → Prop)
    (trustedSink : Sink → Prop) (workspace : Workspace Builder)
    (spares : TypeBuilder.Spares trusted workspace.table.entries)
    (sparesSink : CodeSink.Spares trustedSink workspace.table.entries)
    (builder : trusted workspace.builder) :
    (∀ (expander : Expander) (body : Body) (error : Error) (left : Body × Workspace Builder),
      run expander.expandInPlace (body, workspace) = (.error error, left) →
        left.1 = body ∧ left.2.table.entries = workspace.table.entries) ∧
    ∀ (processor : TemplateProcessor) (template : TemplateMethod) (options : TemplateOptions)
      (bound : List (Local × UInt16)) (sink : Sink) (error : Error)
      (left : Workspace Builder × Sink), trustedSink sink →
      run (processor.process template options bound) (workspace, sink) = (.error error, left) →
        left.1.table.entries = workspace.table.entries := by
  have parked : Parked trusted workspace.table.entries [] workspace :=
    ⟨builder, CaptureTable.Parked.start workspace.table⟩
  constructor
  · intro expander body error left failed
    have restored := Expander.restoredAfter_expand spares expander body parked
    simp only [Expander.expandInPlace, run_bind, run_get, run_onPart] at failed
    cases outcome : run (expander.expand body) workspace with
    | mk result after =>
        rw [outcome] at restored failed
        cases result with
        | ok value => simp at failed
        | error caught =>
            simp only [Prod.mk.injEq] at failed
            rw [← failed.2]
            exact ⟨rfl, restored⟩
  · intro processor template options bound sink error left held failed
    have restored := restoredAfter_expand spares processor template options parked
    simp only [process, run_bind, run_onPart] at failed
    cases outcome : run (processor.expand template options) workspace with
    | mk result after =>
        rw [outcome] at restored failed
        cases result with
        | error caught =>
            simp only [Prod.mk.injEq] at failed
            rw [← failed.2]
            exact restored
        | ok value =>
            simp only [run_lift, run_attempt] at failed
            have kept := parked_write sparesSink options.encoder bound value.1 held restored.2
            cases written : run (write options.encoder bound value.1) (after, sink) with
            | mk result state =>
                rw [written] at kept failed
                cases result with
                | ok done => simp at failed
                | error caught =>
                    obtain ⟨final, done, entriesRestored⟩ := withdraw_of_parked kept
                    simp only [run_bind, run_onPart, done, run_throw, Prod.mk.injEq] at failed
                    rw [← failed.2]
                    exact entriesRestored

end TemplateProcessor

namespace Draft

/-- The draft is not told to take any of the entries. -/
def TakesNoneOf (entries : List (UInt64 × CapturedObject)) (draft : Draft) : Prop :=
  ∀ during key, draft.taking = some (during, key) → ∀ entry ∈ entries, entry.1 ≠ key

theorem spares_takeDuring {entries : List (UInt64 × CapturedObject)} (number : Nat)
    (draft : Draft) (trusted : draft.TakesNoneOf entries)
    (parked : List (UInt64 × CapturedObject)) (nextKey : UInt64) :
    ∃ after, run (takeDuring number) (draft, ⟨entries ++ parked, nextKey⟩) = (.ok (), after) ∧
      after.1.TakesNoneOf entries ∧
      ∃ left, left.Sublist parked ∧ after.2.entries = entries ++ left := by
  simp only [takeDuring, run_bind, run_get]
  cases taking : draft.taking with
  | none => exact ⟨_, rfl, trusted, parked, List.Sublist.refl _, rfl⟩
  | some request =>
      rcases request with ⟨during, key⟩
      by_cases now : during = number
      · simp only [now, if_true]
        refine ⟨_, rfl, trusted, parked.filter fun entry => entry.1 != key,
          List.filter_sublist, ?_⟩
        have kept : entries.filter (fun entry => entry.1 != key) = entries := by
          apply List.filter_eq_self.mpr
          intro entry member
          simpa using trusted during key taking entry member
        simp only [Workspace.entries_take, List.filter_append, kept]
      · simp only [now, if_false]
        exact ⟨_, rfl, trusted, parked, List.Sublist.refl _, rfl⟩

/-- A draft takes an object at most under the key that it was told, so it
spares the entries under other keys. -/
theorem spares (entries : List (UInt64 × CapturedObject)) :
    TypeBuilder.Spares (TakesNoneOf entries) entries := by
  have own : ∀ {Result : Type} {action : Action Draft Result},
      (∀ draft, (run action draft).2.taking = draft.taking) →
        CaptureTable.Spared (TakesNoneOf entries) entries (onDraft action) := by
    intro Result action same draft parked nextKey trusted
    refine ⟨?_, parked, List.Sublist.refl _, rfl⟩
    intro during key taking
    exact trusted during key ((same draft).symm.trans taking)
  refine ⟨?_, ?_, fun assembly => own (taking_grantAccess assembly),
    fun name type => own (taking_defineField name type), ?_⟩
  · exact fun _ parked _ trusted => ⟨trusted, parked, List.Sublist.refl _, rfl⟩
  · exact fun _ _ parked _ trusted => ⟨trusted, parked, List.Sublist.refl _, rfl⟩
  · intro name type body draft parked nextKey trusted
    simp only [TypeBuilder.defineMethod, defineMethod, onDraft, run_bind, run_get, run_onPart,
      run_refuse]
    by_cases refused : draft.refusals.method = some draft.methodCount
    · simp only [refused, if_true]
      exact ⟨trusted, parked, List.Sublist.refl _, rfl⟩
    · simp only [refused, if_false]
      obtain ⟨after, done, kept, left, sublist, table⟩ :=
        spares_takeDuring draft.methodCount { draft with methodCount := draft.methodCount + 1 }
          trusted parked nextKey
      simp only [run_modify, done]
      exact ⟨kept, left, sublist, table⟩

end Draft

namespace FailedPassSample

def closureType : CilType := ⟨⟨0x02000002⟩, "", "Closure", "Demo", .reference, 1⟩

def payloadType : CilType := ⟨⟨0x02000003⟩, "Demo", "Payload", "Demo", .reference, 1⟩

def surrogateType : CilType := ⟨⟨0x02000004⟩, "Demo", "Surrogate", "Demo", .reference, 1⟩

def field (row : UInt32) : Field :=
  ⟨⟨0x04000000 + row⟩, "captured", closureType, payloadType, 6⟩

def captures : CaptureContext :=
  let fields := [(field 1, .object ⟨payloadType, 1⟩), (field 2, .object ⟨payloadType, 2⟩)]
  ⟨some (Closure.object ⟨closureType, fields, [], []⟩), none⟩

def runtime : AccessorRuntime :=
  let method : Method := ⟨⟨0x06000001⟩, "Take", closureType, [], some payloadType, 0x10⟩
  ⟨payloadType, payloadType, method, method⟩

def expander : Expander := ⟨captures, ⟨surrogateType⟩, runtime, ExpansionOptions.standard⟩

def body : Body :=
  let load (row : UInt32) : List CodeItem :=
    [.code (.argument .load 0), .code (.field .ofObject .load (field row)),
      .code (.raw Opcode.pop .none)]
  ⟨[], load 1 ++ load 2⟩

/-- The key of the second object is taken already, and the builder takes the
first object while it defines the second method. -/
def colliding : Workspace Draft :=
  Workspace.start (Draft.start "Dynamic" [] ⟨none, none, none⟩ (some (1, 1)))
    ⟨[(2, ⟨payloadType, 9⟩)], 1⟩

/-- The builder takes the object of someone else while it defines the first
method, and refuses the second. -/
def robbed : Workspace Draft :=
  Workspace.start (Draft.start "Dynamic" [] ⟨none, none, some 1⟩ (some (0, 9)))
    ⟨[(9, ⟨payloadType, 9⟩)], 1⟩

def processor : TemplateProcessor :=
  ⟨SymbolTable.resolver ((SymbolTable.empty.insertField (field 1))), ⟨surrogateType⟩, runtime,
    captures⟩

def template : TemplateMethod :=
  ⟨[0x02, 0x7B, 0x01, 0x00, 0x00, 0x04, 0x0A], [⟨payloadType, false⟩], false, ⟨[], []⟩⟩

def fullSink : Transcript := Transcript.empty (some 0)

def caught? {Result : Type} : Except Error Result → Option Error
  | .error error => some error
  | .ok _ => none

theorem eq_error_of_caught? {Result : Type} {result : Except Error Result} {error : Error}
    (caught : caught? result = some error) : result = .error error := by
  cases result with
  | ok value => simp [caught?] at caught
  | error found => rw [Option.some.inj caught]

end FailedPassSample

open FailedPassSample in
theorem failed_pass_restores_table_after_collision :
    (∃ left, run expander.expandInPlace (body, colliding) =
        (.error (.captureKeyCollision 2), left) ∧
      left.1 = body ∧ left.2.table.entries = [(2, ⟨payloadType, 9⟩)]) ∧
    ∃ left, run (processor.process template TemplateOptions.standard []) (colliding, fullSink) =
        (.error (.rejected "sink is full"), left) ∧
      left.1.table.entries = [(2, ⟨payloadType, 9⟩)] := by
  have trusted : Draft.TakesNoneOf colliding.table.entries colliding.builder := by
    intro during key taking entry member
    simp only [colliding, Workspace.start, Draft.start, Option.some.injEq, Prod.mk.injEq,
      List.mem_singleton] at taking member
    rw [member, ← taking.2]
    decide
  have restores := TemplateProcessor.failed_pass_restores_table _
    (fun _ : Transcript => True) colliding (Draft.spares _) (CodeSink.spares_besideTable _) trusted
  constructor
  · have failed : (run expander.expandInPlace (body, colliding)).1 =
        .error (.captureKeyCollision 2) := eq_error_of_caught? (by decide +kernel)
    exact ⟨_, Prod.ext failed rfl, restores.1 _ _ _ _ (Prod.ext failed rfl)⟩
  · have failed : (run (processor.process template TemplateOptions.standard [])
        (colliding, fullSink)).1 = .error (.rejected "sink is full") :=
      eq_error_of_caught? (by decide +kernel)
    exact ⟨_, Prod.ext failed rfl, restores.2 _ _ _ _ _ _ _ trivial (Prod.ext failed rfl)⟩

open FailedPassSample in
/-- What the builder itself takes out of the table does not come back when the
pass fails. -/
theorem failed_pass_loses_taken_entry :
    robbed.table.entries = [(9, ⟨payloadType, 9⟩)] ∧
    ∃ left, run expander.expandInPlace (body, robbed) =
        (.error (.rejected "builder rejects <>get_capture_2"), left) ∧
      left.1 = body ∧ left.2.table.entries = [] := by
  have failed : (run expander.expandInPlace (body, robbed)).1 =
      .error (.rejected "builder rejects <>get_capture_2") :=
    eq_error_of_caught? (by decide +kernel)
  exact ⟨rfl, _, run_eq_of_result failed, by decide +kernel, by decide +kernel⟩

end CilTemplate
