import CilTemplate.Accessor.Accessor
import CilTemplate.Accessor.Draft
import CilTemplate.Proofs.Entries

/-
The definition of an accessor taken apart: which members the builder is asked
for, with which code, and what the capture table holds afterwards.
-/

namespace CilTemplate

open CilTemplate.Action

namespace Workspace

variable {Builder Result : Type} {before after : Workspace Builder} {value : Result}

theorem run_onTable_eq_ok_iff {action : Action CaptureTable Result} :
    run (onTable action) before = (.ok value, after) ↔
      ∃ table, run action before.table = (.ok value, table) ∧
        after = { before with table := table } := by
  rw [onTable, run_onPart]
  constructor
  · intro done
    obtain ⟨isOk, rfl⟩ := Prod.mk.inj done
    exact ⟨_, Prod.ext isOk rfl, rfl⟩
  · rintro ⟨table, done, rfl⟩
    rw [done]

theorem run_onBuilder_eq_ok_iff {action : Action (Builder × CaptureTable) Result} :
    run (onBuilder action) before = (.ok value, after) ↔
      ∃ builder table, run action (before.builder, before.table) = (.ok value, (builder, table)) ∧
        after = { before with builder := builder, table := table } := by
  rw [onBuilder, run_onPart]
  constructor
  · intro done
    obtain ⟨isOk, rfl⟩ := Prod.mk.inj done
    exact ⟨_, _, Prod.ext isOk rfl, rfl⟩
  · rintro ⟨builder, table, done, rfl⟩
    rw [done]

end Workspace

theorem CaptureTable.contains_eq_false_iff {table : CaptureTable} {key : UInt64} :
    table.contains key = false ↔ key ∉ table.entries.map Prod.fst := by
  rw [contains, find?, Option.isSome_eq_false_iff, Option.isNone_iff_eq_none,
    List.lookup_eq_none_iff]
  constructor
  · intro absent member
    obtain ⟨entry, here, rfl⟩ := List.mem_map.mp member
    simpa using absent entry here
  · intro absent entry member
    have different : key ≠ entry.1 := by
      rintro rfl
      exact absent (List.mem_map_of_mem member)
    simpa using different

theorem CaptureTable.le_next {key : UInt64} (noWrap : key + 1 ≠ 0) : key ≤ key + 1 := by
  have different : (key + 1).toNat ≠ 0 := fun zero => noWrap (UInt64.toNat_inj.mp zero)
  have bound := key.toNat_lt
  rw [UInt64.le_iff_toNat_le]
  rw [UInt64.toNat_add, UInt64.toNat_one] at different ⊢
  omega

theorem CaptureTable.run_insert_eq_ok_iff {key : UInt64} {object : CapturedObject}
    {before after : CaptureTable} {done : Unit} :
    run (insert key object) before = (.ok done, after) ↔
      before.contains key = false ∧
        after = { before with entries := before.entries ++ [(key, object)] } := by
  simp only [insert, run_bind, run_get]
  cases before.contains key with
  | true => simp
  | false => simp [eq_comm]

namespace Accessor

structure MethodRequest where
  name : String
  returnType : CilType
  body : Body

def request (runtime : AccessorRuntime) (type : CilType) (accessor : Accessor) :
    MethodRequest where
  name := "<>get_capture_" ++ toString accessor.key
  returnType := type
  body := body runtime accessor.key type accessor.cache accessor.claimed accessor.ready

def definedLine (accessor : Accessor) : LogLine :=
  ⟨.debug, "generated capture accessor " ++ accessor.method.text ++ " for key " ++
    toString accessor.key⟩

variable {Builder : Type} [TypeBuilder Builder]

/-- The requests for the members of an accessor, one after the other. -/
inductive Requested (runtime : AccessorRuntime) (type : CilType) (accessor : Accessor)
    (before : Builder × CaptureTable) : Builder × CaptureTable → Prop
  | intro {granted cached claimed readied after : Builder × CaptureTable}
      (access : run (grantFor type.assembly) before = (.ok (), granted))
      (cache : run (TypeBuilder.defineField ("<>capture_" ++ toString accessor.key) type) granted =
        (.ok accessor.cache, cached))
      (claim : run (TypeBuilder.defineField ("<>capture_" ++ toString accessor.key ++ "_claimed")
        runtime.flagType) cached = (.ok accessor.claimed, claimed))
      (ready : run (TypeBuilder.defineField ("<>capture_" ++ toString accessor.key ++ "_ready")
        runtime.flagType) claimed = (.ok accessor.ready, readied))
      (method : run (TypeBuilder.defineMethod (request runtime type accessor).name type
        (request runtime type accessor).body) readied = (.ok accessor.method, after)) :
      Requested runtime type accessor before after

/-- The accessor has the next key, and the object is parked under it. -/
inductive Defines (runtime : AccessorRuntime) (object : CapturedObject) (accessor : Accessor)
    (before : Workspace Builder) : Workspace Builder → Prop
  | intro {builder : Builder} {left : CaptureTable} (key : accessor.key = before.table.nextKey)
      (members : Requested runtime object.type accessor
        (before.builder, ⟨before.table.entries, before.table.nextKey + 1⟩) (builder, left))
      (unused : left.contains accessor.key = false) :
      Defines runtime object accessor before
        { before with
          builder := builder
          table := { left with entries := left.entries ++ [(accessor.key, object)] }
          log := before.log.push accessor.definedLine }

theorem define_eq_ok_iff {runtime : AccessorRuntime} {object : CapturedObject}
    {accessor : Accessor} {before after : Workspace Builder} :
    run (define runtime object) before = (.ok accessor, after) ↔
      Defines runtime object accessor before after := by
  simp only [define, run_bind_eq_ok, Workspace.run_onBuilder_eq_ok_iff,
    Workspace.run_onTable_eq_ok_iff, CaptureTable.run_insert_eq_ok_iff, Workspace.note, run_modify,
    run_pure]
  constructor
  · rintro ⟨key, _, ⟨_, drawn, rfl⟩, _, _, ⟨_, _, access, rfl⟩, cache, _, ⟨_, _, caches, rfl⟩,
      claim, _, ⟨_, _, claims, rfl⟩, ready, _, ⟨_, _, readies, rfl⟩, method, _,
      ⟨builder, left, defines, rfl⟩, _, _, ⟨_, ⟨unused, rfl⟩, rfl⟩, _, _, noted, ended⟩
    obtain ⟨same, rfl⟩ := Prod.mk.inj drawn
    obtain rfl : before.table.nextKey = key := Except.ok.inj same
    obtain ⟨_, rfl⟩ := Prod.mk.inj noted
    obtain ⟨same, rfl⟩ := Prod.mk.inj ended
    obtain rfl := Except.ok.inj same
    exact .intro rfl (.intro access caches claims readies defines) unused
  · rintro ⟨key, ⟨access, cache, claim, ready, method⟩, unused⟩
    exact ⟨accessor.key, _, ⟨_, Prod.ext (congrArg Except.ok key.symm) rfl, rfl⟩, (), _,
      ⟨_, _, access, rfl⟩, _, _, ⟨_, _, cache, rfl⟩, _, _, ⟨_, _, claim, rfl⟩, _, _,
      ⟨_, _, ready, rfl⟩, _, _, ⟨_, _, method, rfl⟩, (), _, ⟨_, ⟨unused, rfl⟩, rfl⟩, _, _, rfl, rfl⟩

inductive DefinesAll (runtime : AccessorRuntime) :
    List CapturedObject → List Accessor → Workspace Builder → Workspace Builder → Prop
  | none {workspace : Workspace Builder} : DefinesAll runtime [] [] workspace workspace
  | next {object : CapturedObject} {accessor : Accessor} {objects : List CapturedObject}
      {accessors : List Accessor} {before middle after : Workspace Builder}
      (first : Defines runtime object accessor before middle)
      (others : DefinesAll runtime objects accessors middle after) :
      DefinesAll runtime (object :: objects) (accessor :: accessors) before after

theorem defineAll_eq_ok_iff {runtime : AccessorRuntime} {objects : List CapturedObject}
    {defined accessors : List Accessor} {before after : Workspace Builder} :
    run (defineAll runtime objects defined) before = (.ok accessors, after) ↔
      ∃ added, accessors = defined ++ added ∧ DefinesAll runtime objects added before after := by
  induction objects generalizing defined before with
  | nil =>
      constructor
      · intro done
        obtain ⟨same, rfl⟩ := Prod.mk.inj done
        exact ⟨[], by rw [← Except.ok.inj same, List.append_nil], .none⟩
      · rintro ⟨_, rfl, ⟨⟩⟩
        rw [List.append_nil]
        rfl
  | cons object rest inductionHypothesis =>
      simp only [defineAll, run_bind, run_lift, run_attempt]
      cases outcome : run (define runtime object) before with
      | mk result middle =>
          constructor
          · intro done
            cases result with
            | error error =>
                obtain ⟨_, _, _, failed⟩ := run_bind_eq_ok.mp done
                cases failed
            | ok accessor =>
                obtain ⟨added, rfl, others⟩ := inductionHypothesis.mp done
                exact ⟨accessor :: added, List.append_assoc _ _ _,
                  .next (define_eq_ok_iff.mp outcome) others⟩
          · rintro ⟨_, rfl, _ | ⟨first, others⟩⟩
            obtain ⟨rfl, rfl⟩ := Prod.mk.inj (outcome.symm.trans (define_eq_ok_iff.mpr first))
            exact inductionHypothesis.mpr ⟨_, List.append_cons _ _ _, others⟩

theorem defineAll_nil_eq_ok_iff {runtime : AccessorRuntime} {objects : List CapturedObject}
    {accessors : List Accessor} {before after : Workspace Builder} :
    run (defineAll runtime objects []) before = (.ok accessors, after) ↔
      DefinesAll runtime objects accessors before after := by
  simp only [defineAll_eq_ok_iff, List.nil_append, exists_eq_left']

end Accessor

/-- Every request to the builder has a property. -/
structure TypeBuilder.Every {Builder : Type} [TypeBuilder Builder]
    (holds : ∀ {Result : Type}, Action (Builder × CaptureTable) Result → Prop) : Prop where
  assembly : holds (ExceptT.lift TypeBuilder.assembly)
  grantsAccess : ∀ assembly, holds (ExceptT.lift (TypeBuilder.grantsAccess assembly))
  grantAccess : ∀ assembly, holds (TypeBuilder.grantAccess assembly)
  defineField : ∀ name type, holds (TypeBuilder.defineField name type)
  defineMethod : ∀ name type body, holds (TypeBuilder.defineMethod name type body)

namespace TypeBuilder.Every

variable {Builder : Type} [TypeBuilder Builder]
  {holds weaker : ∀ {Result : Type}, Action (Builder × CaptureTable) Result → Prop}

theorem mono (every : TypeBuilder.Every holds)
    (implies : ∀ {Result : Type} {action : Action (Builder × CaptureTable) Result},
      holds action → weaker action) : TypeBuilder.Every weaker where
  assembly := implies every.assembly
  grantsAccess assembly := implies (every.grantsAccess assembly)
  grantAccess assembly := implies (every.grantAccess assembly)
  defineField name type := implies (every.defineField name type)
  defineMethod name type body := implies (every.defineMethod name type body)

/-- What holds of all requests, and of sequences of what it holds of, holds of
asking for access. -/
theorem grantFor (every : TypeBuilder.Every holds)
    (pure : holds (pure () : Action (Builder × CaptureTable) Unit))
    (bind : ∀ {Result : Type} {action : Action (Builder × CaptureTable) Result}
      {next : Result → Action (Builder × CaptureTable) Unit},
      holds action → (∀ value, holds (next value)) → holds (action >>= next))
    (assembly : String) : holds (@Accessor.grantFor Builder _ assembly) := by
  refine bind every.assembly fun own => ?_
  split
  · refine bind (every.grantsAccess assembly) fun granted => ?_
    split
    · exact every.grantAccess assembly
    · exact pure
  · exact pure

end TypeBuilder.Every

/-- Code that can reach the capture table leaves it alone where it succeeds,
except that it may draw keys.  That holds as long as its host is in a state that
is trusted to do so. -/
def CaptureTable.LeftAlone {Host Result : Type} (trusted : Host → Prop)
    (action : Action (Host × CaptureTable) Result) : Prop :=
  ∀ (before after : Host × CaptureTable) (value : Result), trusted before.1 →
    run action before = (.ok value, after) →
      trusted after.1 ∧ after.2.entries = before.2.entries ∧ before.2.nextKey ≤ after.2.nextKey

/-- The builder leaves the capture table alone in whatever it is asked. -/
abbrev TypeBuilder.LeavesTable {Builder : Type} [TypeBuilder Builder]
    (trusted : Builder → Prop) : Prop :=
  TypeBuilder.Every (CaptureTable.LeftAlone trusted)

/-- The builder leaves the table alone from its present state on. -/
def TypeBuilder.KeepsOffTable {Builder : Type} [TypeBuilder Builder] (builder : Builder) : Prop :=
  ∃ trusted : Builder → Prop, TypeBuilder.LeavesTable trusted ∧ trusted builder

namespace CaptureTable.LeftAlone

variable {Host Result Next : Type} {trusted : Host → Prop}

theorem pure (value : Result) :
    LeftAlone trusted (pure value : Action (Host × CaptureTable) Result) := by
  intro before after found held done
  obtain ⟨_, rfl⟩ := Prod.mk.inj done
  exact ⟨held, rfl, UInt64.le_refl _⟩

theorem bind {action : Action (Host × CaptureTable) Result}
    {next : Result → Action (Host × CaptureTable) Next} (first : LeftAlone trusted action)
    (others : ∀ value, LeftAlone trusted (next value)) : LeftAlone trusted (action >>= next) := by
  intro before after value held done
  obtain ⟨_, middle, ran, ended⟩ := run_bind_eq_ok.mp done
  obtain ⟨heldMiddle, entries, drawn⟩ := first _ _ _ held ran
  obtain ⟨heldAfter, entriesAfter, drawnAfter⟩ := others _ _ _ _ heldMiddle ended
  exact ⟨heldAfter, entriesAfter.trans entries, UInt64.le_trans drawn drawnAfter⟩

end CaptureTable.LeftAlone

namespace Accessor

variable {Builder : Type} [TypeBuilder Builder] {trusted : Builder → Prop}
  {runtime : AccessorRuntime}

theorem Requested.leavesTable {type : CilType} {accessor : Accessor}
    {before after : Builder × CaptureTable} (leaves : TypeBuilder.LeavesTable trusted)
    (builder : trusted before.1) (requested : Requested runtime type accessor before after) :
    trusted after.1 ∧ after.2.entries = before.2.entries ∧ before.2.nextKey ≤ after.2.nextKey := by
  obtain ⟨access, cache, claim, ready, method⟩ := requested
  have all : CaptureTable.LeftAlone trusted (do
      grantFor type.assembly
      let _ ← TypeBuilder.defineField ("<>capture_" ++ toString accessor.key) type
      let _ ← TypeBuilder.defineField ("<>capture_" ++ toString accessor.key ++ "_claimed")
        runtime.flagType
      let _ ← TypeBuilder.defineField ("<>capture_" ++ toString accessor.key ++ "_ready")
        runtime.flagType
      TypeBuilder.defineMethod (request runtime type accessor).name type
        (request runtime type accessor).body) :=
    (leaves.grantFor (.pure _) .bind _).bind fun _ => (leaves.defineField _ _).bind fun _ =>
      (leaves.defineField _ _).bind fun _ => (leaves.defineField _ _).bind fun _ =>
        leaves.defineMethod _ _ _
  apply all before after accessor.method builder
  simp only [run_bind, access, cache, claim, ready, method]

/-- One table follows from another by parking objects: an entry for each, under
keys that had none and that differ. -/
structure HandsOver (objects : List CapturedObject) (accessors : List Accessor)
    (before after : CaptureTable) : Prop where
  count : accessors.length = objects.length
  entries : after.entries = before.entries ++ (accessors.map key).zip objects
  unused : ∀ accessor ∈ accessors, before.contains accessor.key = false
  distinct : (accessors.map key).Nodup
  drawn : (∀ accessor ∈ accessors, accessor.key + 1 ≠ 0) →
    ∀ accessor ∈ accessors, before.nextKey ≤ accessor.key

theorem HandsOver.find? {objects : List CapturedObject} {accessors : List Accessor}
    {before after : CaptureTable} (handsOver : HandsOver objects accessors before after)
    {number : Nat} {object : CapturedObject} {accessor : Accessor}
    (object? : objects[number]? = some object) (accessor? : accessors[number]? = some accessor) :
    after.find? accessor.key = some object := by
  have unused := handsOver.unused accessor (List.mem_of_getElem? accessor?)
  rw [CaptureTable.contains, CaptureTable.find?, Option.isSome_eq_false_iff,
    Option.isNone_iff_eq_none] at unused
  have key? : (accessors.map key)[number]? = some accessor.key := by
    rw [List.getElem?_map, accessor?, Option.map_some]
  rw [CaptureTable.find?, handsOver.entries, List.lookup_append, unused, Option.none_or,
    lookup_zip handsOver.distinct key? object?]

theorem DefinesAll.handsOver {objects : List CapturedObject} {accessors : List Accessor}
    {before after : Workspace Builder}
    (defines : DefinesAll runtime objects accessors before after)
    (leaves : TypeBuilder.LeavesTable trusted) (builder : trusted before.builder) :
    HandsOver objects accessors before.table after.table := by
  induction defines with
  | none => exact ⟨rfl, (List.append_nil _).symm, by simp, List.nodup_nil, by simp⟩
  | @next object accessor objects accessors before middle after first others inductionHypothesis =>
      obtain ⟨key, members, unused⟩ := first
      obtain ⟨trustedAfter, entries, nextKey⟩ := members.leavesTable leaves builder
      dsimp only at entries nextKey
      have rest := inductionHypothesis trustedAfter
      have restEntries := rest.entries
      have restUnused := rest.unused
      simp only [CaptureTable.contains_eq_false_iff, entries, List.map_append, List.map_cons,
        List.map_nil, List.mem_append, List.mem_singleton, not_or] at restEntries restUnused
      refine ⟨congrArg Nat.succ rest.count, ?_, ?_, ?_, ?_⟩
      · rw [restEntries, List.append_assoc]
        rfl
      · rw [CaptureTable.contains_eq_false_iff, entries] at unused
        simp only [CaptureTable.contains_eq_false_iff]
        exact List.forall_mem_cons.mpr ⟨unused, fun other member => (restUnused other member).1⟩
      · rw [List.map_cons, List.nodup_cons]
        refine ⟨?_, rest.distinct⟩
        intro member
        obtain ⟨other, here, same⟩ := List.mem_map.mp member
        exact (restUnused other here).2 same
      · intro noWrap
        obtain ⟨first, others⟩ := List.forall_mem_cons.mp noWrap
        refine List.forall_mem_cons.mpr ⟨key ▸ UInt64.le_refl _, fun other member => ?_⟩
        rw [key] at first
        exact UInt64.le_trans (CaptureTable.le_next first)
          (UInt64.le_trans nextKey (rest.drawn others other member))

end Accessor
namespace Draft

theorem run_refuse (refused : Option Nat) (number : Nat) (name : String) (draft : Draft) :
    run (refuse refused number name) draft =
      if refused = some number then
        (.error (.rejected ("builder rejects " ++ name)), record (.refused name) draft)
      else (.ok (), draft) := by
  unfold refuse
  split <;> rfl

theorem taking_grantAccess (assembly : String) (draft : Draft) :
    (run (grantAccess assembly) draft).2.taking = draft.taking := by
  by_cases refused : draft.refusals.grant = some draft.grantCount
  all_goals
    simp only [grantAccess, run_bind, run_get, run_set, run_refuse, refused, if_true, if_false]
    rfl

theorem taking_defineField (name : String) (type : CilType) (draft : Draft) :
    (run (defineField name type) draft).2.taking = draft.taking := by
  by_cases refused : draft.refusals.field = some draft.fieldCount
  all_goals
    simp only [defineField, run_bind, run_get, run_set, run_refuse, refused, if_true, if_false]
    rfl

theorem leavesTable : TypeBuilder.LeavesTable fun draft : Draft => draft.taking = none := by
  have own : ∀ {Result : Type} {action : Action Draft Result},
      (∀ draft, (run action draft).2.taking = draft.taking) →
        CaptureTable.LeftAlone (fun draft : Draft => draft.taking = none) (onDraft action) := by
    intro Result action same before after value idle done
    rw [onDraft, run_onPart] at done
    obtain ⟨_, rfl⟩ := Prod.mk.inj done
    exact ⟨(same before.1).trans idle, rfl, UInt64.le_refl _⟩
  refine ⟨?_, ?_, fun assembly => own (taking_grantAccess assembly),
    fun name type => own (taking_defineField name type), ?_⟩
  · intro before after value idle done
    obtain ⟨_, rfl⟩ := Prod.mk.inj done
    exact ⟨idle, rfl, UInt64.le_refl _⟩
  · intro assembly before after value idle done
    obtain ⟨_, rfl⟩ := Prod.mk.inj done
    exact ⟨idle, rfl, UInt64.le_refl _⟩
  · rintro name type body ⟨draft, table⟩ after method idle defined
    dsimp only at idle
    by_cases refused : draft.refusals.method = some draft.methodCount
    all_goals
      simp only [TypeBuilder.defineMethod, defineMethod, onDraft, takeDuring, run_bind, run_get,
        run_onPart, run_refuse, refused, if_true, if_false, run_modify, run_pure, idle] at defined
    · cases defined
    · obtain ⟨_, rfl⟩ := Prod.mk.inj defined
      exact ⟨rfl, rfl, UInt64.le_refl _⟩

end Draft
end CilTemplate
