import CilTemplate.Proofs.Accessor.Definition
import Mathlib.Algebra.Group.Nat.Defs
import Mathlib.Data.List.Forall2

/-
Accessors for collected objects.  A builder that refuses nothing and a table
that has keys left give an accessor for each object.
-/

namespace CilTemplate

open CilTemplate.Action

/-- Code that can reach the capture table succeeds as long as its host is in a
trusted state.  It may take objects out of the table, but it parks none and hands
out no key. -/
def CaptureTable.Met {Host Result : Type} (trusted : Host → Prop)
    (action : Action (Host × CaptureTable) Result) : Prop :=
  ∀ host table, trusted host →
    ∃ value after left, run action (host, table) = (.ok value, (after, ⟨left, table.nextKey⟩)) ∧
      trusted after ∧ ∀ key, table.contains key = false → (left.lookup key).isSome = false

abbrev TypeBuilder.Obliges {Builder : Type} [TypeBuilder Builder] (trusted : Builder → Prop) :
    Prop :=
  TypeBuilder.Every (CaptureTable.Met trusted)

namespace CaptureTable.Met

variable {Host Result Next : Type} {trusted : Host → Prop}

theorem pure (value : Result) :
    Met trusted (pure value : Action (Host × CaptureTable) Result) :=
  fun host table held => ⟨value, host, table.entries, rfl, held, fun _ unused => unused⟩

theorem bind {action : Action (Host × CaptureTable) Result}
    {next : Result → Action (Host × CaptureTable) Next} (first : Met trusted action)
    (others : ∀ value, Met trusted (next value)) : Met trusted (action >>= next) := by
  intro host table held
  obtain ⟨value, middle, between, ran, heldMiddle, kept⟩ := first host table held
  obtain ⟨result, after, left, ended, heldAfter, keptAfter⟩ :=
    others value middle ⟨between, table.nextKey⟩ heldMiddle
  exact ⟨result, after, left, run_bind_eq_ok.mpr ⟨_, _, ran, ended⟩, heldAfter,
    fun key unused => keptAfter key (kept key unused)⟩

end CaptureTable.Met

namespace CaptureTable

/-- The keys that are handed out next are not in use. -/
structure HasRoom (count : Nat) (table : CaptureTable) : Prop where
  keys : count ≤ 2 ^ 64
  unused : ∀ number < count, table.contains (table.nextKey + UInt64.ofNat number) = false

theorem key_ne_later (key : UInt64) {number : Nat} (below : number + 1 < 2 ^ 64) :
    key + 1 + UInt64.ofNat number ≠ key := by
  intro same
  have sameNat := congrArg UInt64.toNat same
  have bound := key.toNat_lt
  rw [UInt64.toNat_add, UInt64.toNat_add, UInt64.toNat_one, UInt64.toNat_ofNat'] at sameNat
  omega

end CaptureTable

namespace Accessor

open Workspace

variable {Builder : Type} [TypeBuilder Builder] {trusted : Builder → Prop}

theorem exists_requested (obliges : TypeBuilder.Obliges trusted) (runtime : AccessorRuntime)
    (type : CilType) (key : UInt64) (builder : Builder) (table : CaptureTable)
    (held : trusted builder) :
    ∃ accessor after left, accessor.key = key ∧
      Requested runtime type accessor (builder, table) (after, ⟨left, table.nextKey⟩) ∧
      trusted after ∧ ∀ key, table.contains key = false → (left.lookup key).isSome = false := by
  have field := obliges.defineField
  obtain ⟨_, first, firstLeft, access, heldFirst, keptFirst⟩ :=
    obliges.grantFor (.pure _) .bind type.assembly builder table held
  obtain ⟨cache, second, secondLeft, caches, heldSecond, keptSecond⟩ :=
    field ("<>capture_" ++ toString key) type first ⟨firstLeft, table.nextKey⟩ heldFirst
  obtain ⟨claimed, third, thirdLeft, claims, heldThird, keptThird⟩ :=
    field ("<>capture_" ++ toString key ++ "_claimed") runtime.flagType second
      ⟨secondLeft, table.nextKey⟩ heldSecond
  obtain ⟨ready, fourth, fourthLeft, readies, heldFourth, keptFourth⟩ :=
    field ("<>capture_" ++ toString key ++ "_ready") runtime.flagType third
      ⟨thirdLeft, table.nextKey⟩ heldThird
  obtain ⟨method, last, left, defines, heldLast, kept⟩ :=
    obliges.defineMethod ("<>get_capture_" ++ toString key) type
      (body runtime key type cache claimed ready) fourth ⟨fourthLeft, table.nextKey⟩ heldFourth
  refine ⟨⟨key, method, cache, claimed, ready⟩, last, left, rfl,
    .intro access caches claims readies defines, heldLast, ?_⟩
  intro other unused
  exact kept other (keptFourth other (keptThird other (keptSecond other (keptFirst other unused))))

/-- Whatever the builder takes out of the table, the keys behind the next one
stay unused when the object is parked under that one. -/
theorem hasRoom_insert {count : Nat} {table : CaptureTable} (room : table.HasRoom (count + 1))
    {left : List (UInt64 × CapturedObject)}
    (kept : ∀ key, table.contains key = false → (left.lookup key).isSome = false)
    (object : CapturedObject) :
    (⟨left ++ [(table.nextKey, object)], table.nextKey + 1⟩ : CaptureTable).HasRoom count where
  keys := Nat.le_of_succ_le room.keys
  unused := by
    intro number below
    have shifted : table.nextKey + UInt64.ofNat (number + 1) =
        table.nextKey + 1 + UInt64.ofNat number := by
      rw [UInt64.ofNat_add, UInt64.add_assoc, UInt64.add_comm 1]
      rfl
    have unused := kept _ (room.unused (number + 1) (by omega))
    rw [shifted] at unused
    have different : (table.nextKey + 1 + UInt64.ofNat number == table.nextKey) = false := by
      have limit := room.keys
      simpa using CaptureTable.key_ne_later table.nextKey (by omega : number + 1 < 2 ^ 64)
    simp only [CaptureTable.contains, CaptureTable.find?, List.lookup_append, List.lookup_cons,
      different]
    simpa using unused

theorem run_define (obliges : TypeBuilder.Obliges trusted) (runtime : AccessorRuntime)
    (object : CapturedObject) {count : Nat} (workspace : Workspace Builder)
    (builder : trusted workspace.builder) (room : workspace.table.HasRoom (count + 1)) :
    ∃ accessor after, run (define runtime object) workspace = (.ok accessor, after) ∧
      trusted after.builder ∧ after.table.HasRoom count := by
  let key := workspace.table.nextKey
  obtain ⟨accessor, last, left, isKey, members, trustedLast, kept⟩ :=
    exists_requested obliges runtime object.type key workspace.builder
      ⟨workspace.table.entries, key + 1⟩ builder
  have first := room.unused 0 (Nat.succ_pos count)
  rw [show workspace.table.nextKey + UInt64.ofNat 0 = key from UInt64.add_zero key] at first
  have unused : CaptureTable.contains ⟨left, key + 1⟩ accessor.key = false := by
    rw [isKey]
    exact kept key first
  refine ⟨accessor, _, define_eq_ok_iff.mpr (.intro isKey members unused), trustedLast, ?_⟩
  rw [isKey]
  exact hasRoom_insert room kept object

theorem run_defineAll (obliges : TypeBuilder.Obliges trusted) (runtime : AccessorRuntime)
    (objects : List CapturedObject) (defined : List Accessor) (workspace : Workspace Builder)
    (builder : trusted workspace.builder) (room : workspace.table.HasRoom objects.length) :
    ∃ accessors after, run (defineAll runtime objects defined) workspace =
        (.ok accessors, after) ∧
      accessors.length = defined.length + objects.length := by
  induction objects generalizing defined workspace with
  | nil => exact ⟨defined, workspace, rfl, rfl⟩
  | cons object rest inductionHypothesis =>
      obtain ⟨accessor, middle, ran, trustedMiddle, roomMiddle⟩ :=
        run_define obliges runtime object workspace builder room
      obtain ⟨accessors, after, ranRest, count⟩ :=
        inductionHypothesis (defined ++ [accessor]) middle trustedMiddle roomMiddle
      refine ⟨accessors, after, ?_, ?_⟩
      · simp only [defineAll, run_bind, run_lift, run_attempt, ran, ranRest]
      · rw [count, List.length_append, List.length_singleton, List.length_cons, Nat.add_assoc,
          Nat.add_comm 1]

theorem defineAll_eq_ok {runtime : AccessorRuntime} {objects : List CapturedObject}
    {defined accessors : List Accessor} {workspace after : Workspace Builder}
    (done : run (defineAll runtime objects defined) workspace = (.ok accessors, after)) :
    ∃ added, accessors = defined ++ added ∧
      List.Forall₂ (fun object accessor => ∃ before later : Workspace Builder,
        run (define runtime object) before = (.ok accessor, later)) objects added := by
  obtain ⟨added, rfl, defines⟩ := defineAll_eq_ok_iff.mp done
  refine ⟨added, rfl, ?_⟩
  clear done
  induction defines with
  | none => exact .nil
  | next first others inductionHypothesis =>
      exact .cons ⟨_, _, define_eq_ok_iff.mpr first⟩ inductionHypothesis

end Accessor

def Draft.Willing (draft : Draft) : Prop :=
  draft.refusals = ⟨none, none, none⟩ ∧ draft.taking = none

theorem Draft.obliges : TypeBuilder.Obliges Draft.Willing where
  assembly := fun draft table willing =>
    ⟨draft.assembly, draft, table.entries, rfl, willing, fun _ unused => unused⟩
  grantsAccess := fun assembly draft table willing =>
    ⟨draft.granted.contains assembly, draft, table.entries, rfl, willing, fun _ unused => unused⟩
  grantAccess := by
    rintro assembly ⟨home, granted, refusals, taking, grants, fields, methods, events⟩ table
      ⟨rfl, rfl⟩
    exact ⟨_, _, table.entries, rfl, ⟨rfl, rfl⟩, fun _ unused => unused⟩
  defineField := by
    rintro name type ⟨home, granted, refusals, taking, grants, fields, methods, events⟩ table
      ⟨rfl, rfl⟩
    exact ⟨_, _, table.entries, rfl, ⟨rfl, rfl⟩, fun _ unused => unused⟩
  defineMethod := by
    rintro name type body ⟨home, granted, refusals, taking, grants, fields, methods, events⟩
      table ⟨rfl, rfl⟩
    exact ⟨_, _, table.entries, rfl, ⟨rfl, rfl⟩, fun _ unused => unused⟩

end CilTemplate
