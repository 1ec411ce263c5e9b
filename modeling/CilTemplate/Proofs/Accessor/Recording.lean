import CilTemplate.Proofs.Accessor.Definition

/-
A builder that records which methods it is asked for.  It does what the builder
inside does, so its record is that of a definition by the builder inside.
-/

namespace CilTemplate

open CilTemplate.Action Accessor

/-- A builder with the requests for methods so far. -/
structure Recording (Builder : Type) where
  builder : Builder
  requests : List MethodRequest

namespace Recording

variable {Builder : Type}

def around (requests : List MethodRequest) (state : Builder × CaptureTable) :
    Recording Builder × CaptureTable :=
  (⟨state.1, requests⟩, state.2)

def inside {Answer : Type} (request : StateM (Builder × CaptureTable) Answer) :
    StateM (Recording Builder × CaptureTable) Answer :=
  fun (recording, table) =>
    let (answer, after) := StateT.run request (recording.builder, table)
    (answer, around recording.requests after)

instance [TypeBuilder Builder] : TypeBuilder (Recording Builder) where
  assembly := inside TypeBuilder.assembly
  grantsAccess assembly := inside (TypeBuilder.grantsAccess assembly)
  grantAccess assembly := ExceptT.mk (inside (TypeBuilder.grantAccess assembly).run)
  defineField name type := ExceptT.mk (inside (TypeBuilder.defineField name type).run)
  defineMethod name type body := do
    modify fun (recording, table) =>
      ({ recording with requests := recording.requests ++ [⟨name, type, body⟩] }, table)
    ExceptT.mk (inside (TypeBuilder.defineMethod name type body).run)

end Recording

def Workspace.recording {Builder : Type} (workspace : Workspace Builder)
    (requests : List MethodRequest) : Workspace (Recording Builder) where
  builder := ⟨workspace.builder, requests⟩
  table := workspace.table
  reads := workspace.reads
  log := workspace.log

namespace Accessor

variable {Builder : Type} [TypeBuilder Builder] {runtime : AccessorRuntime}

theorem run_grantFor_recording (assembly : String) (requests : List MethodRequest)
    (before : Builder × CaptureTable) :
    run (grantFor assembly) (Recording.around requests before) =
      ((run (grantFor assembly) before).1,
        Recording.around requests (run (grantFor assembly) before).2) := by
  have answers : ∀ {Answer : Type} (request : StateM (Builder × CaptureTable) Answer)
      (state : Builder × CaptureTable),
      StateT.run (Recording.inside request) (Recording.around requests state) =
        ((StateT.run request state).1,
          Recording.around requests (StateT.run request state).2) := fun _ _ => rfl
  have home : StateT.run TypeBuilder.assembly (Recording.around requests before) = _ :=
    answers _ _
  simp only [grantFor, run_bind, run_lift, home, run_ite]
  generalize StateT.run TypeBuilder.assembly before = found
  by_cases foreign : assembly ≠ found.1
  · have grants : StateT.run (TypeBuilder.grantsAccess assembly)
        (Recording.around requests found.2) = _ := answers _ _
    simp only [if_pos foreign, grants]
    split <;> rfl
  · simp only [if_neg foreign, run_pure]

/-- The members are asked for as without the record, and the method is
recorded. -/
theorem Requested.recording {type : CilType} {accessor : Accessor}
    {before after : Builder × CaptureTable}
    (requested : Requested runtime type accessor before after)
    (requests : List MethodRequest) :
    Requested runtime type accessor (Recording.around requests before)
      (Recording.around (requests ++ [request runtime type accessor]) after) := by
  obtain ⟨access, cache, claim, ready, method⟩ := requested
  have field : ∀ {name : String} {type : CilType} {field : Field}
      {before after : Builder × CaptureTable},
      run (TypeBuilder.defineField name type) before = (.ok field, after) →
        run (TypeBuilder.defineField name type) (Recording.around requests before) =
          (.ok field, Recording.around requests after) := by
    intro name type field before after defined
    change ((run (TypeBuilder.defineField name type) before).1, Recording.around requests
      (run (TypeBuilder.defineField name type) before).2) = _
    rw [defined]
  refine .intro ?_ (field cache) (field claim) (field ready) ?_
  · rw [run_grantFor_recording, access]
  · change ((run (TypeBuilder.defineMethod _ type _) _).1, Recording.around _
      (run (TypeBuilder.defineMethod _ type _) _).2) = _
    rw [method]
    rfl

theorem DefinesAll.recording {objects : List CapturedObject} {accessors : List Accessor}
    {before after : Workspace Builder} (defines : DefinesAll runtime objects accessors before after)
    (requests : List MethodRequest) :
    DefinesAll runtime objects accessors (before.recording requests)
      (after.recording (requests ++
        objects.zipWith (fun object => request runtime object.type) accessors)) := by
  induction defines generalizing requests with
  | none =>
      rw [List.zipWith_nil_left, List.append_nil]
      exact .none
  | next first others inductionHypothesis =>
      obtain ⟨key, members, unused⟩ := first
      rw [List.zipWith_cons_cons, List.append_cons]
      exact .next (.intro key (members.recording requests) unused) (inductionHypothesis _)

end Accessor
end CilTemplate
