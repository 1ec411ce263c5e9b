import CilTemplate.Proofs.Expansion.Tracing

/-
What is left when the template loses what expansion consumes and the result
loses what expansion adds: on both sides the same items in the same order.
-/

namespace CilTemplate

open CilTemplate.Action

namespace Expander

theorem trimmed_eq_or (expander : Expander) (items : List CodeItem) :
    expander.trimmed items = items ∨ items = expander.trimmed items ++ [.code .ret] := by
  unfold trimmed
  split
  · rename_i trims
    have last := eq_of_beq (Bool.and_eq_true_iff.mp trims).2
    obtain ⟨front, rfl⟩ := List.getLast?_eq_some_iff.mp last
    exact Or.inr (by rw [List.dropLast_concat])
  · exact Or.inl rfl

theorem trimmed_isPrefix (expander : Expander) (items : List CodeItem) :
    expander.trimmed items <+: items := by
  rcases expander.trimmed_eq_or items with same | added
  · exact ⟨[], by rw [same, List.append_nil]⟩
  · exact ⟨_, added.symm⟩

variable {expander : Expander} {body expanded : Body} {accessors : List Accessor}

/-- What an expansion that has succeeded consists of: the state of the pass at
its end, the code before the accessors are called, and the trace of both. -/
structure ExpandedAs (expander : Expander) (body expanded : Body) (accessors : List Accessor)
    (pass : Pass) (output : List ExpandedItem) (trace : Trace) : Prop where
  traced : TracedAs expander pass (expander.trimmed body.items) output trace
  sound : pass.Sound expander.captures
  objects : pass.objects = trace.objects.foldl CaptureUses.addObject []
  items : expanded.items = placeCalls accessors output
  locals : expanded.locals = body.locals ++ pass.temporaries.toList

variable {Builder : Type} {workspace after : Workspace Builder}

theorem run_expandPass (expander : Expander) (body : Body) (workspace : Workspace Builder) :
    run (expander.expandPass body) workspace =
      match run (expander.expandItems 0 (expander.trimmed body.items))
        (Pass.start body.locals.length workspace.reads workspace.log) with
      | (.ok output, pass) =>
          (.ok (output, pass), { workspace with reads := pass.reads, log := pass.log })
      | (.error error, pass) =>
          (.error error, { workspace with reads := pass.reads, log := pass.log }) := by
  simp only [expandPass, run_bind, run_get, run_set, run_ofExcept]
  cases run (expander.expandItems 0 (expander.trimmed body.items))
      (Pass.start body.locals.length workspace.reads workspace.log) with
  | mk result pass => cases result <;> rfl

variable [TypeBuilder Builder]

/-- First all of the template is expanded, and then the accessors are defined. -/
theorem expand_eq_ok_iff :
    run (expander.expand body) workspace = (.ok (expanded, accessors), after) ↔
      ∃ (output : List ExpandedItem) (pass : Pass),
        run (expander.expandItems 0 (expander.trimmed body.items))
          (Pass.start body.locals.length workspace.reads workspace.log) = (.ok output, pass) ∧
        run (Accessor.defineAll expander.runtime pass.objects [])
          { workspace with reads := pass.reads, log := pass.log } = (.ok accessors, after) ∧
        expanded = ⟨body.locals ++ pass.temporaries.toList, placeCalls accessors output⟩ := by
  rw [expand, run_bind, run_expandPass]
  cases run (expander.expandItems 0 (expander.trimmed body.items))
      (Pass.start body.locals.length workspace.reads workspace.log) with
  | mk result pass =>
      cases result with
      | error error =>
          constructor
          · rintro ⟨⟩
          · rintro ⟨_, _, ⟨⟩, _⟩
      | ok output =>
          rw [run_bind_eq_ok]
          constructor
          · rintro ⟨found, _, defined, ended⟩
            obtain ⟨same, rfl⟩ := Prod.mk.inj ended
            obtain ⟨rfl, rfl⟩ := Prod.mk.inj (Except.ok.inj same)
            exact ⟨output, pass, rfl, defined, rfl⟩
          · rintro ⟨_, _, ⟨⟩, defined, rfl⟩
            exact ⟨accessors, after, defined, rfl⟩

theorem exists_expandedAs {output : List ExpandedItem} {pass : Pass} {reads : Array CaptureSite}
    {log : Log}
    (ran : run (expander.expandItems 0 (expander.trimmed body.items))
      (Pass.start body.locals.length reads log) = (.ok output, pass)) (accessors : List Accessor) :
    ∃ trace : Trace, ExpandedAs expander body
      ⟨body.locals ++ pass.temporaries.toList, placeCalls accessors output⟩ accessors pass output
      trace := by
  obtain ⟨trace, continues, traced⟩ := exists_trace (expander.trimmed body.items) 0 _ _ _
    (Pass.sound_start _ _ _ _) ran
  exact ⟨trace, traced, continues.sound, continues.objects, rfl, rfl⟩

theorem expand_eq_ok
    (done : run (expander.expand body) workspace = (.ok (expanded, accessors), after)) :
    ∃ (pass : Pass) (output : List ExpandedItem) (trace : Trace),
      TracedAs expander pass (expander.trimmed body.items) output trace ∧
      pass.Sound expander.captures ∧ expanded.items = placeCalls accessors output ∧
      List.Forall₂ (fun object accessor => ∃ before later : Workspace Builder,
        run (Accessor.define expander.runtime object) before = (.ok accessor, later))
        pass.objects accessors := by
  obtain ⟨output, pass, ran, defined, rfl⟩ := expand_eq_ok_iff.mp done
  obtain ⟨trace, expanded⟩ := exists_expandedAs ran accessors
  obtain ⟨added, rfl, each⟩ := Accessor.defineAll_eq_ok defined
  exact ⟨pass, output, trace, expanded.traced, expanded.sound, expanded.items, each⟩

/-- Expansion loses, repeats and reorders nothing.  Template and result are cut
into parts: on one side accesses, targets, operations and reads of captures, on
the other the code around values and the loads of captured values.  What is not
part of them is the same on both sides, with shifted argument indices. -/
theorem expand_shares_remainder {expander : Expander} {body expanded : Body}
    {accessors : List Accessor} {workspace after : Workspace Builder}
    (done : run (expander.expand body) workspace = (.ok (expanded, accessors), after)) :
    ∃ (objects : List CapturedObject) (trace : Trace),
      let output := trace.output expander.options.argumentOffset accessors
      trace.Valid expander objects ∧ objects.length = accessors.length ∧
      Part.flatten trace.input = expander.trimmed body.items ∧
      Part.flatten output = expanded.items ∧
      output.filterMap Part.shared? =
        (trace.input.filterMap Part.shared?).map
          (CodeItem.shifted expander.options.argumentOffset) := by
  obtain ⟨pass, items, trace, traced, _, placed, defined⟩ := expand_eq_ok done
  refine ⟨pass.objects, trace, traced.valid _ (List.prefix_refl _), defined.length_eq, traced.input,
    ?_, trace.shared_output _ _⟩
  rw [placed, traced.output accessors]

end Expander

namespace RemainderSample

open NestedSample

/-- A nested site between a label and code that passes through, and a copy of
the captured object. -/
def labelled : Body :=
  ⟨[], .mark ⟨.index 0, "Again"⟩ :: (code.items ++
    [.code (.argument .load 1), .code (.raw Opcode.pop .none), .code (.argument .load 0),
      .code (.field .ofObject .address (captured 4)), .code (.raw Opcode.pop .none),
      .code .ret])⟩

theorem run_expand :
    ∃ expanded accessors after,
      run (expander.expand labelled) workspace = (.ok (expanded, accessors), after) ∧
        expanded.items.length = 13 ∧ accessors.length = 1 := by
  have lengths : (run (expander.expand labelled) workspace).1.toOption.map
      (fun result => (result.1.items.length, result.2.length)) = some (13, 1) := by
    decide +kernel
  obtain ⟨⟨expanded, accessors⟩, found, same⟩ := Option.map_eq_some_iff.mp lengths
  obtain ⟨items, count⟩ := Prod.mk.inj same
  exact ⟨expanded, accessors, _, run_eq_ok_of_toOption found, items, count⟩

end RemainderSample

open NestedSample RemainderSample in
theorem expand_shares_remainder_of_label :
    ∃ expanded accessors after,
      run (expander.expand labelled) workspace = (.ok (expanded, accessors), after) ∧
      expanded.items.length = 13 ∧
      ∃ (objects : List CapturedObject) (trace : Trace),
        trace.Valid expander objects ∧ objects.length = 1 ∧
        Part.flatten trace.input = labelled.items.dropLast ∧
        Part.flatten (trace.output 0 accessors) = expanded.items ∧
        (trace.output 0 accessors).filterMap Part.shared? =
          (trace.input.filterMap Part.shared?).map (CodeItem.shifted 0) := by
  obtain ⟨expanded, accessors, after, done, length, one⟩ := run_expand
  obtain ⟨objects, trace, valid, count, input, output, shared⟩ :=
    Expander.expand_shares_remainder done
  exact ⟨expanded, accessors, after, done, length, objects, trace, valid, count.trans one,
    input.trans (by decide +kernel), output, shared⟩

end CilTemplate
