import CilTemplate.Proofs.Decoding.Closed
import CilTemplate.Proofs.Expansion.Insertions
import CilTemplate.Template

/-
Expanded templates can be written.  Decoding gives code in order and expansion
keeps it in order, so on a sink that meets every request only a local of the
destination that was not bound stands in the way.
-/

namespace CilTemplate

open CilTemplate.Action

/-- A local of the destination that a body accesses although it is not bound: a
closure has given it, and the body does not declare it. -/
structure MissingLocal (captures : CaptureContext) (bound : List (Local × UInt16)) (body : Body)
    (slot : Local) : Prop where
  captured : ∃ site, captures.Gives site (.member (.localSlot slot))
  used : slot ∈ body.usedLocals
  undeclared : slot.identity ∉ body.locals.map Local.identity
  unbound : slot.identity ∉ bound.map fun entry => entry.1.identity

/-- Where closures give all locals that are not declared, the missing ones are
those that the check does not know. -/
theorem missingLocal_iff {captures : CaptureContext} {bound : List (Local × UInt16)} {body : Body}
    (given : ∀ slot ∈ body.usedLocals, slot ∈ body.locals ∨
      ∃ site, captures.Gives site (.member (.localSlot slot))) {slot : Local} :
    MissingLocal captures bound body slot ↔ slot ∈ body.usedLocals ∧
      slot.identity ∉ (bound.map fun entry => (entry.1.identity, entry.2)).reverse.map Prod.fst ++
        body.locals.map Local.identity := by
  rw [List.map_reverse, List.map_map, List.mem_append, List.mem_reverse, not_or]
  constructor
  · rintro ⟨_, used, undeclared, unbound⟩
    exact ⟨used, unbound, undeclared⟩
  · rintro ⟨used, unbound, undeclared⟩
    refine ⟨(given slot used).resolve_left ?_, used, undeclared, unbound⟩
    exact fun own => undeclared (List.mem_map_of_mem own)

theorem CodeSink.Obliges.besideTable {Sink : Type} [CodeSink Sink] {trusted : Sink → Prop}
    (obliges : CodeSink.Obliges trusted) :
    CodeSink.Obliges fun state : Sink × CaptureTable => trusted state.1 := by
  have beside : ∀ {Result : Type} {action : Action Sink Result}, Succeeds trusted action trusted →
      Succeeds (fun state : Sink × CaptureTable => trusted state.1)
        (CodeSink.besideTable action) fun state => trusted state.1 := by
    rintro Result action succeeds ⟨sink, table⟩ held
    obtain ⟨value, next, done, heldAfter⟩ := succeeds sink held
    refine ⟨value, (next, table), ?_, heldAfter⟩
    rw [CodeSink.besideTable, run_onPart, done]
  exact
    { declareLocal := fun declaration => beside (obliges.declareLocal declaration)
      defineLabel := beside obliges.defineLabel
      markLabel := fun label => beside (obliges.markLabel label)
      emit := fun opcode operand => beside (obliges.emit opcode operand) }

namespace TemplateProcessor

variable {Builder Sink : Type}

theorem expand_eq_ok [TypeBuilder Builder] {processor : TemplateProcessor}
    {template : TemplateMethod} {options : TemplateOptions} {workspace after : Workspace Builder}
    {expanded : Body} {accessors : List Accessor}
    (done : run (processor.expand template options) workspace =
      (.ok (expanded, accessors), after)) :
    ∃ (decoded : Body) (start later : Workspace Builder),
      Body.decode template.code template.locals processor.resolver template.context =
        .ok decoded ∧
      run ((processor.expander template options).expand decoded) start =
        (.ok (expanded, accessors), later) := by
  obtain ⟨decoded, start, reading, rest⟩ := run_bind_eq_ok.mp done
  rw [run_onPart] at reading
  obtain ⟨isRead, _⟩ := Prod.mk.inj reading
  obtain ⟨_, _, decodes, noted⟩ := run_bind_eq_ok.mp (Prod.ext isRead rfl)
  obtain ⟨_, _, _, ended⟩ := run_bind_eq_ok.mp noted
  obtain ⟨same, _⟩ := Prod.mk.inj ended
  obtain rfl := Except.ok.inj same
  obtain ⟨decodes, _⟩ := Prod.mk.inj decodes
  obtain ⟨⟨body, made⟩, later, expanding, rest⟩ := run_bind_eq_ok.mp rest
  obtain ⟨_, _, _, ended⟩ := run_bind_eq_ok.mp rest
  obtain ⟨same, _⟩ := Prod.mk.inj ended
  rw [← Except.ok.inj same]
  exact ⟨_, start, later, decodes, expanding⟩

theorem closed_of_expand [TypeBuilder Builder] {processor : TemplateProcessor}
    {template : TemplateMethod} {options : TemplateOptions} {workspace after : Workspace Builder}
    {expanded : Body} {accessors : List Accessor}
    (done : run (processor.expand template options) workspace =
      (.ok (expanded, accessors), after)) :
    expanded.Closed ∧ ∀ slot ∈ expanded.usedLocals, slot ∈ expanded.locals ∨
      ∃ site, processor.captures.Gives site (.member (.localSlot slot)) := by
  obtain ⟨decoded, start, later, decodes, expanding⟩ := expand_eq_ok done
  obtain ⟨output, pass, ran, _, rfl⟩ := Expander.expand_eq_ok_iff.mp expanding
  obtain ⟨trace, traced⟩ := Expander.exists_expandedAs ran accessors
  exact ⟨traced.closed (Body.closed_of_decode decodes),
    fun _ => traced.usedLocals_cases (Body.usedLocals_subset_of_decode decodes)⟩

variable [CodeSink (Sink × CaptureTable)] {trusted : Sink × CaptureTable → Prop}

theorem run_write_of_obliges (obliges : CodeSink.Obliges trusted) (options : EncoderOptions)
    (bound : List (Local × UInt16)) (body : Body) (workspace : Workspace Builder) {sink : Sink}
    (held : trusted (sink, workspace.table)) :
    (run (write options bound body) (workspace, sink)).1 =
      Encoder.validate (bound.map fun entry => (entry.1.identity, entry.2)).reverse body := by
  let start : Encoder (Sink × CaptureTable) :=
    { Encoder.onto (sink, workspace.table) options with log := workspace.log }
  have writes : (run (write options bound body) (workspace, sink)).1 =
      (run (do
        bound.forM fun entry => Encoder.bindLocal entry.1 entry.2
        Encoder.encodeBody body) start).1 := rfl
  rw [writes, run_bind, Encoder.run_bindLocals]
  rw [Encoder.run_encodeBody_of_obliges obliges held]
  exact congrArg (Encoder.validate · body) (List.append_nil _)

/-- Whatever was decoded and expanded can be encoded: on a sink that meets every
request it is written unless a local of the destination is missing, and nothing
else can go wrong. -/
theorem expanded_encodable [TypeBuilder Builder] (obliges : CodeSink.Obliges trusted)
    {processor : TemplateProcessor} {template : TemplateMethod} {options : TemplateOptions}
    {workspace after : Workspace Builder} {expanded : Body} {accessors : List Accessor}
    (done : run (processor.expand template options) workspace =
      (.ok (expanded, accessors), after))
    (encoderOptions : EncoderOptions) (bound : List (Local × UInt16)) {sink : Sink}
    (held : trusted (sink, after.table)) :
    let outcome := (run (write encoderOptions bound expanded) (after, sink)).1
    (outcome = .ok () ↔ ∀ slot, ¬MissingLocal processor.captures bound expanded slot) ∧
    ∀ error, outcome = .error error →
      ∃ slot, MissingLocal processor.captures bound expanded slot ∧
        error = .unknownLocal slot.text := by
  obtain ⟨closed, given⟩ := closed_of_expand done
  intro outcome
  have decided := (run_write_of_obliges obliges encoderOptions bound expanded after held).trans
    (Encoder.validate_of_closed closed _)
  cases found : expanded.unknown? _ with
  | none =>
      rw [found] at decided
      refine ⟨iff_of_true decided ?_, ?_⟩
      · intro slot missing
        obtain ⟨used, unknown⟩ := (missingLocal_iff given).mp missing
        exact unknown (Body.mem_of_unknown?_eq_none found slot used)
      · intro error failed
        cases decided.symm.trans failed
  | some slot =>
      rw [found] at decided
      have missing : MissingLocal processor.captures bound expanded slot :=
        (missingLocal_iff given).mpr (Body.unknown?_eq_some found)
      refine ⟨iff_of_false ?_ fun none => none slot missing, ?_⟩
      · intro written
        cases decided.symm.trans written
      · intro error failed
        cases decided.symm.trans failed
        exact ⟨slot, missing, rfl⟩

end TemplateProcessor

namespace EncodableSample

open NestedSample

def processor : TemplateProcessor :=
  let fields := (SymbolTable.empty.insertField namespaceField).insertField (captured 2)
  let table := fields.insertMethod (operation 1 "Get" 1 valueType)
  ⟨table.resolver, ⟨surrogateType⟩, runtime, expander.captures⟩

def template : TemplateMethod :=
  ⟨[0x7E, 0x01, 0x00, 0x00, 0x04, 0x02, 0x7B, 0x12, 0x00, 0x00, 0x04, 0x28, 0x01, 0x00, 0x00, 0x0A,
    0x2D, 0xEE, 0x2A], [], false, ⟨[], []⟩⟩

def sink : Transcript := Transcript.empty none

theorem run_expand :
    ∃ expanded accessors after,
      run (processor.expand template TemplateOptions.standard) workspace =
        (.ok (expanded, accessors), after) ∧
      expanded.usedLocals = [slot] ∧ expanded.locals = [] := by
  have locals : (run (processor.expand template TemplateOptions.standard) workspace).1.toOption.map
      (fun result => (result.1.usedLocals, result.1.locals)) = some ([slot], []) := by
    decide +kernel
  obtain ⟨⟨expanded, accessors⟩, found, same⟩ := Option.map_eq_some_iff.mp locals
  obtain ⟨used, declared⟩ := Prod.mk.inj same
  exact ⟨expanded, accessors, _, run_eq_ok_of_toOption found, used, declared⟩

end EncodableSample

open NestedSample EncodableSample in
theorem expanded_encodable_of_loop :
    ∃ expanded accessors after,
      run (processor.expand template TemplateOptions.standard) workspace =
        (.ok (expanded, accessors), after) ∧
      (run (TemplateProcessor.write EncoderOptions.standard [(slot, 3)] expanded)
        (after, sink)).1 = .ok () ∧
      (run (TemplateProcessor.write EncoderOptions.standard [] expanded) (after, sink)).1 =
        .error (.unknownLocal "result") := by
  obtain ⟨expanded, accessors, after, done, used, declared⟩ := run_expand
  have encodable := fun bound => TemplateProcessor.expanded_encodable
    Transcript.obliges.besideTable done EncoderOptions.standard bound
    (rfl : (sink, after.table).1.localLimit = none)
  refine ⟨expanded, accessors, after, done, (encodable [(slot, 3)]).1.mpr ?_, ?_⟩
  · intro other missing
    obtain rfl := List.mem_singleton.mp (used ▸ missing.used)
    exact missing.unbound List.mem_cons_self
  · obtain ⟨writes, fails⟩ := encodable []
    have missing : MissingLocal processor.captures [] expanded slot := by
      refine ⟨⟨(read 2).site, ?_⟩, ?_, ?_, List.not_mem_nil⟩
      · exact ⟨closure.object, 0, rfl, by rfl⟩
      · rw [used]
        exact List.mem_cons_self
      · rw [declared]
        exact List.not_mem_nil
    cases outcome : (run (TemplateProcessor.write EncoderOptions.standard [] expanded)
        (after, sink)).1 with
    | ok => exact absurd missing (writes.mp outcome slot)
    | error error =>
        obtain ⟨other, missingOther, rfl⟩ := fails error outcome
        obtain rfl := List.mem_singleton.mp (used ▸ missingOther.used)
        rfl

end CilTemplate
