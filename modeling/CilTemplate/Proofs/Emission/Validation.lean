import CilTemplate.Proofs.Emission.SinkStates
import CilTemplate.Proofs.Entries
import CilTemplate.Sink.Transcript

/-
Bodies on a sink that meets every request.  Only the check of the body can fail
then, and where labels and raw instructions are in order it fails for the first
local that is not known.
-/

namespace CilTemplate

namespace Action

variable {State Result Next : Type} {before middle after : State → Prop}

/-- From every state with the one property the action succeeds and leaves a
state with the other. -/
def Succeeds (before : State → Prop) (action : Action State Result) (after : State → Prop) :
    Prop :=
  ∀ state, before state → ∃ value next, run action state = (.ok value, next) ∧ after next

namespace Succeeds

theorem pure (value : Result) : Succeeds before (pure value) before :=
  fun state held => ⟨value, state, rfl, held⟩

theorem get : Succeeds before (get : Action State State) before :=
  fun state held => ⟨state, state, rfl, held⟩

theorem modify {change : State → State} (leads : ∀ state, before state → after (change state)) :
    Succeeds before (modify change : Action State PUnit) after :=
  fun state held => ⟨⟨⟩, change state, rfl, leads state held⟩

theorem bind {action : Action State Result} {next : Result → Action State Next}
    (first : Succeeds before action middle) (others : ∀ value, Succeeds middle (next value) after) :
    Succeeds before (action >>= next) after := by
  intro state held
  obtain ⟨value, between, ran, holds⟩ := first state held
  obtain ⟨result, final, ended, holdsThen⟩ := others value between holds
  exact ⟨result, final, run_bind_eq_ok.mpr ⟨value, between, ran, ended⟩, holdsThen⟩

end Succeeds
end Action

open CilTemplate.Action

/-- A sink that meets every request as long as it is in a trusted state. -/
abbrev CodeSink.Obliges {Sink : Type} [CodeSink Sink] (trusted : Sink → Prop) : Prop :=
  CodeSink.Every fun action => Succeeds trusted action trusted

theorem Transcript.obliges :
    CodeSink.Obliges fun transcript : Transcript => transcript.localLimit = none where
  declareLocal := by
    rintro declaration ⟨requests, locals, labels, limit⟩ ⟨⟩
    exact ⟨_, _, rfl, rfl⟩
  defineLabel := fun _ unlimited => ⟨_, _, rfl, unlimited⟩
  markLabel := fun _ _ unlimited => ⟨_, _, rfl, unlimited⟩
  emit := fun _ _ _ unlimited => ⟨_, _, rfl, unlimited⟩

def Instruction.slot? {Target : Type} : Instruction Target → Option Local
  | localSlot _ slot => some slot
  | _ => none

/-- A raw instruction can be written; every other instruction has a form. -/
def Instruction.Writable {Target : Type} : Instruction Target → Prop
  | raw opcode operand => Encoder.checkRaw opcode operand = .ok ()
  | _ => True

namespace Body

def usedLocals (body : Body) : List Local :=
  body.instructions.filterMap Instruction.slot?

/-- The first local that the code accesses without its being known. -/
def unknown? (body : Body) (known : List Identity) : Option Local :=
  body.usedLocals.find? fun slot => !known.contains slot.identity

theorem mem_of_unknown?_eq_none {body : Body} {known : List Identity}
    (none : body.unknown? known = none) : ∀ slot ∈ body.usedLocals, slot.identity ∈ known := by
  intro slot used
  simpa using List.find?_eq_none.mp none slot used

theorem unknown?_eq_some {body : Body} {known : List Identity} {slot : Local}
    (found : body.unknown? known = some slot) :
    slot ∈ body.usedLocals ∧ slot.identity ∉ known :=
  ⟨List.mem_of_find?_eq_some found, by simpa using List.find?_some found⟩

/-- Labels and raw instructions are in order: no label is marked twice, every
target is marked and every raw instruction can be written. -/
structure Closed (body : Body) : Prop where
  marks : (body.labels.map Label.identity).Nodup
  targets : ∀ instruction ∈ body.instructions, ∀ target ∈ instruction.targets,
    target.identity ∈ body.labels.map Label.identity
  writable : ∀ instruction ∈ body.instructions, instruction.Writable

end Body

namespace Encoder

section Check

variable {marked known : List Identity} {instruction : Instruction Label}
  {instructions : List (Instruction Label)}

theorem checkMarks_of_nodup {labels : List Label}
    (distinct : (labels.map Label.identity).Nodup)
    (fresh : ∀ label ∈ labels, label.identity ∉ marked) : checkMarks marked labels = .ok () := by
  induction labels generalizing marked with
  | nil => rfl
  | cons label rest inductionHypothesis =>
      obtain ⟨new, others⟩ := List.nodup_cons.mp distinct
      obtain ⟨here, later⟩ := List.forall_mem_cons.mp fresh
      rw [checkMarks, if_neg (by simpa using here)]
      apply inductionHypothesis others
      intro other member
      have different : other.identity ≠ label.identity :=
        fun same => new (same ▸ List.mem_map_of_mem member)
      exact List.not_mem_cons_of_ne_of_not_mem different (later other member)

theorem nodup_of_checkMarks {labels : List Label} (checked : checkMarks marked labels = .ok ()) :
    (labels.map Label.identity).Nodup ∧ ∀ label ∈ labels, label.identity ∉ marked := by
  induction labels generalizing marked with
  | nil => exact ⟨List.nodup_nil, fun _ absent => by cases absent⟩
  | cons label rest inductionHypothesis =>
      rw [checkMarks] at checked
      split at checked
      · cases checked
      · rename_i fresh
        obtain ⟨distinct, others⟩ := inductionHypothesis checked
        refine ⟨List.nodup_cons.mpr ⟨?_, distinct⟩, List.forall_mem_cons.mpr ⟨?_, ?_⟩⟩
        · intro again
          obtain ⟨other, member, same⟩ := List.mem_map.mp again
          exact others other member (same ▸ List.mem_cons_self)
        · simpa using fresh
        · exact fun other member => List.not_mem_of_not_mem_cons (others other member)

theorem checkInstruction_eq (targets : ∀ target ∈ instruction.targets, target.identity ∈ marked)
    (writable : instruction.Writable) :
    checkInstruction marked known instruction =
      instruction.slot?.elim (.ok ()) fun slot =>
        if known.contains slot.identity then .ok () else .error (.unknownLocal slot.text) := by
  have allMarked : instruction.targets.find? (fun target => !marked.contains target.identity) =
      none := by
    rw [List.find?_eq_none]
    intro target isTarget
    simpa using targets target isTarget
  unfold checkInstruction
  rw [allMarked]
  cases instruction with
  | raw opcode operand => exact writable
  | _ => rfl

theorem checkInstructions_eq
    (targets : ∀ instruction ∈ instructions, ∀ target ∈ instruction.targets,
      target.identity ∈ marked)
    (writable : ∀ instruction ∈ instructions, instruction.Writable) :
    checkInstructions marked known instructions =
      ((instructions.filterMap Instruction.slot?).find?
        fun slot => !known.contains slot.identity).elim (.ok ()) fun slot =>
          .error (.unknownLocal slot.text) := by
  induction instructions with
  | nil => rfl
  | cons instruction rest inductionHypothesis =>
      obtain ⟨targetsHere, targetsLater⟩ := List.forall_mem_cons.mp targets
      obtain ⟨writableHere, writableLater⟩ := List.forall_mem_cons.mp writable
      have others := inductionHypothesis targetsLater writableLater
      rw [checkInstructions, checkInstruction_eq targetsHere writableHere, others]
      cases found : instruction.slot? with
      | none =>
          rw [List.filterMap_cons_none found]
          rfl
      | some slot =>
          rw [List.filterMap_cons_some found, List.find?_cons, Option.elim_some]
          cases known.contains slot.identity <;> rfl

/-- Code in order is rejected for the first of its locals that is not known,
and for nothing else. -/
theorem validate_of_closed {body : Body} (closed : body.Closed)
    (slots : List (Identity × UInt16)) :
    validate slots body =
      (body.unknown? (slots.map Prod.fst ++ body.locals.map Local.identity)).elim (.ok ())
        fun slot => .error (.unknownLocal slot.text) := by
  rw [validate, checkMarks_of_nodup closed.marks fun _ _ => List.not_mem_nil]
  exact checkInstructions_eq closed.targets closed.writable

theorem checkInstruction_eq_ok (checked : checkInstruction marked known instruction = .ok ()) :
    (∀ target ∈ instruction.targets, target.identity ∈ marked) ∧ instruction.Writable ∧
      ∀ slot ∈ instruction.slot?, slot.identity ∈ known := by
  unfold checkInstruction at checked
  split at checked
  · cases checked
  · rename_i allMarked
    refine ⟨fun target isTarget => by simpa using List.find?_eq_none.mp allMarked target isTarget,
      ?_⟩
    cases instruction with
    | raw opcode operand => exact ⟨checked, fun _ absent => by cases absent⟩
    | localSlot access slot =>
        refine ⟨trivial, ?_⟩
        rintro _ ⟨⟩
        dsimp only at checked
        split at checked
        · rename_i isKnown
          exact List.contains_iff_mem.mp isKnown
        · cases checked
    | _ => exact ⟨trivial, fun _ absent => by cases absent⟩

theorem forall_of_checkInstructions
    (checked : checkInstructions marked known instructions = .ok ()) :
    ∀ instruction ∈ instructions, checkInstruction marked known instruction = .ok () := by
  induction instructions with
  | nil => exact List.forall_mem_nil _
  | cons instruction rest inductionHypothesis =>
      obtain ⟨_, here, others⟩ := bind_eq_ok.mp checked
      exact List.forall_mem_cons.mpr ⟨here, inductionHypothesis others⟩

theorem validate_eq_ok_iff {slots : List (Identity × UInt16)} {body : Body} :
    validate slots body = .ok () ↔ body.Closed ∧ ∀ slot ∈ body.usedLocals,
      slot.identity ∈ slots.map Prod.fst ++ body.locals.map Local.identity := by
  constructor
  · intro valid
    obtain ⟨_, marksValid, instructionsValid⟩ := bind_eq_ok.mp valid
    have checked := fun instruction member =>
      checkInstruction_eq_ok (forall_of_checkInstructions instructionsValid instruction member)
    refine ⟨⟨(nodup_of_checkMarks marksValid).1, ?_, ?_⟩, ?_⟩
    · exact fun instruction member => (checked instruction member).1
    · exact fun instruction member => (checked instruction member).2.1
    · intro slot used
      obtain ⟨instruction, member, accessed⟩ := List.mem_filterMap.mp used
      exact (checked instruction member).2.2 slot accessed
  · rintro ⟨closed, known⟩
    rw [validate_of_closed closed slots]
    cases found : body.unknown? (slots.map Prod.fst ++ body.locals.map Local.identity) with
    | none => rfl
    | some slot =>
        obtain ⟨used, unknown⟩ := Body.unknown?_eq_some found
        exact absurd (known slot used) unknown

end Check

variable {Sink : Type} {trusted : Sink → Prop} {known : List Identity}

/-- The sink is trusted and the known locals have slots. -/
structure Ready (trusted : Sink → Prop) (known : List Identity) (encoder : Encoder Sink) :
    Prop where
  sink : trusted encoder.sink
  slots : known ⊆ encoder.slots.map Prod.fst

theorem succeeds_onSink {Result : Type} {action : Action Sink Result}
    (succeeds : Succeeds trusted action trusted) :
    Succeeds (Ready trusted known) (onSink action) (Ready trusted known) := by
  intro encoder ready
  obtain ⟨value, next, ran, held⟩ := succeeds encoder.sink ready.sink
  refine ⟨value, { encoder with sink := next }, ?_, held, ready.slots⟩
  rw [onSink, run_onPart, ran]

theorem succeeds_note (text : String) :
    Succeeds (Ready trusted known) (note text) (Ready trusted known) := by
  apply Succeeds.modify
  intro encoder ready
  cases encoder.options.logLevel <;> exact ⟨ready.sink, ready.slots⟩

theorem succeeds_slotIndex {slot : Local} (isKnown : slot.identity ∈ known) :
    Succeeds (Ready trusted known) (slotIndex slot) (Ready trusted known) := by
  intro encoder ready
  obtain ⟨index, found⟩ :=
    Option.isSome_iff_exists.mp (isSome_lookup_iff.mpr (ready.slots isKnown))
  refine ⟨index, encoder, ?_, ready⟩
  rw [slotIndex, run_bind, run_get]
  simp only [found, run_pure]

/-- A local that is bound again goes to its last slot. -/
theorem run_bindLocals (bound : List (Local × UInt16)) (encoder : Encoder Sink) :
    run (bound.forM fun entry => bindLocal entry.1 entry.2) encoder =
      (.ok (), { encoder with
        slots := (bound.map fun entry => (entry.1.identity, entry.2)).reverse ++
          encoder.slots }) := by
  induction bound generalizing encoder with
  | nil => rfl
  | cons entry rest inductionHypothesis =>
      have others := inductionHypothesis
        { encoder with slots := (entry.1.identity, entry.2) :: encoder.slots }
      rw [List.map_cons, List.reverse_cons, List.append_assoc]
      exact others

variable [CodeSink Sink] (obliges : CodeSink.Obliges trusted)

include obliges

theorem succeeds_labelHandle (label : Label) :
    Succeeds (Ready trusted known) (labelHandle label) (Ready trusted known) := by
  apply Succeeds.get.bind
  intro encoder
  cases encoder.labels.lookup label.identity with
  | some handle => exact .pure handle
  | none =>
      apply (succeeds_onSink obliges.defineLabel).bind
      intro handle
      exact (Succeeds.modify fun _ ready => ⟨ready.sink, ready.slots⟩).bind fun _ => .pure handle

theorem succeeds_labelHandles (labels : List Label) :
    Succeeds (Ready trusted known) (labelHandles labels) (Ready trusted known) := by
  induction labels with
  | nil => exact .pure []
  | cons label rest inductionHypothesis =>
      exact (succeeds_labelHandle obliges label).bind fun _ =>
        inductionHypothesis.bind fun _ => .pure _

theorem succeeds_emit (opcode : Opcode) (operand : Operand Nat) :
    Succeeds (Ready trusted known) (emit opcode operand) (Ready trusted known) :=
  Succeeds.get.bind fun _ => (succeeds_note _).bind fun _ =>
    succeeds_onSink (obliges.emit opcode operand)

theorem succeeds_operandWithHandles (operand : Operand Label) :
    Succeeds (Ready trusted known) (operandWithHandles operand) (Ready trusted known) := by
  cases operand with
  | label target => exact (succeeds_labelHandle obliges target).bind fun _ => .pure _
  | switch targets => exact (succeeds_labelHandles obliges targets).bind fun _ => .pure _
  | _ => exact .pure _

theorem succeeds_encodeInstruction {instruction : Instruction Label}
    (writable : instruction.Writable)
    (declared : ∀ slot ∈ instruction.slot?, slot.identity ∈ known) :
    Succeeds (Ready trusted known) (encodeInstruction instruction) (Ready trusted known) := by
  cases instruction with
  | localSlot access slot =>
      exact (succeeds_slotIndex (declared slot rfl)).bind fun _ => succeeds_emit obliges _ _
  | branch condition target =>
      exact (succeeds_labelHandle obliges target).bind fun _ => succeeds_emit obliges _ _
  | raw opcode operand =>
      have checked : Succeeds (Ready trusted known) (Action.ofExcept (checkRaw opcode operand))
          (Ready trusted known) := by
        intro encoder ready
        exact ⟨(), encoder, by rw [run_ofExcept, writable], ready⟩
      exact checked.bind fun _ => (succeeds_operandWithHandles obliges operand).bind fun _ =>
        succeeds_emit obliges _ _
  | _ => exact succeeds_emit obliges _ _

theorem succeeds_encodeItems {items : List CodeItem}
    (encodable : ∀ instruction ∈ items.filterMap CodeItem.instruction?,
      instruction.Writable ∧ ∀ slot ∈ instruction.slot?, slot.identity ∈ known) :
    Succeeds (Ready trusted known) (encodeItems items) (Ready trusted known) := by
  induction items with
  | nil => exact .pure ()
  | cons item rest inductionHypothesis =>
      cases item with
      | mark label =>
          apply Succeeds.bind _ fun _ => inductionHypothesis encodable
          exact (succeeds_labelHandle obliges label).bind fun handle =>
            (succeeds_note _).bind fun _ => succeeds_onSink (obliges.markLabel handle)
      | code instruction =>
          obtain ⟨⟨writable, declared⟩, others⟩ := List.forall_mem_cons.mp encodable
          exact (succeeds_encodeInstruction obliges writable declared).bind fun _ =>
            inductionHypothesis others

theorem succeeds_declareLocals (locals : List Local) :
    Succeeds (Ready trusted known) (declareLocals locals)
      (Ready trusted (known ++ locals.map Local.identity)) := by
  induction locals generalizing known with
  | nil =>
      rw [List.map_nil, List.append_nil]
      exact .pure ()
  | cons slot rest inductionHypothesis =>
      have others := @inductionHypothesis (known ++ [slot.identity])
      rw [List.append_assoc, List.singleton_append, ← List.map_cons] at others
      intro encoder ready
      cases found : encoder.slots.lookup slot.identity with
      | some index =>
          rw [run_declareLocals_of_known found]
          apply others encoder
          refine ⟨ready.sink, List.append_subset.mpr ⟨ready.slots, ?_⟩⟩
          have isKnown := isSome_lookup_iff.mp (Option.isSome_of_eq_some found)
          exact List.cons_subset.mpr ⟨isKnown, List.nil_subset _⟩
      | none =>
          rw [run_declareLocals_of_fresh found]
          apply (succeeds_onSink (obliges.declareLocal slot.declaration)).bind _ encoder ready
          intro index
          apply Succeeds.bind _ fun _ => others
          apply Succeeds.modify
          intro declared held
          refine ⟨held.sink, List.append_subset.mpr ⟨?_, ?_⟩⟩
          · exact List.subset_cons_of_subset _ held.slots
          · exact List.cons_subset.mpr ⟨List.mem_cons_self, List.nil_subset _⟩

theorem run_encodeBody_of_obliges {encoder : Encoder Sink} (held : trusted encoder.sink)
    (body : Body) : (run (encodeBody body) encoder).1 = validate encoder.slots body := by
  rw [run_encodeBody, run_bind, run_ofExcept]
  cases valid : validate encoder.slots body with
  | error error => rfl
  | ok =>
      obtain ⟨_, _, checked⟩ := bind_eq_ok.mp valid
      have encodable : ∀ instruction ∈ body.instructions, instruction.Writable ∧
          ∀ slot ∈ instruction.slot?,
            slot.identity ∈ encoder.slots.map Prod.fst ++ body.locals.map Local.identity :=
        fun instruction member =>
          (checkInstruction_eq_ok (forall_of_checkInstructions checked instruction member)).2
      have written := (succeeds_declareLocals obliges body.locals).bind fun _ =>
        (succeeds_labelHandles obliges (body.items.filterMap CodeItem.label?)).bind fun _ =>
          succeeds_encodeItems obliges encodable
      obtain ⟨_, _, ran, _⟩ := written encoder ⟨held, List.Subset.refl _⟩
      exact congrArg Prod.fst ran

end Encoder
end CilTemplate
