import CilTemplate.Proofs.Emission.Validation
import CilTemplate.Proofs.Expansion.Effects
import CilTemplate.Proofs.Expansion.Cells

/-
What expansion puts into the code.  It goes nowhere else and can be written,
and a local that it accesses is the copy of a capture or was captured itself.
Since no label is put in or taken out, code in order stays in order.
-/

namespace CilTemplate

namespace Instruction

theorem targets_shifted (instruction : Instruction Label) (offset : Int) :
    (instruction.shifted offset).targets = instruction.targets := by
  cases instruction <;> rfl

theorem slot?_shifted (instruction : Instruction Label) (offset : Int) :
    (instruction.shifted offset).slot? = instruction.slot? := by
  cases instruction <;> rfl

theorem Writable.shifted {instruction : Instruction Label} (writable : instruction.Writable)
    (offset : Int) : (instruction.shifted offset).Writable := by
  cases instruction <;> exact writable

/-- An instruction that expansion may put in, where copies of captures are kept
in the given locals. -/
inductive Inserted (captures : CaptureContext) (copies : List Local) : Instruction Label → Prop
  | literal {value : CapturedValue} {instruction : Instruction Label}
      (literal : value.literal? = some instruction) : Inserted captures copies instruction
  | call (method : Method) : Inserted captures copies (.call method)
  | receiver : Inserted captures copies (.argument .load 0)
  | field (place : FieldPlace) (access : Access) (field : Field) :
      Inserted captures copies (.field place access field)
  | copy (access : Access) {slot : Local} (member : slot ∈ copies) :
      Inserted captures copies (.localSlot access slot)
  | captured (access : Access) {site : CaptureSite} {slot : Local}
      (given : captures.Gives site (.member (.localSlot slot))) :
      Inserted captures copies (.localSlot access slot)
  | drop : Inserted captures copies (.raw Opcode.pop .none)

/-- A raw instruction that goes nowhere else, accesses no argument and can be
written. -/
def Plainly (instruction : Instruction Label) : Prop :=
  ∃ opcode operand, instruction = .raw opcode operand ∧ operand.targets = [] ∧
    opcode.argumentAccess? operand = none ∧ Encoder.checkRaw opcode operand = .ok ()

theorem plainly_of_literal {value : CapturedValue} {instruction : Instruction Label}
    (literal : value.literal? = some instruction) : instruction.Plainly := by
  obtain ⟨_, operand, _, rfl, brings, isLiteral⟩ := CapturedValue.exists_operand literal
  exact ⟨_, operand, rfl, isLiteral.targets, brings.argumentAccess? operand,
    Encoder.checkRaw_of_isLiteral brings isLiteral⟩

namespace Inserted

variable {captures : CaptureContext} {copies : List Local} {instruction : Instruction Label}
  (inserted : Inserted captures copies instruction)

include inserted

theorem targets : instruction.targets = [] := by
  cases inserted with
  | literal literal =>
      obtain ⟨_, _, rfl, targets, _⟩ := plainly_of_literal literal
      exact targets
  | _ => rfl

theorem writable : instruction.Writable := by
  cases inserted with
  | literal literal =>
      obtain ⟨_, _, rfl, _, _, checked⟩ := plainly_of_literal literal
      exact checked
  | drop => exact rfl
  | _ => trivial

theorem slot : ∀ slot ∈ instruction.slot?,
    slot ∈ copies ∨ ∃ site, captures.Gives site (.member (.localSlot slot)) := by
  cases inserted with
  | literal literal =>
      obtain ⟨_, _, rfl, _, _⟩ := plainly_of_literal literal
      exact fun _ absent => by cases absent
  | copy access member =>
      rintro _ ⟨⟩
      exact Or.inl member
  | captured access given =>
      rintro _ ⟨⟩
      exact Or.inr ⟨_, given⟩
  | _ => exact fun _ absent => by cases absent

end Inserted
end Instruction

namespace Part

def OwnAll (holds : CodeItem → Prop) : Part → Prop
  | shared _ => True
  | own items => ∀ item ∈ items, holds item

theorem labels_flatten {parts : List Part}
    (unlabelled : ∀ part ∈ parts, part.OwnAll fun item => item.label? = none) :
    (flatten parts).filterMap CodeItem.label? =
      (parts.filterMap Part.shared?).filterMap CodeItem.label? := by
  induction parts with
  | nil => rfl
  | cons part rest inductionHypothesis =>
      obtain ⟨here, later⟩ := List.forall_mem_cons.mp unlabelled
      rw [flatten_cons, List.filterMap_append, inductionHypothesis later]
      cases part with
      | shared item =>
          have whole : ([item] ++ rest.filterMap shared?).filterMap CodeItem.label? = _ :=
            List.filterMap_append
          exact whole.symm
      | own code =>
          have none : code.filterMap CodeItem.label? = [] := List.filterMap_eq_nil_iff.mpr here
          change code.filterMap CodeItem.label? ++ _ = _
          rw [none]
          rfl

end Part

theorem StackUnit.unlabelled_of_ofItems {base position : Nat} {items : List CodeItem}
    {units : List StackUnit} (found : ofItems base position items = .ok units) :
    ∀ item ∈ items, item.label? = none := by
  cases items with
  | nil => exact List.forall_mem_nil _
  | cons item rest =>
      obtain ⟨instruction, rfl, _, first | pair⟩ := ofItems_cons_eq_ok.mp found
      · obtain ⟨_, _, _, _, _, behind⟩ := first
        exact List.forall_mem_cons.mpr ⟨rfl, unlabelled_of_ofItems behind⟩
      · obtain ⟨next, behind, _, rfl, pair, _, sliced⟩ := pair
        obtain ⟨_, _, _, rfl⟩ := slots_of_passesOn pair
        exact List.forall_mem_cons.mpr
          ⟨rfl, List.forall_mem_cons.mpr ⟨rfl, unlabelled_of_ofItems sliced⟩⟩
termination_by items.length

theorem CaptureRead.unlabelled (read : CaptureRead) : ∀ item ∈ read.items, item.label? = none := by
  unfold items following
  cases read.reference <;> simp [CodeItem.label?]

def CodeItem.Inserted (captures : CaptureContext) (copies : List Local) (item : CodeItem) : Prop :=
  ∃ instruction, item = .code instruction ∧ instruction.Inserted captures copies

section

variable {expander : Expander} {objects : List CapturedObject} {copies : List Local}

section

variable {site : ReplacedSite} {values : List (List CodeItem)} {rest : List CodeItem}
  (stands : site.Stands expander values rest)

include stands

theorem ReplacedSite.Stands.unlabelled_access : ∀ item ∈ site.access, item.label? = none := by
  rcases exists_access stands.accesses with ⟨_, same⟩ | ⟨_, same⟩ | ⟨_, same⟩ <;>
    simp [same, CodeItem.label?]

theorem ReplacedSite.Stands.unlabelled_target : ∀ item ∈ site.target, item.label? = none := by
  obtain ⟨units, found, _⟩ := stands.separate.values site.target List.mem_cons_self
  exact StackUnit.unlabelled_of_ofItems found

end

mutual

theorem Trace.unlabelled_input (trace : Trace) (valid : trace.Valid expander objects) :
    ∀ part ∈ trace.input, part.OwnAll fun item => item.label? = none := by
  cases trace with
  | done => exact List.forall_mem_nil _
  | shared item rest =>
      exact List.forall_mem_cons.mpr ⟨trivial, rest.unlabelled_input valid.2⟩
  | read read value load copy rest =>
      exact List.forall_mem_cons.mpr ⟨read.unlabelled, rest.unlabelled_input valid.2.2.2⟩
  | site site values rest =>
      obtain ⟨stands, inside, behind⟩ := valid
      refine List.forall_mem_cons.mpr ⟨stands.unlabelled_access, List.forall_mem_cons.mpr
        ⟨stands.unlabelled_target, List.forall_mem_append.mpr
          ⟨values.unlabelled_input inside, List.forall_mem_cons.mpr
            ⟨?_, rest.unlabelled_input behind⟩⟩⟩⟩
      exact List.forall_mem_singleton.mpr rfl

theorem TraceValues.unlabelled_input (values : TraceValues)
    (valid : values.Valid expander objects) :
    ∀ part ∈ values.input.flatten, part.OwnAll fun item => item.label? = none := by
  cases values with
  | none => exact List.forall_mem_nil _
  | value code rest =>
      exact List.forall_mem_append.mpr
        ⟨code.unlabelled_input valid.1, rest.unlabelled_input valid.2⟩

end

theorem Part.inserted_ownCode {code : List (Instruction Label)}
    (inserted : ∀ instruction ∈ code, instruction.Inserted expander.captures copies) :
    (Part.ownCode code).OwnAll (CodeItem.Inserted expander.captures copies) :=
  List.forall_mem_map.mpr fun instruction member => ⟨instruction, rfl, inserted instruction member⟩

theorem inserted_receiver {needed : Bool} {member : String} {before : List (Instruction Label)}
    (found : SiteCode.receiver expander.options needed member = .ok before) :
    ∀ instruction ∈ before, instruction.Inserted expander.captures copies := by
  unfold SiteCode.receiver at found
  split at found
  · cases found
    exact List.forall_mem_nil _
  · split at found
    · cases found
    · cases found
      exact List.forall_mem_singleton.mpr .receiver

theorem ReplacedSite.Acts.inserted {site : ReplacedSite} {kind : PlaceholderKind} {count : Nat}
    (acts : site.Acts expander count kind) :
    (∀ instruction ∈ site.before, instruction.Inserted expander.captures copies) ∧
      ∀ instruction ∈ site.after, instruction.Inserted expander.captures copies := by
  cases acts with
  | member accesses target byValue answered code =>
      obtain ⟨_, instruction, receiver, same, accessed⟩ := ofMember_eq_ok code
      refine ⟨inserted_receiver receiver, ?_⟩
      rw [same, List.forall_mem_singleton]
      cases accessed with
      | field => exact .field _ _ _
      | localSlot => exact .captured _ answered.given
      | getter | setter => exact .call _
  | call target code =>
      obtain ⟨_, receiver, ⟨_, same⟩ | ⟨_, _, same⟩⟩ := ofCall_eq_ok code
      · rw [same, List.forall_mem_singleton]
        exact ⟨inserted_receiver receiver, .call _⟩
      · rw [same, List.forall_mem_cons, List.forall_mem_singleton]
        exact ⟨inserted_receiver receiver, .call _, .drop⟩

theorem Loads.inserted {value : CapturedValue} {load : ExpandedItem}
    (loads : Loads expander.captures objects value load) (accessors : List Accessor) :
    ∀ item ∈ Expander.placeCalls accessors [load], item.Inserted expander.captures copies := by
  cases loads with
  | literal literal => exact List.forall_mem_singleton.mpr ⟨_, rfl, .literal literal⟩
  | @object object known number found same given =>
      rw [Expander.placeCalls, Expander.placeCalls, List.append_nil]
      cases accessors[number]? with
      | none => exact List.forall_mem_nil _
      | some accessor => exact List.forall_mem_singleton.mpr ⟨_, rfl, .call accessor.method⟩

theorem inserted_copyCode {copy : Option Local} (kept : ∀ slot ∈ copy, slot ∈ copies) :
    ∀ instruction ∈ copyCode copy, instruction.Inserted expander.captures copies := by
  cases copy with
  | none => exact List.forall_mem_nil _
  | some slot =>
      have member := kept slot rfl
      rw [copyCode, List.forall_mem_cons, List.forall_mem_singleton]
      exact ⟨.copy .store member, .copy .address member⟩

variable (offset : Int) (accessors : List Accessor)

mutual

theorem Trace.inserted_output (trace : Trace) (valid : trace.Valid expander objects)
    (kept : ∀ capture ∈ trace.loads, ∀ slot ∈ capture.copy, slot ∈ copies) :
    ∀ part ∈ trace.output offset accessors,
      part.OwnAll (CodeItem.Inserted expander.captures copies) := by
  cases trace with
  | done => exact List.forall_mem_nil _
  | shared item rest =>
      exact List.forall_mem_cons.mpr ⟨trivial, rest.inserted_output valid.2 kept⟩
  | read read value load copy rest =>
      obtain ⟨_, loads, _, others⟩ := valid
      obtain ⟨keptHere, keptLater⟩ := List.forall_mem_cons.mp kept
      exact List.forall_mem_cons.mpr ⟨loads.inserted accessors, List.forall_mem_cons.mpr
        ⟨Part.inserted_ownCode (inserted_copyCode keptHere),
          rest.inserted_output others keptLater⟩⟩
  | site site values rest =>
      obtain ⟨stands, inside, behind⟩ := valid
      obtain ⟨keptInside, keptBehind⟩ := List.forall_mem_append.mp kept
      obtain ⟨_, _, acts⟩ := stands.acts
      obtain ⟨before, after⟩ := acts.inserted
      exact List.forall_mem_cons.mpr ⟨Part.inserted_ownCode before, List.forall_mem_append.mpr
        ⟨values.inserted_output inside keptInside, List.forall_mem_cons.mpr
          ⟨Part.inserted_ownCode after, rest.inserted_output behind keptBehind⟩⟩⟩

theorem TraceValues.inserted_output (values : TraceValues)
    (valid : values.Valid expander objects)
    (kept : ∀ capture ∈ values.loads, ∀ slot ∈ capture.copy, slot ∈ copies) :
    ∀ part ∈ (values.output offset accessors).flatten,
      part.OwnAll (CodeItem.Inserted expander.captures copies) := by
  cases values with
  | none => exact List.forall_mem_nil _
  | value code rest =>
      obtain ⟨keptHere, keptLater⟩ := List.forall_mem_append.mp kept
      exact List.forall_mem_append.mpr
        ⟨code.inserted_output valid.1 keptHere, rest.inserted_output valid.2 keptLater⟩

end

end

theorem CodeItem.label?_shifted (item : CodeItem) (offset : Int) :
    (item.shifted offset).label? = item.label? := by
  cases item <;> rfl

namespace Expander

theorem labels_trimmed (expander : Expander) (items : List CodeItem) :
    (expander.trimmed items).filterMap CodeItem.label? = items.filterMap CodeItem.label? := by
  rcases expander.trimmed_eq_or items with same | added
  · rw [same]
  · conv_rhs => rw [added, List.filterMap_append]
    exact (List.append_nil _).symm

namespace ExpandedAs

variable {expander : Expander} {body expanded : Body} {accessors : List Accessor} {pass : Pass}
  {output : List ExpandedItem} {trace : Trace}
  (done : ExpandedAs expander body expanded accessors pass output trace)

include done

theorem inserted : ∀ part ∈ trace.output expander.options.argumentOffset accessors,
    part.OwnAll (CodeItem.Inserted expander.captures pass.temporaries.toList) :=
  trace.inserted_output _ _ done.valid fun capture member => (done.traced.known capture member).copy

theorem labels : expanded.labels = body.labels := by
  have unlabelled : ∀ part ∈ trace.output expander.options.argumentOffset accessors,
      part.OwnAll fun item => item.label? = none := by
    intro part member
    have inserted := done.inserted part member
    cases part with
    | shared item => trivial
    | own items =>
        intro item isItem
        obtain ⟨_, rfl, _⟩ := inserted item isItem
        rfl
  have sameLabel : CodeItem.label? ∘ CodeItem.shifted expander.options.argumentOffset =
      CodeItem.label? :=
    funext fun item => item.label?_shifted _
  rw [Body.labels, done.items_eq, Part.labels_flatten unlabelled, trace.shared_output,
    List.filterMap_map, sameLabel, ← Part.labels_flatten (trace.unlabelled_input done.valid)]
  have input : Part.flatten trace.input = expander.trimmed body.items := done.traced.input
  rw [input, expander.labels_trimmed]
  rfl

theorem instruction_cases {instruction : Instruction Label}
    (member : instruction ∈ expanded.instructions) :
    (∃ source ∈ body.instructions,
      instruction = source.shifted expander.options.argumentOffset) ∨
      instruction.Inserted expander.captures pass.temporaries.toList := by
  obtain ⟨item, isItem, isInstruction⟩ := List.mem_filterMap.mp member
  rw [done.items_eq] at isItem
  obtain ⟨part, isPart, inPart⟩ := List.mem_flatMap.mp isItem
  cases part with
  | shared found =>
      obtain rfl := List.mem_singleton.mp inPart
      have isShared : item ∈ (trace.output expander.options.argumentOffset accessors).filterMap
          Part.shared? :=
        List.mem_filterMap.mpr ⟨_, isPart, rfl⟩
      rw [trace.shared_output] at isShared
      obtain ⟨source, inInput, rfl⟩ := List.mem_map.mp isShared
      obtain ⟨origin, isOrigin, isSource⟩ := List.mem_filterMap.mp inInput
      have inTemplate : source ∈ body.items := by
        apply (expander.trimmed_isPrefix body.items).subset
        rw [← done.traced.input]
        refine List.mem_flatMap.mpr ⟨origin, isOrigin, ?_⟩
        cases origin with
        | shared other => exact List.mem_singleton.mpr (Option.some.inj isSource).symm
        | own items => cases isSource
      cases source with
      | mark label => cases isInstruction
      | code source =>
          cases isInstruction
          exact Or.inl ⟨source, List.mem_filterMap.mpr ⟨_, inTemplate, rfl⟩, rfl⟩
  | own items =>
      obtain ⟨_, rfl, inserted⟩ := done.inserted _ isPart item inPart
      cases isInstruction
      exact Or.inr inserted

theorem closed (closed : body.Closed) : expanded.Closed := by
  constructor
  · rw [done.labels]
    exact closed.marks
  · intro instruction member
    rw [done.labels]
    rcases done.instruction_cases member with ⟨source, inBody, rfl⟩ | inserted
    · rw [Instruction.targets_shifted]
      exact closed.targets source inBody
    · rw [inserted.targets]
      exact List.forall_mem_nil _
  · intro instruction member
    rcases done.instruction_cases member with ⟨source, inBody, rfl⟩ | inserted
    · exact (closed.writable source inBody).shifted _
    · exact inserted.writable

theorem usedLocals_cases (own : body.usedLocals ⊆ body.locals) {slot : Local}
    (used : slot ∈ expanded.usedLocals) :
    slot ∈ expanded.locals ∨ ∃ site, expander.captures.Gives site (.member (.localSlot slot)) := by
  obtain ⟨instruction, member, isSlot⟩ := List.mem_filterMap.mp used
  rw [done.locals]
  rcases done.instruction_cases member with ⟨source, inBody, rfl⟩ | inserted
  · rw [Instruction.slot?_shifted] at isSlot
    exact Or.inl (List.mem_append_left _ (own (List.mem_filterMap.mpr ⟨source, inBody, isSlot⟩)))
  · exact (inserted.slot slot isSlot).imp_left (List.mem_append_right _)

end ExpandedAs
end Expander
end CilTemplate
