import CilTemplate.Proofs.Emission.ReadBack

/-
A whole body read from laid out code.  The addresses of its branches lead to
the instructions in front of which the labels were marked.
-/

namespace CilTemplate

open CilTemplate.Action

theorem SlotForms.targets_encode {Target : Type} (forms : SlotForms) (index : UInt16) :
    (forms.encode index : Opcode × Operand Target).2.targets = [] := by
  unfold SlotForms.encode
  split <;> split
  · rfl
  · split <;> rfl
  · rfl
  · rfl

theorem BranchCondition.narrowed?_longOpcode (condition : BranchCondition) :
    condition.longOpcode.narrowed? = some condition.shortOpcode := by
  cases condition <;> decide

/-- Of the opcodes that stand for themselves only the long `leave` has a narrow
form. -/
theorem Opcode.narrowed?_of_untyped {opcode short : Opcode} (untyped : opcode ∉ Opcode.typed)
    (narrowing : opcode.narrowed? = some short) : opcode = leave ∧ short = leaveS := by
  unfold narrowed? at narrowing
  split at narrowing
  · rename_i isLeave
    exact ⟨isLeave, (Option.some.inj narrowing).symm⟩
  · obtain ⟨condition, _, chosen⟩ := Option.bind_eq_some_iff.mp narrowing
    split at chosen
    · rename_i same
      apply absurd _ untyped
      rw [← same]
      cases condition <;> decide
    · cases chosen

namespace Instruction

variable {Target Renamed : Type}

/-- The operand that says what an instruction needs from outside. -/
def named : Instruction Target → Operand Target
  | field _ _ found => .field found
  | call method => .method method
  | raw _ operand => operand
  | _ => .none

end Instruction

section Lift

variable {reader : BodyReader} {slots : List (Identity × UInt16)} {handled : Instruction Nat}
  {opcode actual : Opcode} {operand : Operand Nat}

theorem targets_of_encoding (encoding : handled.encoding? slots = some (opcode, operand)) :
    operand.targets = handled.targets := by
  cases handled with
  | argument access index =>
      have closed := @SlotForms.targets_encode Nat access.argumentForms index
      rw [Option.some.inj encoding] at closed
      exact closed
  | localSlot access slot =>
      obtain ⟨index, _, form⟩ := Option.map_eq_some_iff.mp encoding
      have closed := @SlotForms.targets_encode Nat access.localForms index
      rw [form] at closed
      exact closed
  | _ =>
      rw [← (Prod.mk.inj (Option.some.inj encoding)).2]
      rfl

theorem eq_of_targets_eq_nil (closed : operand.targets = [])
    (chosen : actual = opcode ∨
      opcode.narrowed? = some actual ∧ ∃ target, operand = .label target) : actual = opcode := by
  rcases chosen with same | ⟨_, target, isLabel⟩
  · exact same
  · rw [isLabel] at closed
    cases closed

theorem lift_of_encoding {ofLocal : Local → Local} (rename : Nat → Nat)
    (encoding : handled.encoding? slots = some (opcode, operand))
    (untyped : ∀ known rest, handled = .raw known rest → known ∉ Opcode.typed)
    (locals : ∀ slot index, slots.lookup slot.identity = some index →
      reader.locals[index.toNat]? = some (ofLocal slot))
    (chosen : actual = opcode ∨
      opcode.narrowed? = some actual ∧ ∃ target, operand = .label target) :
    ∃ read, reader.lift actual (operand.mapTargets rename) = .ok read ∧
      Instruction.Narrows ((handled.mapLocal ofLocal).mapTargets rename) read := by
  cases handled with
  | argument access index =>
      have form := Option.some.inj encoding
      have closed := @SlotForms.targets_encode Nat access.argumentForms index
      have lifted := @BodyReader.lift_argument reader access index
      rw [form] at closed lifted
      rw [eq_of_targets_eq_nil closed chosen, Operand.mapTargets_of_targets_eq_nil closed]
      exact ⟨_, lifted, .same _⟩
  | localSlot access slot =>
      obtain ⟨index, known, form⟩ := Option.map_eq_some_iff.mp encoding
      have closed := @SlotForms.targets_encode Nat access.localForms index
      have lifted := BodyReader.lift_local access index (locals slot index known)
      rw [form] at closed lifted
      rw [eq_of_targets_eq_nil closed chosen, Operand.mapTargets_of_targets_eq_nil closed]
      exact ⟨_, lifted, .same _⟩
  | field place access found =>
      obtain ⟨rfl, rfl⟩ := Prod.mk.inj (Option.some.inj encoding)
      rw [eq_of_targets_eq_nil rfl chosen]
      exact ⟨_, BodyReader.lift_field place access found, .same _⟩
  | branch condition target =>
      obtain ⟨rfl, rfl⟩ := Prod.mk.inj (Option.some.inj encoding)
      have isBranch : BranchCondition.ofOpcode? actual = some condition := by
        rcases chosen with same | ⟨narrowing, _⟩
        · rw [same]
          exact condition.ofOpcode?_longOpcode
        · rw [condition.narrowed?_longOpcode] at narrowing
          rw [← Option.some.inj narrowing]
          exact condition.ofOpcode?_shortOpcode
      exact ⟨_, BodyReader.lift_branch (rename target) isBranch, .same _⟩
  | call method =>
      obtain ⟨rfl, rfl⟩ := Prod.mk.inj (Option.some.inj encoding)
      rw [eq_of_targets_eq_nil rfl chosen]
      exact ⟨_, BodyReader.lift_call method, .same _⟩
  | ret =>
      obtain ⟨rfl, rfl⟩ := Prod.mk.inj (Option.some.inj encoding)
      rw [eq_of_targets_eq_nil rfl chosen]
      exact ⟨_, BodyReader.lift_ret, .same _⟩
  | raw known rest =>
      obtain ⟨rfl, rfl⟩ := Prod.mk.inj (Option.some.inj encoding)
      have notTyped := untyped known rest rfl
      rcases chosen with same | ⟨narrowing, target, rfl⟩
      · rw [same]
        exact ⟨_, BodyReader.lift_of_untyped notTyped _, .same _⟩
      · obtain ⟨rfl, rfl⟩ := Opcode.narrowed?_of_untyped notTyped narrowing
        have shortNotTyped : Opcode.leaveS ∉ Opcode.typed := by decide +kernel
        exact ⟨_, BodyReader.lift_of_untyped shortNotTyped _, .leave (rename target)⟩

end Lift
theorem eq_raw_of_mapTargets {Target Renamed : Type} {instruction : Instruction Target}
    {rename : Target → Renamed} {opcode : Opcode} {rest : Operand Renamed}
    (same : instruction.mapTargets rename = .raw opcode rest) :
    ∃ operand, instruction = .raw opcode operand := by
  cases instruction with
  | raw known operand =>
      rcases Instruction.raw.inj same with ⟨rfl, _⟩
      exact ⟨operand, rfl⟩
  | _ => cases same

section Answers

variable {Target Renamed : Type} {resolver : Resolver} {context : GenericContext}
  {strings : List (String × Token)}

theorem answersFor_mapTargets (operand : Operand Target) (rename : Target → Renamed) :
    resolver.AnswersFor context strings (operand.mapTargets rename) ↔
      resolver.AnswersFor context strings operand := by
  cases operand <;> exact Iff.rfl

theorem named_mapTargets (instruction : Instruction Target) (rename : Target → Renamed) :
    (instruction.mapTargets rename).named = instruction.named.mapTargets rename := by
  cases instruction <;> rfl

theorem answersFor_encode (forms : SlotForms) (index : UInt16) :
    resolver.AnswersFor context strings (forms.encode index : Opcode × Operand Target).2 := by
  unfold SlotForms.encode
  split <;> split
  · trivial
  · split <;> trivial
  · trivial
  · trivial

theorem answersFor_of_encoding {slots : List (Identity × UInt16)} {handled : Instruction Nat}
    {opcode : Opcode} {operand : Operand Nat}
    (encoding : handled.encoding? slots = some (opcode, operand))
    (answers : resolver.AnswersFor context strings handled.named) :
    resolver.AnswersFor context strings operand := by
  cases handled with
  | argument access index =>
      have known := @answersFor_encode Nat resolver context strings access.argumentForms index
      rw [Option.some.inj encoding] at known
      exact known
  | localSlot access slot =>
      obtain ⟨index, _, form⟩ := Option.map_eq_some_iff.mp encoding
      have known := @answersFor_encode Nat resolver context strings access.localForms index
      rw [form] at known
      exact known
  | _ =>
      rw [← (Prod.mk.inj (Option.some.inj encoding)).2]
      exact answers

end Answers

open Piece (startOf)

/-- An instruction is read as it was written, its labels as the addresses in
front of which they are marked. -/
inductive ReadAs (encoder : Encoder Emitter) (layout : Layout) (ofLocal : Local → Local)
    (written : Instruction Label) (read : Instruction Nat) : Prop
  | intro {handled : Instruction Nat}
      (targets : written.mapTargets encoder.handle? = handled.mapTargets some)
      (narrows : Instruction.Narrows ((handled.mapLocal ofLocal).mapTargets layout.addressOf) read)
      (marked : ∀ target ∈ handled.targets, ∃ place,
        layout.marks[target]? = some (some place) ∧ place ≤ layout.pieces.length)
      (known : ∀ access slot, handled = .localSlot access slot →
        ∃ index, encoder.slots.lookup slot.identity = some index)

section Loop

variable {reader : BodyReader} {encoder : Encoder Emitter} {body : Body} {layout : Layout}
  {code : List UInt8} {parts : List (List UInt8)} {ofLocal : Local → Local}

theorem readAs_of_written {index : Nat} {written : Instruction Label}
    (holds : Encoder.Holds encoder body)
    (narrows : Layout.NarrowsTo encoder.sink.layout layout)
    (split : Layout.Parts layout code parts)
    (untyped : ∀ opcode operand, written = .raw opcode operand → opcode ∉ Opcode.typed)
    (answers : reader.resolver.AnswersFor reader.context encoder.sink.strings.entries.toList
      written.named)
    (locals : ∀ slot index, encoder.slots.lookup slot.identity = some index →
      reader.locals[index.toNat]? = some (ofLocal slot))
    (found : body.instructions[index]? = some written) :
    ∃ read, run reader.readInstruction (Cursor.within code (startOf layout.pieces index)) =
        (.ok read, Cursor.within code (startOf layout.pieces (index + 1))) ∧
      ReadAs encoder layout ofLocal written read := by
  obtain ⟨bound, _⟩ := List.getElem?_eq_some_iff.mp found
  rw [← holds.written.length] at bound
  have here := List.getElem?_eq_getElem bound
  have narrowBound : index < layout.pieces.length := by
    rw [narrows.length]
    exact bound
  have there := List.getElem?_eq_getElem narrowBound
  obtain @⟨handled, opcode, info, operand, _, targets, encoding, known, writes⟩ :=
    holds.written.each found here
  have sameNamed : handled.named.mapTargets some = written.named.mapTargets encoder.handle? := by
    rw [← named_mapTargets, ← targets, named_mapTargets]
  have handledAnswers := answers
  rw [← answersFor_mapTargets written.named encoder.handle?, ← sameNamed,
    answersFor_mapTargets] at handledAnswers
  obtain ⟨actual, chosen, marked, reading⟩ := run_readInstruction_of_piece known writes
    (narrows.each here there) (answersFor_of_encoding encoding handledAnswers) split there
  have handledUntyped : ∀ opcode rest, handled = .raw opcode rest → opcode ∉ Opcode.typed := by
    rintro opcode rest rfl
    obtain ⟨operand, isRaw⟩ := eq_raw_of_mapTargets targets
    exact untyped opcode operand isRaw
  obtain ⟨read, lifted, narrowed⟩ :=
    lift_of_encoding layout.addressOf encoding handledUntyped locals chosen
  rw [lifted] at reading
  rw [targets_of_encoding encoding] at marked
  refine ⟨read, reading, targets, narrowed, marked, ?_⟩
  rintro access slot rfl
  obtain ⟨index, found, _⟩ := Option.map_eq_some_iff.mp encoding
  exact ⟨index, found⟩

theorem run_readInstructions {relates : Nat → Instruction Nat → Prop} {count : Nat}
    {start : Nat → Nat} (final : start count = code.length)
    (before : ∀ index, index < count → start index < code.length)
    (each : ∀ index, index < count → ∃ read,
      run reader.readInstruction (Cursor.within code (start index)) =
        (.ok read, Cursor.within code (start (index + 1))) ∧ relates index read) :
    ∀ steps index, index ≤ count → count - index ≤ steps → ∃ entries,
      run (reader.readInstructions steps) (Cursor.within code (start index)) =
        (.ok entries, Cursor.within code code.length) ∧
      entries.length = count - index ∧
      ∀ (offset : Nat) (entry : Nat × Instruction Nat), entries[offset]? = some entry →
        entry.1 = start (index + offset) ∧ relates (index + offset) entry.2 := by
  intro steps
  induction steps with
  | zero =>
      intro index bound enough
      have done : index = count := by omega
      refine ⟨[], ?_, ?_, fun _ _ found => by cases found⟩
      · rw [done, final]
        rfl
      · rw [done, Nat.sub_self]
        rfl
  | succ steps inductionHypothesis =>
      intro index bound enough
      by_cases more : index < count
      · rcases each index more with ⟨read, reading, related⟩
        obtain ⟨entries, rest, length, others⟩ :=
          inductionHypothesis (index + 1) (by omega) (by omega)
        have hasMore : (Cursor.within code (start index)).hasMore = true :=
          decide_eq_true (before index more)
        refine ⟨(start index, read) :: entries, ?_, ?_, ?_⟩
        · simp only [BodyReader.readInstructions, run_bind, run_get, hasMore, if_true, reading,
            rest, run_pure]
          rfl
        · rw [List.length_cons, length]
          omega
        · intro offset entry found
          cases offset with
          | zero =>
              rw [← Option.some.inj found]
              exact ⟨rfl, related⟩
          | succ offset =>
              have later := others offset entry found
              rw [Nat.add_right_comm, Nat.add_assoc] at later
              exact later
      · have done : index = count := by omega
        have noMore : (Cursor.within code (start index)).hasMore = false := by
          rw [done, final]
          exact decide_eq_false (Nat.lt_irrefl _)
        refine ⟨[], ?_, ?_, fun _ _ found => by cases found⟩
        · simp only [BodyReader.readInstructions, run_bind, run_get, noMore]
          rw [done, final]
          rfl
        · rw [done, Nat.sub_self]
          rfl

end Loop
end CilTemplate
