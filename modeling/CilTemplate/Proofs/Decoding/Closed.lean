import CilTemplate.Proofs.Decoding.Decoded
import CilTemplate.Proofs.Emission.Validation

/-
Decoded bodies are in order.  Addresses ascend, so no label is marked twice;
targets are boundaries, so every label that is named is marked; and an operand
that was read has the shape that its opcode asks for.
-/

namespace CilTemplate

namespace AddressedCode

theorem labels_markAt (targets : List Nat) (address : Nat) :
    (markAt targets address).filterMap CodeItem.label? =
      ([address].filter targets.contains).map (labelOf targets) := by
  rw [markAt, List.filter_cons, List.filter_nil]
  split <;> rfl

theorem labels_itemsOf (targets : List Nat) (instructions : List (Nat × Instruction Nat)) :
    (itemsOf targets instructions).filterMap CodeItem.label? =
      ((instructions.map Prod.fst).filter targets.contains).map (labelOf targets) := by
  induction instructions with
  | nil => rfl
  | cons entry rest inductionHypothesis =>
      have parts : (entry :: rest).map Prod.fst = [entry.1] ++ rest.map Prod.fst := rfl
      rw [parts, List.filter_append, List.map_append, ← labels_markAt, ← inductionHypothesis,
        itemsOf, List.flatMap_cons, List.filterMap_append, List.filterMap_append]
      exact congrArg (· ++ _) (List.append_nil _)

theorem labels_items (code : AddressedCode) :
    code.items.filterMap CodeItem.label? =
      ((code.instructions.map Prod.fst ++ [code.length]).filter code.targets.contains).map
        (labelOf code.targets) := by
  rw [List.filter_append, List.map_append, ← labels_markAt, ← labels_itemsOf,
    ← List.filterMap_append]
  rfl

theorem nodup_labels {code : AddressedCode}
    (ascending : (code.instructions.map Prod.fst ++ [code.length]).Pairwise (· < ·)) :
    ((code.items.filterMap CodeItem.label?).map Label.identity).Nodup := by
  rw [labels_items, List.map_map]
  apply List.Nodup.map_on
  · intro left leftMember right rightMember same
    have isTarget : ∀ {address : Nat}, code.targets.contains address = true →
        address ∈ code.targets := List.contains_iff_mem.mp
    exact identity_labelOf_inj (isTarget (List.mem_filter.mp leftMember).2)
      (isTarget (List.mem_filter.mp rightMember).2) same
  · exact (ascending.imp Nat.ne_of_lt).filter _

theorem labelOf_mem_labels {code : AddressedCode} {address : Nat}
    (isTarget : address ∈ code.targets) (boundary : code.isBoundary address = true) :
    labelOf code.targets address ∈ code.items.filterMap CodeItem.label? := by
  rw [labels_items]
  apply List.mem_map_of_mem
  refine List.mem_filter.mpr ⟨?_, List.contains_iff_mem.mpr isTarget⟩
  rw [isBoundary, Bool.or_eq_true, beq_iff_eq, List.any_eq_true] at boundary
  rcases boundary with atEnd | ⟨entry, member, here⟩
  · exact List.mem_append_right _ (List.mem_singleton.mpr atEnd)
  · rw [← eq_of_beq here]
    exact List.mem_append_left _ (List.mem_map_of_mem member)

end AddressedCode

namespace BodyReader

variable {reader : BodyReader} {entry : Entry} {bytes : List UInt8}

theorem OperandForm.checkRaw {next : Nat} {opcode : Opcode} {info : OpcodeInfo}
    {operand : Operand Nat} (known : opcode.info? = some info)
    (form : OperandForm reader next info.operand operand bytes) {Target : Type}
    (rename : Nat → Target) :
    Encoder.checkRaw opcode (operand.mapTargets rename) = .ok () := by
  simp only [Encoder.checkRaw, known]
  generalize info.operand = kind at form
  cases form with
  | immediate value => 
      simp [Operand.mapTargets, Operand.fits]
  | _ => rfl

theorem writable_of_lift (form : InstructionForm reader entry bytes)
    {instruction : Instruction Nat}
    (lifted : reader.lift entry.opcode entry.operand = .ok instruction) {Target : Type}
    (rename : Nat → Target) : (instruction.mapTargets rename).Writable := by
  cases instruction with
  | raw opcode operand =>
      obtain ⟨rfl, rfl, _⟩ := lift_eq_raw lifted
      cases form with
      | intro known noCall form declared => exact form.checkRaw known rename
  | _ => trivial

theorem slot_mem_of_lift {opcode : Opcode} {operand : Operand Nat} {instruction : Instruction Nat}
    (lifted : reader.lift opcode operand = .ok instruction) :
    ∀ slot ∈ instruction.slot?, slot ∈ reader.locals := by
  unfold lift at lifted
  split at lifted
  · rw [← Except.ok.inj lifted]
    exact fun _ absent => by cases absent
  · rename_i access index _ _
    unfold local? at lifted
    split at lifted
    · rename_i slot found
      rw [← Except.ok.inj lifted]
      rintro _ ⟨⟩
      exact List.mem_of_getElem? found
    · cases lifted
  · rw [← Except.ok.inj lifted]
    split <;> (try split) <;> exact fun _ absent => by cases absent

theorem addresses_of_readFrom {entries : List Entry} {read : List (Nat × Instruction Nat)}
    (each : List.Forall₂ (ReadFrom reader) entries read) :
    read.map Prod.fst = entries.map Entry.address := by
  induction each with
  | nil => rfl
  | cons first _ inductionHypothesis => exact congrArg₂ List.cons first.1 inductionHypothesis

end BodyReader

theorem Instruction.slot?_mapTargets {Target Renamed : Type} (instruction : Instruction Target)
    (rename : Target → Renamed) : (instruction.mapTargets rename).slot? = instruction.slot? := by
  cases instruction <;> rfl

namespace Body

variable {code : List UInt8} {declarations : List LocalDeclaration} {resolver : Resolver}
  {context : GenericContext} {body : Body}

theorem closed_of_decode (done : decode code declarations resolver context = .ok body) :
    body.Closed := by
  obtain ⟨entries, read, accepts, each, _, rfl⟩ := readFrom_of_decode done
  constructor
  · apply AddressedCode.nodup_labels
    have ascending := BodyReader.ascending_of_splits accepts.splits
    rw [Nat.zero_add] at ascending
    rw [BodyReader.addresses_of_readFrom each]
    exact ascending
  · intro instruction member target isTarget
    rw [Body.instructions, AddressedCode.instructions_items] at member
    obtain ⟨entry, isRead, rfl⟩ := List.mem_map.mp member
    rw [Instruction.targets_mapTargets] at isTarget
    obtain ⟨address, named, rfl⟩ := List.mem_map.mp isTarget
    apply List.mem_map_of_mem
    have listed : address ∈ (AddressedCode.mk read code.length).targets :=
      AddressedCode.mem_targets.mpr ⟨entry, isRead, named⟩
    apply AddressedCode.labelOf_mem_labels listed
    rw [BodyReader.isBoundary_iff each]
    rw [BodyReader.targets_eq_named each] at listed
    obtain ⟨source, isEntry, target⟩ := BodyReader.mem_named.mp listed
    exact accepts.landing source isEntry address target
  · intro instruction member
    obtain ⟨entry, part, lifted, label, form, lifts, rfl⟩ := lifted_of_decode done member
    exact BodyReader.writable_of_lift form lifts label

theorem usedLocals_subset_of_decode (done : decode code declarations resolver context = .ok body) :
    body.usedLocals ⊆ body.locals := by
  intro slot used
  obtain ⟨instruction, member, isSlot⟩ := List.mem_filterMap.mp used
  obtain ⟨entry, part, lifted, label, _, lifts, rfl⟩ := lifted_of_decode done member
  obtain ⟨_, _, _, _, _, rfl⟩ := readFrom_of_decode done
  rw [Instruction.slot?_mapTargets] at isSlot
  exact BodyReader.slot_mem_of_lift lifts slot isSlot

end Body
end CilTemplate
