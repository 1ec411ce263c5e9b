import CilTemplate.Proofs.Decoding.Bodies
import CilTemplate.Proofs.Emission.ReadBody

/-
What is known of a body that was decoded.  An instruction that has a typed
form has it, and what an instruction names was resolved from a token.
-/

namespace CilTemplate

namespace Opcode

def isTypedWith (opcode : Opcode) : OperandKind → Bool
  | .none =>
      (opcode.argumentAccess? (.none : Operand Nat)).isSome ||
        (opcode.localAccess? (.none : Operand Nat)).isSome || opcode == ret
  | .uint8 =>
      Access.all.any fun access =>
        access.argumentForms.short == opcode || access.localForms.short == opcode
  | .uint16 =>
      Access.all.any fun access =>
        access.argumentForms.long == opcode || access.localForms.long == opcode
  | .branch | .shortBranch => (BranchCondition.ofOpcode? opcode).isSome
  | .field => opcode.fieldAccess?.isSome
  | .method => opcode == call || opcode == callvirt
  | _ => false

theorem isTypedWith_of_typed : ∀ entry ∈ known, entry.1 ∈ typed →
    entry.1.isTypedWith entry.2.operand = true := by
  decide +kernel

variable {opcode : Opcode} {operand : Operand Nat} {access : Access} {index : UInt16}

theorem argumentAccess?_ne_none
    (decoded : access.argumentForms.decode? opcode operand = some index) :
    opcode.argumentAccess? operand ≠ none := by
  intro absent
  have here := List.findSome?_eq_none_iff.mp absent access access.mem_all
  rw [decoded] at here
  cases here

theorem localAccess?_ne_none (decoded : access.localForms.decode? opcode operand = some index) :
    opcode.localAccess? operand ≠ none := by
  intro absent
  have here := List.findSome?_eq_none_iff.mp absent access access.mem_all
  rw [decoded] at here
  cases here

end Opcode

namespace BodyReader

variable {reader : BodyReader} {entry : Entry} {bytes : List UInt8} {opcode : Opcode}
  {operand : Operand Nat} {instruction : Instruction Nat}

theorem lift_eq_raw {known : Opcode} {rest : Operand Nat}
    (lifted : reader.lift opcode operand = .ok (.raw known rest)) :
    known = opcode ∧ rest = operand ∧ opcode.argumentAccess? operand = none ∧
      opcode.localAccess? operand = none := by
  unfold lift at lifted
  split at lifted
  · cases lifted
  · cases slot : reader.local? _ <;> rw [slot] at lifted <;> cases lifted
  · rename_i noArgument noLocal
    refine ⟨?_, ?_, noArgument, noLocal⟩ <;>
      split at lifted <;> (try split at lifted) <;> cases lifted <;> rfl

theorem untyped_of_lift (form : InstructionForm reader entry bytes)
    (lifted : reader.lift entry.opcode entry.operand = .ok (.raw opcode operand)) :
    opcode ∉ Opcode.typed := by
  rcases lift_eq_raw lifted with ⟨rfl, rfl, noArgument, noLocal⟩
  intro isTyped
  cases form with
  | @intro info bytes known noCall form declared =>
      have typed := Opcode.isTypedWith_of_typed _ (Opcode.mem_known_of_info? known) isTyped
      simp only at typed
      generalize entry.operand = operand at *
      generalize info.operand = kind at *
      cases form with
      | none =>
          simp only [Opcode.isTypedWith, noArgument, noLocal, Option.isSome_none, Bool.false_or,
            beq_iff_eq] at typed
          rw [typed, lift_ret] at lifted
          cases lifted
      | immediate value =>
          cases value with
          | uint8 value =>
              obtain ⟨access, _, short⟩ := List.any_eq_true.mp typed
              simp only [Bool.or_eq_true, beq_iff_eq] at short
              rcases short with same | same
              · apply @Opcode.argumentAccess?_ne_none entry.opcode _ access value.toUInt16 _
                  noArgument
                rw [SlotForms.decode?, if_pos same.symm]
              · apply @Opcode.localAccess?_ne_none entry.opcode _ access value.toUInt16 _ noLocal
                rw [SlotForms.decode?, if_pos same.symm]
          | uint16 value =>
              obtain ⟨access, _, long⟩ := List.any_eq_true.mp typed
              simp only [Bool.or_eq_true, beq_iff_eq] at long
              rcases long with same | same
              · apply @Opcode.argumentAccess?_ne_none entry.opcode _ access value _ noArgument
                rw [SlotForms.decode?, if_pos same.symm]
              · apply @Opcode.localAccess?_ne_none entry.opcode _ access value _ noLocal
                rw [SlotForms.decode?, if_pos same.symm]
          | _ => cases typed
      | shortBranch | branch =>
          obtain ⟨condition, isBranch⟩ := Option.isSome_iff_exists.mp typed
          rw [lift_branch _ isBranch] at lifted
          cases lifted
      | field =>
          obtain ⟨⟨place, access⟩, isField⟩ := Option.isSome_iff_exists.mp typed
          simp only [lift, noArgument, noLocal, isField] at lifted
          cases lifted
      | method =>
          simp only [Opcode.isTypedWith, Bool.or_eq_true, beq_iff_eq] at typed
          simp only [lift, noArgument, noLocal, if_pos typed] at lifted
          cases lifted
      | _ => cases typed

theorem named_of_lift (lifted : reader.lift opcode operand = .ok instruction) :
    instruction.named = operand ∨ instruction.named = .none := by
  unfold lift at lifted
  split at lifted
  · rw [← Except.ok.inj lifted]
    exact Or.inr rfl
  · cases slot : reader.local? _ <;> rw [slot] at lifted
    · cases lifted
    · rw [← Except.ok.inj lifted]
      exact Or.inr rfl
  · rw [← Except.ok.inj lifted]
    split <;> (try split) <;> first | exact Or.inl rfl | exact Or.inr rfl

theorem stands_of_splits {code : List UInt8} {position : Nat} {entries : List Entry}
    (splits : Splits reader position bytes entries) (bound : position ≤ code.length)
    (same : code.drop position = bytes) :
    ∀ entry ∈ entries, ∃ part, InstructionForm reader entry part ∧
      StandsAt code entry.address part := by
  induction splits with
  | nil => simp
  | @cons first part rest entries form others inductionHypothesis =>
      have stands := StandsAt.of_drop_eq bound same
      have behind := List.append_cancel_left (stands.drop_eq.symm.trans same)
      exact List.forall_mem_cons.mpr
        ⟨⟨part, form, stands⟩, inductionHypothesis stands.le_length behind⟩

end BodyReader

/-- What the resolver gives for a token it gives for the token of the result
too. -/
structure Resolver.IsStable (resolver : Resolver) (context : GenericContext) : Prop where
  type : ∀ {token : Token} {type : CilType}, resolver.type token context = .ok type →
    resolver.type type.token context = .ok type
  field : ∀ {token : Token} {field : Field}, resolver.field token context = .ok field →
    resolver.field field.token context = .ok field
  method : ∀ {token : Token} {method : Method}, resolver.method token context = .ok method →
    resolver.method method.token context = .ok method
  symbol : ∀ {token : Token} {symbol : Symbol}, resolver.symbol token context = .ok symbol →
    resolver.symbol symbol.token context = .ok symbol

theorem BodyReader.OperandForm.answersFor {reader : BodyReader} {next : Nat} {kind : OperandKind}
    {operand : Operand Nat} {bytes : List UInt8} {strings : List (String × Token)}
    (form : OperandForm reader next kind operand bytes)
    (stable : reader.resolver.IsStable reader.context)
    (texts : ∀ text token, operand = .string text → strings.lookup text = some token →
      reader.resolver.string token = .ok text) :
    reader.resolver.AnswersFor reader.context strings operand := by
  cases form with
  | type resolves closed => exact ⟨stable.type resolves, closed⟩
  | field resolves ownerClosed typeClosed => exact ⟨stable.field resolves, ownerClosed, typeClosed⟩
  | method resolves closed => exact ⟨stable.method resolves, closed⟩
  | string => exact fun token known => texts _ token rfl known
  | symbol resolves => exact stable.symbol resolves
  | _ => trivial

namespace Body

open BodyReader (Entry InstructionForm)

variable {code : List UInt8} {declarations : List LocalDeclaration} {resolver : Resolver}
  {context : GenericContext} {body : Body}

theorem stands_of_decode (done : decode code declarations resolver context = .ok body)
    {instruction : Instruction Label} (member : instruction ∈ body.instructions) :
    ∃ entry part lifted label,
      let reader : BodyReader := ⟨resolver, context, BodyReader.localsOf declarations⟩
      InstructionForm reader entry part ∧ StandsAt code entry.address part ∧
      reader.lift entry.opcode entry.operand = .ok lifted ∧
      instruction = lifted.mapTargets label := by
  obtain ⟨entries, accepts⟩ := accepts_of_decode done
  obtain ⟨instructions, label, items, again, renders⟩ := decode_of_accepts accepts
  have same := Except.ok.inj (done.symm.trans again)
  rw [same] at member
  rw [Body.instructions, renders.unlabelled] at member
  obtain ⟨lifted, isLifted, rfl⟩ := List.mem_map.mp member
  obtain ⟨index, bound, rfl⟩ := List.getElem_of_mem isLifted
  have length := renders.lifted.length_eq
  have lifts := renders.lifted.get (length ▸ bound) bound
  obtain ⟨part, form, stands⟩ := BodyReader.stands_of_splits accepts.splits (Nat.zero_le _)
    List.drop_zero _ (List.getElem_mem (length ▸ bound))
  exact ⟨_, part, _, label, form, stands, lifts, rfl⟩

theorem lifted_of_decode (done : decode code declarations resolver context = .ok body)
    {instruction : Instruction Label} (member : instruction ∈ body.instructions) :
    ∃ entry part lifted label,
      let reader : BodyReader := ⟨resolver, context, BodyReader.localsOf declarations⟩
      InstructionForm reader entry part ∧
      reader.lift entry.opcode entry.operand = .ok lifted ∧
      instruction = lifted.mapTargets label := by
  obtain ⟨entry, part, lifted, label, form, _, lifts, same⟩ := stands_of_decode done member
  exact ⟨entry, part, lifted, label, form, lifts, same⟩

theorem untyped_of_decode (done : decode code declarations resolver context = .ok body)
    {opcode : Opcode} {operand : Operand Label}
    (member : .raw opcode operand ∈ body.instructions) : opcode ∉ Opcode.typed := by
  obtain ⟨entry, part, lifted, label, form, lifts, same⟩ := lifted_of_decode done member
  obtain ⟨rest, rfl⟩ := eq_raw_of_mapTargets same.symm
  exact BodyReader.untyped_of_lift form lifts

theorem answersFor_of_decode (done : decode code declarations resolver context = .ok body)
    (stable : resolver.IsStable context) {strings : List (String × Token)}
    (texts : ∀ opcode text token, .raw opcode (.string text) ∈ body.instructions →
      strings.lookup text = some token → resolver.string token = .ok text) :
    ∀ instruction ∈ body.instructions,
      resolver.AnswersFor context strings instruction.named := by
  intro instruction member
  obtain ⟨entry, part, lifted, label, form, lifts, same⟩ := lifted_of_decode done member
  rw [same, named_mapTargets, answersFor_mapTargets]
  rcases BodyReader.named_of_lift lifts with isOperand | isNone
  · rw [isOperand]
    cases form with
    | intro known noCall form declared =>
        apply form.answersFor stable
        intro text token isString found
        have isRaw : ∃ opcode, lifted = .raw opcode (.string text) := by
          rw [isString] at isOperand
          cases lifted with
          | raw opcode rest => exact ⟨opcode, congrArg (Instruction.raw opcode) isOperand⟩
          | _ => cases isOperand
        obtain ⟨opcode, rfl⟩ := isRaw
        rw [same] at member
        exact texts opcode text token member found
  · rw [isNone]
    trivial

theorem decode_single {opcode : Opcode} {operand : Operand Nat} {bytes : List UInt8}
    {instruction : Instruction Nat} (form : InstructionForm
      ⟨resolver, context, BodyReader.localsOf declarations⟩ ⟨0, opcode, operand⟩ bytes)
    (lifts : BodyReader.lift ⟨resolver, context, BodyReader.localsOf declarations⟩ opcode operand =
      .ok instruction)
    (noTargets : operand.targets = []) :
    ∃ label, decode bytes declarations resolver context =
      .ok ⟨BodyReader.localsOf declarations, [.code (instruction.mapTargets label)]⟩ := by
  have splits := BodyReader.Splits.cons form (.nil _)
  rw [List.append_nil] at splits
  have unnamed : BodyReader.named [⟨0, opcode, operand⟩] = [] := by
    simp [BodyReader.named, noTargets]
  obtain ⟨instructions, label, items, done, renders⟩ := decode_of_accepts ⟨splits, by
    intro entry member target isTarget
    rw [List.mem_singleton.mp member, noTargets] at isTarget
    cases isTarget⟩
  obtain ⟨found, rest, liftsFound, others, rfl⟩ := List.forall₂_cons_left_iff.mp renders.lifted
  rw [List.forall₂_nil_left_iff.mp others] at renders
  obtain rfl := Except.ok.inj (lifts.symm.trans liftsFound)
  refine ⟨label, ?_⟩
  rw [done, renders.labelled]
  simp only [BodyReader.markOf, unnamed]
  rfl

end Body
end CilTemplate
