import CilTemplate.Proofs.Code.Addresses
import CilTemplate.Proofs.Decoding.Grammar

/-
Whole bodies.  The reader accepts exactly the code of the language, and the
body that it gives has the lifted instructions in the order of the bytes and a
label for each address that is the target of some of them.
-/

namespace CilTemplate

open CilTemplate.Action

namespace SlotForms

variable {Target : Type} {forms : SlotForms} {opcode : Opcode} {operand : Operand Target}

theorem targets_of_decode? {index : UInt16} (found : forms.decode? opcode operand = some index) :
    operand.targets = [] := by
  cases operand with
  | label target => cases found
  | switch targets => cases found
  | _ => rfl

theorem mem_of_decode? {index : UInt16} (found : forms.decode? opcode operand = some index) :
    opcode ∈ forms.opcodes := by
  apply Classical.byContradiction
  intro other
  rw [decode?_eq_none other] at found
  cases found

end SlotForms

namespace Opcode

variable {Target : Type} {opcode : Opcode} {operand : Operand Target} {access : Access}
  {index : UInt16}

theorem decode?_of_argumentAccess? (found : opcode.argumentAccess? operand = some (access, index)) :
    access.argumentForms.decode? opcode operand = some index := by
  obtain ⟨other, _, decoded⟩ := List.exists_of_findSome?_eq_some found
  obtain ⟨_, same, together⟩ := Option.map_eq_some_iff.mp decoded
  obtain ⟨rfl, rfl⟩ := Prod.mk.inj together
  exact same

theorem decode?_of_localAccess? (found : opcode.localAccess? operand = some (access, index)) :
    access.localForms.decode? opcode operand = some index := by
  obtain ⟨other, _, decoded⟩ := List.exists_of_findSome?_eq_some found
  obtain ⟨_, same, together⟩ := Option.map_eq_some_iff.mp decoded
  obtain ⟨rfl, rfl⟩ := Prod.mk.inj together
  exact same

theorem argumentForms_apart (access other : Access) :
    ∀ opcode ∈ access.argumentForms.opcodes, opcode ∉ other.localForms.opcodes := by
  cases access <;> cases other <;> decide +kernel

theorem localAccess?_eq_none (found : opcode.argumentAccess? operand = some (access, index)) :
    opcode.localAccess? operand = none := by
  have member := SlotForms.mem_of_decode? (decode?_of_argumentAccess? found)
  exact Access.findSome?_eq_none (fun other => argumentForms_apart access other opcode member) _

end Opcode

namespace BodyReader

variable {reader : BodyReader} {opcode : Opcode} {operand : Operand Nat}
  {instruction : Instruction Nat}

theorem lift_isOk_iff :
    (∃ instruction, reader.lift opcode operand = .ok instruction) ↔
      ∀ access index, opcode.localAccess? operand = some (access, index) →
        index.toNat < reader.locals.length := by
  unfold lift
  constructor
  · rintro ⟨instruction, lifted⟩ access index isLocal
    cases argument : opcode.argumentAccess? operand with
    | some found =>
        rw [Opcode.localAccess?_eq_none argument] at isLocal
        cases isLocal
    | none =>
        rw [argument, isLocal] at lifted
        by_cases bound : index.toNat < reader.locals.length
        · exact bound
        · simp [local?, bound, Except.map] at lifted
  · intro declared
    cases argument : opcode.argumentAccess? operand with
    | some found => exact ⟨_, rfl⟩
    | none =>
        cases isLocal : opcode.localAccess? operand with
        | none => exact ⟨_, rfl⟩
        | some found =>
            have bound := declared found.1 found.2 isLocal
            exact ⟨.localSlot found.1 reader.locals[found.2.toNat], by
              simp [local?, bound, Except.map]⟩

theorem targets_of_lift (lifted : reader.lift opcode operand = .ok instruction) :
    instruction.targets = operand.targets := by
  unfold lift at lifted
  split at lifted
  · rename_i found
    rw [← Except.ok.inj lifted]
    exact (SlotForms.targets_of_decode? (Opcode.decode?_of_argumentAccess? found)).symm
  · rename_i found
    have closed := SlotForms.targets_of_decode? (Opcode.decode?_of_localAccess? found)
    rw [closed]
    cases slot : reader.local? _ <;> rw [slot] at lifted
    · cases lifted
    · rw [← Except.ok.inj lifted]
      rfl
  · rw [← Except.ok.inj lifted]
    split <;> (try split) <;> rfl

theorem length_pos_of_form {entry : Entry} {bytes : List UInt8}
    (form : InstructionForm reader entry bytes) : 0 < bytes.length := by
  cases form with
  | intro known =>
      rcases Opcode.eq_ofByte_or_eq_ofExtended known with ⟨_, same⟩ | ⟨_, same⟩ <;>
        simp [same]

variable {code : List UInt8} {position : Nat} {after : Cursor UInt8}

theorem readInstruction_eq_ok
    (done : run reader.readInstruction (Cursor.within code position) = (.ok instruction, after)) :
    ∃ entry bytes, entry.address = position ∧ StandsAt code position bytes ∧
      InstructionForm reader entry bytes ∧
      reader.lift entry.opcode entry.operand = .ok instruction ∧
      after = Cursor.within code (position + bytes.length) := by
  obtain ⟨⟨opcode, info⟩, _, readOpcode, rest⟩ := run_bind_eq_ok.mp done
  rcases Opcode.read_eq_ok readOpcode with ⟨known, stands, rfl⟩
  obtain ⟨operand, _, readOperand, rest⟩ := run_bind_eq_ok.mp rest
  obtain ⟨noCall, bytes, standsBehind, form, rfl⟩ :=
    readOperand_eq_ok stands.le_length known readOperand
  obtain ⟨lifted, rfl⟩ := Prod.mk.inj rest
  rw [Nat.add_assoc] at form
  refine ⟨⟨position, opcode, operand⟩, opcode.bytes ++ bytes, rfl, stands.append standsBehind,
    ⟨known, noCall, form, lift_isOk_iff.mp ⟨instruction, lifted⟩⟩, lifted, ?_⟩
  rw [List.length_append, Nat.add_assoc]

theorem run_readInstruction_of_form {entry : Entry} {bytes : List UInt8}
    (form : InstructionForm reader entry bytes) (stands : StandsAt code entry.address bytes)
    (bound : ∀ target ∈ entry.operand.targets, target ≤ code.length) :
    ∃ instruction, reader.lift entry.opcode entry.operand = .ok instruction ∧
      run reader.readInstruction (Cursor.within code entry.address) =
        (.ok instruction, Cursor.within code (entry.address + bytes.length)) := by
  cases form with
  | intro known noCall form declared =>
      obtain ⟨instruction, lifted⟩ := lift_isOk_iff.mpr declared
      rw [← Nat.add_assoc] at form
      have operand := run_readOperand noCall stands.append_right form bound
      have read := run_readInstruction known stands.append_left operand
      rw [lifted] at read
      rw [List.length_append]
      exact ⟨instruction, lifted, read⟩

def ReadFrom (reader : BodyReader) (entry : Entry) (read : Nat × Instruction Nat) : Prop :=
  read.1 = entry.address ∧ reader.lift entry.opcode entry.operand = .ok read.2

/-- By induction on the steps: what is left of the code is split into the
instructions that are read. -/
theorem readInstructions_eq_ok {steps : Nat} {read : List (Nat × Instruction Nat)}
    (bound : position ≤ code.length) (enough : code.length ≤ position + steps)
    (done : run (reader.readInstructions steps) (Cursor.within code position) = (.ok read, after)) :
    ∃ entries, Splits reader position (code.drop position) entries ∧
      List.Forall₂ (ReadFrom reader) entries read := by
  induction steps generalizing position read after with
  | zero =>
      obtain ⟨same, _⟩ := Prod.mk.inj done
      rw [← Except.ok.inj same, List.drop_of_length_le (by omega)]
      exact ⟨[], .nil position, .nil⟩
  | succ steps inductionHypothesis =>
      obtain ⟨cursor, _, unchanged, rest⟩ := run_bind_eq_ok.mp done
      obtain ⟨⟨⟩, ⟨⟩⟩ := Prod.mk.inj unchanged
      have hasMore : (Cursor.within code position).hasMore = decide (position < code.length) := rfl
      rw [hasMore, run_ite] at rest
      split at rest
      · obtain ⟨instruction, _, readFirst, rest⟩ := run_bind_eq_ok.mp rest
        obtain ⟨entry, bytes, rfl, stands, form, lifted, rfl⟩ := readInstruction_eq_ok readFirst
        obtain ⟨others, _, readOthers, rest⟩ := run_bind_eq_ok.mp rest
        obtain ⟨same, _⟩ := Prod.mk.inj rest
        have nonempty := length_pos_of_form form
        obtain ⟨entries, splits, each⟩ :=
          inductionHypothesis stands.le_length (by omega) readOthers
        rw [← Except.ok.inj same, stands.drop_eq]
        exact ⟨entry :: entries, .cons form splits, .cons ⟨rfl, lifted⟩ each⟩
      · rename_i noMore
        obtain ⟨same, _⟩ := Prod.mk.inj rest
        rw [← Except.ok.inj same, List.drop_of_length_le (by simpa using noMore)]
        exact ⟨[], .nil position, .nil⟩

theorem run_readInstructions_of_splits {steps : Nat} {bytes : List UInt8} {entries : List Entry}
    (splits : Splits reader position bytes entries) (bound : position ≤ code.length)
    (same : code.drop position = bytes) (enough : code.length ≤ position + steps)
    (landing : ∀ entry ∈ entries, ∀ target ∈ entry.operand.targets, target ≤ code.length) :
    ∃ read, run (reader.readInstructions steps) (Cursor.within code position) =
        (.ok read, Cursor.within code code.length) ∧
      List.Forall₂ (ReadFrom reader) entries read := by
  induction splits generalizing steps with
  | nil position =>
      have done : position = code.length :=
        Nat.le_antisymm bound (List.drop_eq_nil_iff.mp same)
      subst done
      refine ⟨[], ?_, .nil⟩
      cases steps with
      | zero => rfl
      | succ steps =>
          have noMore : (Cursor.within code code.length).hasMore = false :=
            decide_eq_false (Nat.lt_irrefl _)
          simp only [readInstructions, run_bind, run_get, noMore]
          rfl
  | @cons entry bytes rest entries form others inductionHypothesis =>
      have stands := StandsAt.of_drop_eq bound same
      have nonempty := length_pos_of_form form
      have room := stands.le_length
      have behind : code.drop (entry.address + bytes.length) = rest :=
        List.append_cancel_left (stands.drop_eq.symm.trans same)
      obtain ⟨firstLands, othersLand⟩ := List.forall_mem_cons.mp landing
      obtain ⟨instruction, lifted, first⟩ := run_readInstruction_of_form form stands firstLands
      cases steps with
      | zero => omega
      | succ steps =>
          obtain ⟨read, restRun, each⟩ :=
            @inductionHypothesis steps room behind (by omega) othersLand
          have hasMore : (Cursor.within code entry.address).hasMore = true :=
            decide_eq_true (show entry.address < code.length by omega)
          refine ⟨(entry.address, instruction) :: read, ?_, .cons ⟨rfl, lifted⟩ each⟩
          simp only [readInstructions, run_bind, run_get, hasMore, if_true, first, restRun,
            run_pure]
          rfl

theorem address_le_of_splits {bytes : List UInt8} {entries : List Entry}
    (splits : Splits reader position bytes entries) :
    ∀ entry ∈ entries, entry.address ≤ position + bytes.length := by
  induction splits with
  | nil => simp
  | cons form others inductionHypothesis =>
      rw [List.length_append]
      rintro other (_ | ⟨_, member⟩)
      · omega
      · have later := inductionHypothesis other member
        omega

theorem le_address_of_splits {bytes : List UInt8} {entries : List Entry}
    (splits : Splits reader position bytes entries) :
    ∀ entry ∈ entries, position ≤ entry.address := by
  induction splits with
  | nil => simp
  | cons form others inductionHypothesis =>
      rintro other (_ | ⟨_, member⟩)
      · exact Nat.le_refl _
      · exact Nat.le_trans (Nat.le_add_right _ _) (inductionHypothesis other member)

theorem ascending_of_splits {bytes : List UInt8} {entries : List Entry}
    (splits : Splits reader position bytes entries) :
    (entries.map Entry.address ++ [position + bytes.length]).Pairwise (· < ·) := by
  induction splits with
  | nil => exact List.pairwise_singleton _ _
  | @cons entry bytes rest entries form others inductionHypothesis =>
      have nonempty := length_pos_of_form form
      rw [List.map_cons, List.cons_append, List.length_append, ← Nat.add_assoc, List.pairwise_cons]
      refine ⟨?_, inductionHypothesis⟩
      intro address member
      rcases List.mem_append.mp member with inside | atEnd
      · obtain ⟨other, isEntry, rfl⟩ := List.mem_map.mp inside
        have later := le_address_of_splits others other isEntry
        omega
      · rw [List.mem_singleton.mp atEnd]
        omega

theorem Accepts.target_le {entries : List Entry} (accepts : Accepts reader code entries) :
    ∀ entry ∈ entries, ∀ target ∈ entry.operand.targets, target ≤ code.length := by
  intro entry member target named
  rcases accepts.landing entry member target named with rfl | ⟨other, there, rfl⟩
  · exact Nat.le_refl _
  · have bound := address_le_of_splits accepts.splits other there
    rwa [Nat.zero_add] at bound

/-- The addresses that operands name, each once, in the order in which they are
first named. -/
def named (entries : List Entry) : List Nat :=
  (entries.flatMap fun entry => entry.operand.targets).eraseDups

def markOf (entries : List Entry) (label : Nat → Label) (address : Nat) : List CodeItem :=
  if (named entries).contains address then [.mark (label address)] else []

/-- The items of a body for its code: the lifted instructions in the order of
their bytes, and in front of each address that is named, and only there, a
label of its own. -/
structure Renders (reader : BodyReader) (code : List UInt8) (entries : List Entry)
    (instructions : List (Instruction Nat)) (label : Nat → Label) (items : List CodeItem) :
    Prop where
  lifted : List.Forall₂ (fun entry instruction =>
    reader.lift entry.opcode entry.operand = .ok instruction) entries instructions
  unlabelled : items.filterMap CodeItem.instruction? =
    instructions.map fun instruction => instruction.mapTargets label
  labelled : items = (List.zipWith (fun entry instruction =>
      markOf entries label entry.address ++ [.code (instruction.mapTargets label)])
        entries instructions).flatten ++ markOf entries label code.length
  shared : ∀ left ∈ named entries, ∀ right ∈ named entries,
    ((label left).identity = (label right).identity ↔ left = right)
  numbered : ∀ number address, (named entries)[number]? = some address →
    label address = ⟨.index number, "Label_" ++ toString number⟩

end BodyReader

namespace AddressedCode

theorem distinct_filter (keep : Nat → Bool) (addresses : List Nat) :
    distinct (addresses.filter keep) = (distinct addresses).filter keep := by
  induction addresses with
  | nil => rfl
  | cons first rest inductionHypothesis =>
      by_cases kept : keep first = true
      · rw [List.filter_cons_of_pos kept, distinct, distinct, List.filter_cons_of_pos kept,
          inductionHypothesis, List.filter_filter, List.filter_filter]
        simp only [Bool.and_comm]
      · rw [List.filter_cons_of_neg kept, distinct, List.filter_cons_of_neg kept,
          inductionHypothesis, List.filter_filter]
        apply List.filter_congr
        intro address _
        by_cases same : address = first
        · simp [same, kept]
        · simp [same]

theorem distinct_eq_eraseDups (addresses : List Nat) :
    distinct addresses = addresses.eraseDups := by
  induction length : addresses.length using Nat.strongRecOn generalizing addresses with
  | _ count inductionHypothesis =>
      cases addresses with
      | nil => rfl
      | cons first rest =>
          have shorter := List.length_filter_le (fun address => !address == first) rest
          rw [List.length_cons] at length
          have later := inductionHypothesis _ (by omega)
            (rest.filter fun address => !address == first) rfl
          rw [List.eraseDups_cons, ← later, distinct_filter, distinct]
          rfl

theorem nodup_distinct (addresses : List Nat) : (distinct addresses).Nodup := by
  induction addresses with
  | nil => exact List.nodup_nil
  | cons first rest inductionHypothesis =>
      rw [distinct, List.nodup_cons]
      exact ⟨by simp, inductionHypothesis.filter _⟩

theorem labelOf_getElem {targets : List Nat} (distinct : targets.Nodup) {number address : Nat}
    (found : targets[number]? = some address) :
    labelOf targets address = ⟨.index number, "Label_" ++ toString number⟩ := by
  obtain ⟨bound, rfl⟩ := List.getElem?_eq_some_iff.mp found
  rw [labelOf, distinct.idxOf_getElem]

end AddressedCode

namespace BodyReader

open AddressedCode (labelOf)

variable {reader : BodyReader} {code : List UInt8} {entries : List Entry}
  {read : List (Nat × Instruction Nat)}

theorem targets_eq_named (each : List.Forall₂ (ReadFrom reader) entries read) (length : Nat) :
    (AddressedCode.mk read length).targets = named entries := by
  rw [AddressedCode.targets, AddressedCode.distinct_eq_eraseDups, named]
  congr 1
  induction each with
  | nil => rfl
  | cons first _ inductionHypothesis =>
      rw [List.flatMap_cons, List.flatMap_cons, inductionHypothesis]
      exact congrArg (· ++ _) (targets_of_lift first.2)

theorem isBoundary_iff (each : List.Forall₂ (ReadFrom reader) entries read) (length : Nat)
    (target : Nat) : (AddressedCode.mk read length).isBoundary target = true ↔
      target = length ∨ ∃ entry ∈ entries, entry.address = target := by
  simp only [AddressedCode.isBoundary, Bool.or_eq_true, beq_iff_eq, List.any_eq_true]
  apply or_congr Iff.rfl
  induction each with
  | nil => simp
  | cons first _ inductionHypothesis =>
      rw [List.exists_mem_cons_iff, List.exists_mem_cons_iff, inductionHypothesis, first.1]

theorem itemsOf_eq (each : List.Forall₂ (ReadFrom reader) entries read) (all : List Entry) :
    AddressedCode.itemsOf (named all) read =
      (List.zipWith (fun entry instruction =>
        markOf all (labelOf (named all)) entry.address ++
          [.code (instruction.mapTargets (labelOf (named all)))])
        entries (read.map Prod.snd)).flatten := by
  induction each with
  | nil => rfl
  | cons first _ inductionHypothesis =>
      rw [AddressedCode.itemsOf, List.flatMap_cons, List.map_cons, List.zipWith_cons_cons,
        List.flatten_cons, ← inductionHypothesis, ← first.1]
      rfl

theorem mem_named {target : Nat} :
    target ∈ named entries ↔ ∃ entry ∈ entries, target ∈ entry.operand.targets := by
  rw [named, ← AddressedCode.distinct_eq_eraseDups, AddressedCode.mem_distinct, List.mem_flatMap]

theorem renders_of_readFrom (each : List.Forall₂ (ReadFrom reader) entries read) :
    Renders reader code entries (read.map Prod.snd) (labelOf (named entries))
      (AddressedCode.mk read code.length).items where
  lifted := by
    rw [List.forall₂_map_right_iff]
    exact each.imp fun _ _ readFrom => readFrom.2
  unlabelled := by
    rw [AddressedCode.instructions_items, targets_eq_named each, List.map_map]
    rfl
  labelled := by
    rw [AddressedCode.items, targets_eq_named each]
    exact congrArg (· ++ _) (itemsOf_eq each entries)
  shared left leftMember right rightMember :=
    ⟨AddressedCode.identity_labelOf_inj leftMember rightMember, fun same => by rw [same]⟩
  numbered number address found := by
    apply AddressedCode.labelOf_getElem _ found
    rw [named, ← AddressedCode.distinct_eq_eraseDups]
    exact AddressedCode.nodup_distinct _

end BodyReader

namespace Body

open BodyReader (Accepts Renders)

variable {code : List UInt8} {declarations : List LocalDeclaration} {resolver : Resolver}
  {context : GenericContext}

theorem readFrom_of_decode {body : Body}
    (done : decode code declarations resolver context = .ok body) :
    ∃ entries read,
      let reader : BodyReader := ⟨resolver, context, BodyReader.localsOf declarations⟩
      Accepts reader code entries ∧ List.Forall₂ (BodyReader.ReadFrom reader) entries read ∧
      (run (reader.readInstructions code.length) (Cursor.ofList code)).1 = .ok read ∧
      body = ⟨BodyReader.localsOf declarations, AddressedCode.items ⟨read, code.length⟩⟩ := by
  obtain ⟨read, reading, rest⟩ := bind_eq_ok.mp done
  obtain ⟨entries, splits, each⟩ := BodyReader.readInstructions_eq_ok (Nat.zero_le _)
    (by omega) (Prod.ext reading rfl)
  dsimp only at rest
  split at rest
  · cases rest
  · rename_i none
    refine ⟨entries, read, ⟨splits, ?_⟩, each, reading, (Except.ok.inj rest).symm⟩
    intro entry member target targeted
    rw [BodyReader.targets_eq_named each] at none
    have lands := List.find?_eq_none.mp none target
      (BodyReader.mem_named.mpr ⟨entry, member, targeted⟩)
    rw [Bool.not_eq_true, Bool.not_eq_false'] at lands
    exact (BodyReader.isBoundary_iff each code.length target).mp lands

theorem accepts_of_decode {body : Body}
    (done : decode code declarations resolver context = .ok body) :
    ∃ entries, Accepts ⟨resolver, context, BodyReader.localsOf declarations⟩ code entries := by
  obtain ⟨entries, _, accepts, _⟩ := readFrom_of_decode done
  exact ⟨entries, accepts⟩

theorem decode_of_accepts {entries : List BodyReader.Entry}
    (accepts : Accepts ⟨resolver, context, BodyReader.localsOf declarations⟩ code entries) :
    ∃ instructions label items,
      decode code declarations resolver context = .ok ⟨BodyReader.localsOf declarations, items⟩ ∧
      Renders ⟨resolver, context, BodyReader.localsOf declarations⟩ code entries instructions label
        items := by
  obtain ⟨read, reading, each⟩ := BodyReader.run_readInstructions_of_splits accepts.splits
    (Nat.zero_le _) (List.drop_zero) (Nat.le_of_eq (Nat.zero_add _).symm) accepts.target_le
  refine ⟨_, _, _, ?_, BodyReader.renders_of_readFrom each⟩
  have landing : (AddressedCode.mk read code.length).targets.find?
      (fun address => !(AddressedCode.mk read code.length).isBoundary address) = none := by
    rw [List.find?_eq_none, BodyReader.targets_eq_named each]
    intro target member
    obtain ⟨entry, there, targeted⟩ := BodyReader.mem_named.mp member
    rw [(BodyReader.isBoundary_iff each code.length target).mpr
      (accepts.landing entry there target targeted)]
    decide
  have first := congrArg Prod.fst reading
  change (run _ (Cursor.ofList code)).1 = _ at first
  simp only [decode, first, bind, Except.bind, landing]
  rfl

end Body

/-- The reader accepts exactly the code of the language.  The body that it
gives renders this code. -/
theorem Body.decode_isOk_iff_accepts (code : List UInt8) (declarations : List LocalDeclaration)
    (resolver : Resolver) (context : GenericContext) :
    let reader : BodyReader := ⟨resolver, context, BodyReader.localsOf declarations⟩
    ((∃ body, decode code declarations resolver context = .ok body) ↔
      ∃ entries, reader.Accepts code entries) ∧
    ∀ entries, reader.Accepts code entries → ∃ instructions label items,
      decode code declarations resolver context = .ok ⟨reader.locals, items⟩ ∧
      reader.Renders code entries instructions label items := by
  refine ⟨⟨?_, ?_⟩, ?_⟩
  · rintro ⟨body, done⟩
    exact accepts_of_decode done
  · rintro ⟨entries, accepts⟩
    obtain ⟨_, _, items, done, _⟩ := decode_of_accepts accepts
    exact ⟨⟨_, items⟩, done⟩
  · intro entries accepts
    exact decode_of_accepts accepts

/-- A branch to itself. -/
example : (Body.decode [0x2B, 0xFE] [] SymbolTable.empty.resolver ⟨[], []⟩).map Body.items =
    .ok [.mark ⟨.index 0, "Label_0"⟩, .code (.branch .always ⟨.index 0, "Label_0"⟩)] := by
  decide +kernel

end CilTemplate
