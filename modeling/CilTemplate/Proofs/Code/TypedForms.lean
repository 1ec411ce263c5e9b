import CilTemplate.Code.Decode
import CilTemplate.Code.Encode

/-
Typed instructions and their encoded forms.  What an instruction is encoded as
is lifted to the same instruction again.
-/

namespace CilTemplate

namespace SlotForms

variable {Target : Type}

def opcodes (forms : SlotForms) : List Opcode :=
  (match forms.compact? with
    | some first => [first, ⟨first.value + 1⟩, ⟨first.value + 2⟩, ⟨first.value + 3⟩]
    | none => []) ++ [forms.short, forms.long]

end SlotForms

namespace Opcode

def ofAccesses : List Opcode :=
  Access.all.flatMap fun access => access.argumentForms.opcodes ++ access.localForms.opcodes

def ofBranches : List Opcode :=
  BranchCondition.all.flatMap fun condition => [condition.longOpcode, condition.shortOpcode]

def ofFields : List Opcode :=
  FieldPlace.all.flatMap fun place => Access.all.map place.opcode

/-- The opcodes that are read as typed instructions. -/
def typed : List Opcode :=
  ofAccesses ++ ofBranches ++ ofFields ++ [call, callvirt, ret]

end Opcode

namespace SlotForms

variable {Target : Type} {forms : SlotForms} {opcode : Opcode}

theorem mem_of_within_four {first value : UInt16} (low : first ≤ value)
    (high : value < first + 4) : value ∈ [first, first + 1, first + 2, first + 3] := by
  rw [UInt16.le_iff_toNat_le] at low
  rw [UInt16.lt_iff_toNat_lt, UInt16.toNat_add] at high
  have firstBound := first.toNat_lt
  have four : (4 : UInt16).toNat = 4 := rfl
  simp only [List.mem_cons, List.not_mem_nil, or_false, ← UInt16.toNat_inj, UInt16.toNat_add,
    UInt16.toNat_ofNat]
  omega

theorem decode?_eq_none (other : opcode ∉ forms.opcodes) (operand : Operand Target) :
    forms.decode? opcode operand = none := by
  have notShort : opcode ≠ forms.short := by
    rintro rfl
    simp [opcodes] at other
  have notLong : opcode ≠ forms.long := by
    rintro rfl
    simp [opcodes] at other
  cases operand with
  | none =>
      cases compact : forms.compact? with
      | none => simp [decode?, compact]
      | some first =>
          simp only [decode?, compact, Option.bind_some]
          refine if_neg ?_
          rintro ⟨low, high⟩
          apply other
          rcases opcode with ⟨value⟩
          have member := mem_of_within_four low high
          simp only [List.mem_cons, List.not_mem_nil, or_false] at member
          simp only [opcodes, compact, List.mem_append, List.mem_cons, Opcode.mk.injEq]
          exact Or.inl (by
            rcases member with rfl | rfl | rfl | rfl <;> simp)
  | immediate value => cases value <;> simp [decode?, notShort, notLong]
  | _ => rfl

theorem encode_mem (forms : SlotForms) (index : UInt16) :
    (forms.encode index : Opcode × Operand Target).1 ∈ forms.opcodes := by
  unfold encode opcodes
  cases compact : forms.compact? with
  | none =>
      dsimp only
      split <;> simp
  | some first =>
      dsimp only
      split
      · rename_i small
        have member := mem_of_within_four UInt16.zero_le (by simpa using small)
        simp only [List.mem_cons, List.not_mem_nil, or_false] at member
        rcases member with rfl | rfl | rfl | rfl <;> simp
      · split <;> simp

theorem toUInt16_toUInt8 {index : UInt16} (small : index ≤ 0xFF) :
    index.toUInt8.toUInt16 = index := by
  rw [UInt16.le_iff_toNat_le] at small
  have bound : (0xFF : UInt16).toNat = 255 := rfl
  rw [← UInt16.toNat_inj, UInt8.toNat_toUInt16, UInt16.toNat_toUInt8]
  omega

def hasRoom (forms : SlotForms) : Bool :=
  forms.compact?.all fun first => decide (first.value < 0xFFFC)

theorem decode?_encode (room : forms.hasRoom = true) (index : UInt16) :
    let form : Opcode × Operand Target := forms.encode index
    forms.decode? form.1 form.2 = some index := by
  unfold encode
  cases compact : forms.compact? with
  | none =>
      dsimp only
      split
      · rename_i small
        simp [decode?, toUInt16_toUInt8 small]
      · simp [decode?]
  | some first =>
      dsimp only
      split
      · rename_i small
        have inRange : first.value ≤ first.value + index ∧
            first.value + index < first.value + 4 := by
          have bound : first.value < 0xFFFC := by simpa [hasRoom, compact] using room
          rw [UInt16.lt_iff_toNat_lt] at bound small ⊢
          rw [UInt16.le_iff_toNat_le, UInt16.toNat_add, UInt16.toNat_add]
          have limit : (0xFFFC : UInt16).toNat = 65532 := rfl
          have four : (4 : UInt16).toNat = 4 := rfl
          omega
        have difference : first.value + index - first.value = index := by
          rw [UInt16.add_comm, UInt16.add_sub_cancel]
        simp [decode?, compact, inRange, difference]
      · split
        · rename_i small
          simp [decode?, toUInt16_toUInt8 small]
        · simp [decode?]

end SlotForms

namespace Encoder

variable {Target : Type} {opcode : Opcode} {operand : Operand Target}

theorem checkRaw_eq_ok_iff :
    checkRaw opcode operand = .ok () ↔ ∃ info, opcode.info? = some info ∧
      operand.fits info.operand = true ∧ ∀ blob, operand ≠ .signature blob := by
  unfold checkRaw
  cases opcode.info? with
  | none => simp
  | some info =>
      cases fits : operand.fits info.operand with
      | false => simp [fits]
      | true => cases operand <;> simp [fits]

end Encoder

def Opcode.takes (opcode : Opcode) (kind : OperandKind) : Bool :=
  opcode.info?.any fun info => info.operand == kind

theorem Encoder.checkRaw_of_takes {Target : Type} {opcode : Opcode} {operand : Operand Target}
    {kind : OperandKind} (takes : opcode.takes kind = true) (fits : operand.fits kind = true)
    (noSignature : ∀ blob, operand ≠ .signature blob) : checkRaw opcode operand = .ok () := by
  cases known : opcode.info? with
  | none =>
      rw [Opcode.takes, known] at takes
      cases takes
  | some info =>
      rw [Opcode.takes, known] at takes
      have same : info.operand = kind := beq_iff_eq.mp takes
      exact checkRaw_eq_ok_iff.mpr ⟨info, known, same ▸ fits, noSignature⟩

namespace SlotForms

variable {Target : Type} {forms : SlotForms}

def areWritable (forms : SlotForms) : Bool :=
  (forms.compact?.all fun first =>
    [0, 1, 2, 3].all fun index => Opcode.takes ⟨first.value + index⟩ .none) &&
      forms.short.takes .uint8 && forms.long.takes .uint16

theorem checkRaw_encode (writable : forms.areWritable = true) (index : UInt16) :
    let form : Opcode × Operand Target := forms.encode index
    Encoder.checkRaw form.1 form.2 = .ok () := by
  obtain ⟨others, long⟩ := Bool.and_eq_true_iff.mp writable
  obtain ⟨compact, short⟩ := Bool.and_eq_true_iff.mp others
  unfold encode
  cases found : forms.compact? with
  | none =>
      dsimp only
      split
      · exact Encoder.checkRaw_of_takes short rfl nofun
      · exact Encoder.checkRaw_of_takes long rfl nofun
  | some first =>
      dsimp only
      split
      · rename_i small
        rw [found] at compact
        have member := mem_of_within_four UInt16.zero_le (by simpa using small)
        exact Encoder.checkRaw_of_takes (List.all_eq_true.mp compact index member) rfl nofun
      · split
        · exact Encoder.checkRaw_of_takes short rfl nofun
        · exact Encoder.checkRaw_of_takes long rfl nofun

end SlotForms

namespace Access

variable {Target : Type}

theorem areWritable_forms (access : Access) :
    access.argumentForms.areWritable = true ∧ access.localForms.areWritable = true := by
  cases access <;> decide +kernel

theorem mem_all (access : Access) : access ∈ all := by
  cases access <;> decide

def areApart (formsOf : Access → SlotForms) : Bool :=
  all.all fun access => (formsOf access).hasRoom &&
    all.all fun other => other == access ||
      (formsOf access).opcodes.all fun opcode => !(formsOf other).opcodes.contains opcode

theorem findSome?_encode {formsOf : Access → SlotForms} (apart : areApart formsOf = true)
    (access : Access) (index : UInt16) :
    let form : Opcode × Operand Target := (formsOf access).encode index
    (all.findSome? fun other =>
      ((formsOf other).decode? form.1 form.2).map fun index => (other, index)) =
        some (access, index) := by
  obtain ⟨room, others⟩ := Bool.and_eq_true_iff.mp (List.all_eq_true.mp apart access (mem_all access))
  have member := @SlotForms.encode_mem Target (formsOf access) index
  have read := @SlotForms.decode?_encode Target _ room index
  dsimp only at read ⊢
  generalize ((formsOf access).encode index : Opcode × Operand Target) = form at member read
  have none : ∀ other, other ≠ access → (formsOf other).decode? form.1 form.2 = none := by
    intro other different
    apply SlotForms.decode?_eq_none
    have disjoint := List.all_eq_true.mp others other (mem_all other)
    simp only [Bool.or_eq_true, beq_iff_eq, different, false_or] at disjoint
    simpa using List.all_eq_true.mp disjoint form.1 member
  cases access with
  | load => simp [all, read]
  | address => simp [all, read, none load nofun]
  | store => simp [all, read, none load nofun, none address nofun]

theorem findSome?_eq_none {formsOf : Access → SlotForms} {opcode : Opcode}
    (other : ∀ access, opcode ∉ (formsOf access).opcodes) (operand : Operand Target) :
    (all.findSome? fun access =>
      ((formsOf access).decode? opcode operand).map fun index => (access, index)) = none := by
  rw [List.findSome?_eq_none_iff]
  intro access _
  rw [SlotForms.decode?_eq_none (other access), Option.map_none]

theorem argumentAccess?_encode (access : Access) (index : UInt16) :
    let form : Opcode × Operand Target := access.argumentForms.encode index
    form.1.argumentAccess? form.2 = some (access, index) :=
  findSome?_encode (by decide +kernel) access index

theorem localAccess?_encode (access : Access) (index : UInt16) :
    let form : Opcode × Operand Target := access.localForms.encode index
    form.1.argumentAccess? form.2 = none ∧ form.1.localAccess? form.2 = some (access, index) := by
  refine ⟨?_, findSome?_encode (by decide +kernel) access index⟩
  apply findSome?_eq_none
  intro other
  have member := @SlotForms.encode_mem Target access.localForms index
  generalize (access.localForms.encode index : Opcode × Operand Target).1 = opcode at member ⊢
  revert opcode
  cases access <;> cases other <;> decide +kernel

end Access

namespace Opcode

variable {Target : Type} {opcode : Opcode}

theorem access?_eq_none (other : opcode ∉ ofAccesses) (operand : Operand Target) :
    opcode.argumentAccess? operand = none ∧ opcode.localAccess? operand = none := by
  constructor <;> apply Access.findSome?_eq_none <;> intro access member <;> apply other <;>
    refine List.mem_flatMap.mpr ⟨access, access.mem_all, ?_⟩
  · exact List.mem_append_left _ member
  · exact List.mem_append_right _ member

theorem fieldAccess?_opcode (place : FieldPlace) (access : Access) :
    (place.opcode access).fieldAccess? = some (place, access) := by
  cases place <;> cases access <;> decide

theorem ofOpcode?_eq_none (other : opcode ∉ ofBranches) :
    BranchCondition.ofOpcode? opcode = none := by
  unfold BranchCondition.ofOpcode?
  rw [List.find?_eq_none]
  intro condition _ same
  apply other
  refine List.mem_flatMap.mpr ⟨condition, condition.mem_all, ?_⟩
  simp only [Bool.or_eq_true, beq_iff_eq] at same
  rcases same with rfl | rfl <;> simp

theorem fieldAccess?_eq_none (other : opcode ∉ ofFields) : opcode.fieldAccess? = none := by
  unfold fieldAccess?
  rw [List.findSome?_eq_none_iff]
  intro place placeMember
  rw [Option.map_eq_none_iff, List.find?_eq_none]
  intro access _ same
  apply other
  refine List.mem_flatMap.mpr ⟨place, placeMember, ?_⟩
  rw [← beq_iff_eq.mp same]
  exact List.mem_map_of_mem access.mem_all

end Opcode

namespace BodyReader

variable {reader : BodyReader} {opcode : Opcode}

attribute [local simp] lift

theorem lift_of_untyped (untyped : opcode ∉ Opcode.typed) (operand : Operand Nat) :
    reader.lift opcode operand = .ok (.raw opcode operand) := by
  simp only [Opcode.typed, List.mem_append, not_or, List.mem_cons, List.not_mem_nil, or_false]
    at untyped
  rcases untyped with ⟨⟨⟨noAccess, noBranch⟩, noField⟩, noCall, noVirtualCall, noReturn⟩
  obtain ⟨noArgument, noLocal⟩ := Opcode.access?_eq_none noAccess operand
  unfold lift
  rw [noArgument, noLocal]
  cases operand <;>
    simp [Opcode.ofOpcode?_eq_none noBranch, Opcode.fieldAccess?_eq_none noField, noCall,
      noVirtualCall, noReturn]

theorem lift_branch {condition : BranchCondition} (target : Nat)
    (isBranch : BranchCondition.ofOpcode? opcode = some condition) :
    reader.lift opcode (.label target) = .ok (.branch condition target) := by
  have noArgument : opcode.argumentAccess? (.label target) = none := rfl
  have noLocal : opcode.localAccess? (.label target) = none := rfl
  simp only [lift, noArgument, noLocal, isBranch]

theorem lift_field (place : FieldPlace) (access : Access) (field : Field) :
    reader.lift (place.opcode access) (.field field) = .ok (.field place access field) := by
  have noArgument : (place.opcode access).argumentAccess? (.field field : Operand Nat) = none := rfl
  have noLocal : (place.opcode access).localAccess? (.field field : Operand Nat) = none := rfl
  simp only [lift, noArgument, noLocal, Opcode.fieldAccess?_opcode]

theorem lift_call (method : Method) :
    reader.lift method.callOpcode (.method method) = .ok (.call method) := by
  have noArgument : method.callOpcode.argumentAccess? (.method method : Operand Nat) = none := rfl
  have noLocal : method.callOpcode.localAccess? (.method method : Operand Nat) = none := rfl
  have direct : method.callOpcode = Opcode.call ∨ method.callOpcode = Opcode.callvirt := by
    unfold Method.callOpcode
    split
    · exact Or.inl rfl
    · exact Or.inr rfl
  simp only [lift, noArgument, noLocal, if_pos direct]

theorem lift_ret : reader.lift Opcode.ret .none = .ok .ret := by
  obtain ⟨noArgument, noLocal⟩ :=
    @Opcode.access?_eq_none Nat Opcode.ret (by decide +kernel) .none
  simp only [lift, noArgument, noLocal, if_true]

theorem lift_argument (access : Access) (index : UInt16) :
    let form : Opcode × Operand Nat := access.argumentForms.encode index
    reader.lift form.1 form.2 = .ok (.argument access index) := by
  have read := @Access.argumentAccess?_encode Nat access index
  dsimp only at read ⊢
  simp only [lift, read]

theorem lift_local {slot : Local} (access : Access) (index : UInt16)
    (found : reader.locals[index.toNat]? = some slot) :
    let form : Opcode × Operand Nat := access.localForms.encode index
    reader.lift form.1 form.2 = .ok (.localSlot access slot) := by
  rcases @Access.localAccess?_encode Nat access index with ⟨noArgument, read⟩
  dsimp only at noArgument read ⊢
  simp only [lift, noArgument, read, local?, found, Except.map]

end BodyReader
end CilTemplate
