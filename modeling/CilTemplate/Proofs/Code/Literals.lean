import CilTemplate.Capture.Value
import CilTemplate.Proofs.Code.Constants
import CilTemplate.Proofs.Code.TypedForms

/-
Instructions for literals.  A literal is loaded by one raw instruction that
takes nothing from the stack and goes nowhere else, and what it loads is the
value itself: a small number extended by its sign, and a long number, a
floating-point number and a string as they are.
-/

namespace CilTemplate

/-- The number that a value of at most four bytes is loaded as.  An unsigned
number of four bytes is counted around zero. -/
def CapturedValue.number? : CapturedValue → Option Int
  | bool value => some (if value then 1 else 0)
  | char unit => some unit.toNat
  | int8 value => some value.toInt
  | uint8 value => some value.toNat
  | int16 value => some value.toInt
  | uint16 value => some value.toNat
  | int32 value => some value.toInt
  | uint32 value => some (Int.bmod value.toNat 0x100000000)
  | _ => none

/-- The instruction loads just the value. -/
def Instruction.LoadsValue (instruction : Instruction Label) : CapturedValue → Prop
  | .null => instruction = .raw Opcode.ldnull .none
  | .int64 value => ∃ loaded : Int64,
      instruction = .raw Opcode.ldcI8 (.immediate (.int64 loaded)) ∧
        loaded.toBitVec = value.toBitVec
  | .uint64 value => ∃ loaded : Int64,
      instruction = .raw Opcode.ldcI8 (.immediate (.int64 loaded)) ∧
        loaded.toBitVec = value.toBitVec
  | .float32 bits => instruction = .raw Opcode.ldcR4 (.immediate (.float32 bits))
  | .float64 bits => instruction = .raw Opcode.ldcR8 (.immediate (.float64 bits))
  | .string text => instruction = .raw Opcode.ldstr (.string text)
  | value => ∃ constant : Int32, instruction.int32Constant? = some constant ∧
      value.number? = some constant.toInt

section Values

variable {value : CapturedValue} {instruction : Instruction Label}

theorem toInt_toInt32_of_lt {number : UInt32} (small : number.toNat < 0x80000000) :
    number.toInt32.toInt = number.toNat := by
  have counted : number.toInt32.toInt = Int.bmod number.toNat 0x100000000 :=
    BitVec.toInt_eq_toNat_bmod _
  rw [counted, Int.bmod_eq_of_le (by omega) (by omega)]

theorem CapturedValue.exists_constant (literal : value.literal? = some instruction) {number : Int}
    (isNumber : value.number? = some number) :
    ∃ constant : Int32, instruction = .loadInt32 constant ∧ constant.toInt = number := by
  cases value with
  | bool value =>
      cases literal
      cases isNumber
      exact ⟨_, rfl, by cases value <;> rfl⟩
  | uint8 value =>
      cases literal
      cases isNumber
      have bound := value.toNat_lt
      exact ⟨_, rfl, toInt_toInt32_of_lt (by rw [UInt8.toNat_toUInt32]; omega)⟩
  | char value | uint16 value =>
      cases literal
      cases isNumber
      have bound := value.toNat_lt
      exact ⟨_, rfl, toInt_toInt32_of_lt (by rw [UInt16.toNat_toUInt32]; omega)⟩
  | int8 value | int16 value =>
      cases literal
      cases isNumber
      exact ⟨_, rfl, value.toInt_toInt32⟩
  | int32 value =>
      cases literal
      cases isNumber
      exact ⟨_, rfl, rfl⟩
  | uint32 value =>
      cases literal
      exact ⟨_, rfl, (BitVec.toInt_eq_toNat_bmod _).trans (Option.some.inj isNumber)⟩
  | _ => cases isNumber

theorem Instruction.loadsValue_of_literal (literal : value.literal? = some instruction) :
    instruction.LoadsValue value := by
  cases value with
  | null | float32 | float64 | string =>
      cases literal
      rfl
  | int64 value =>
      cases literal
      exact ⟨value, rfl, rfl⟩
  | uint64 value =>
      cases literal
      exact ⟨value.toInt64, rfl, rfl⟩
  | member | delegate | object => cases literal
  | _ =>
      obtain ⟨constant, rfl, same⟩ := CapturedValue.exists_constant literal rfl
      exact ⟨constant, int32Constant?_loadInt32 constant, congrArg some same.symm⟩

end Values

/-- The opcode brings one value with it, and no typed instruction stands for
it. -/
structure Opcode.Brings (opcode : Opcode) (kind : OperandKind) : Prop where
  info : ∃ mnemonic, opcode.info? = some ⟨mnemonic, kind, .fixed 0, .fixed 1, .sequential⟩
  untyped : opcode ∉ Opcode.typed

theorem Opcode.Brings.ne_calli {opcode : Opcode} {kind : OperandKind}
    (brings : opcode.Brings kind) : opcode ≠ Opcode.calli := by
  obtain ⟨mnemonic, known⟩ := brings.info
  have dynamic : Opcode.calli.info?.map OpcodeInfo.pops = some .dynamic := rfl
  rintro rfl
  rw [known] at dynamic
  cases dynamic

theorem Opcode.Brings.argumentAccess? {Target : Type} {opcode : Opcode} {kind : OperandKind}
    (brings : opcode.Brings kind) (operand : Operand Target) :
    opcode.argumentAccess? operand = none := by
  have noAccess : opcode ∉ Opcode.ofAccesses := fun member =>
    brings.untyped (List.mem_append_left _ (List.mem_append_left _ (List.mem_append_left _ member)))
  exact (Opcode.access?_eq_none noAccess operand).1

/-- An operand that stands for itself wherever it is written. -/
inductive Operand.IsLiteral {Target : Type} : OperandKind → Operand Target → Prop
  | none : IsLiteral .none .none
  | immediate (value : Immediate) : IsLiteral value.kind (.immediate value)
  | string (text : String) : IsLiteral .string (.string text)

theorem ConstantForm.brings (form : ConstantForm) : form.opcode.Brings form.kind := by
  have digits : ∀ number : Fin 9, (ConstantForm.digit number).opcode ∉ Opcode.typed := by
    decide +kernel
  have others : ∀ opcode ∈ [Opcode.ldcI4M1, Opcode.ldcI4S, Opcode.ldcI4],
      opcode ∉ Opcode.typed := by
    decide +kernel
  refine ⟨form.info?_opcode, ?_⟩
  cases form with
  | digit number => exact digits number
  | minusOne | short | long => exact others _ (by simp [opcode])

theorem ConstantForm.isLiteral {Target : Type} (form : ConstantForm) :
    (form.operand : Operand Target).IsLiteral form.kind := by
  cases form with
  | minusOne | digit => exact .none
  | short number => exact .immediate (.int8 number)
  | long number => exact .immediate (.int32 number)

theorem CapturedValue.exists_operand {value : CapturedValue} {instruction : Instruction Label}
    (literal : value.literal? = some instruction) : ∃ opcode operand kind,
      instruction = .raw opcode operand ∧ opcode.Brings kind ∧ operand.IsLiteral kind := by
  have others : ∀ opcode ∈ [Opcode.ldnull, Opcode.ldcI8, Opcode.ldcR4, Opcode.ldcR8, Opcode.ldstr],
      opcode ∉ Opcode.typed := by
    decide +kernel
  cases value with
  | null =>
      cases literal
      exact ⟨_, _, _, rfl, ⟨⟨_, rfl⟩, others _ (by simp)⟩, .none⟩
  | int64 | uint64 | float32 | float64 =>
      cases literal
      refine ⟨_, _, _, rfl, ?_, .immediate _⟩
      exact ⟨⟨_, rfl⟩, others _ (by simp)⟩
  | string text =>
      cases literal
      exact ⟨_, _, _, rfl, ⟨⟨_, rfl⟩, others _ (by simp)⟩, .string text⟩
  | member | delegate | object => cases literal
  | _ =>
      obtain ⟨constant, rfl, _⟩ := CapturedValue.exists_constant literal rfl
      obtain ⟨form, same, _⟩ := @ConstantForm.exists_smallest Label constant
      exact ⟨_, _, _, same, form.brings, form.isLiteral⟩

theorem Operand.IsLiteral.targets {Target : Type} {operand : Operand Target} {kind : OperandKind}
    (isLiteral : operand.IsLiteral kind) : operand.targets = [] := by
  cases isLiteral <;> rfl

theorem Operand.IsLiteral.mapTargets {Target Renamed : Type} {operand : Operand Target}
    {kind : OperandKind} (isLiteral : operand.IsLiteral kind) (rename : Target → Renamed) :
    (operand.mapTargets rename).IsLiteral kind := by
  cases isLiteral with
  | none => exact .none
  | immediate value => exact .immediate value
  | string text => exact .string text

namespace Encoder

theorem checkRaw_of_isLiteral {Target : Type} {opcode : Opcode} {operand : Operand Target}
    {kind : OperandKind} (brings : opcode.Brings kind) (isLiteral : operand.IsLiteral kind) :
    checkRaw opcode operand = .ok () := by
  obtain ⟨mnemonic, known⟩ := brings.info
  cases isLiteral <;> simp [checkRaw, known, Operand.fits]

end Encoder
end CilTemplate
