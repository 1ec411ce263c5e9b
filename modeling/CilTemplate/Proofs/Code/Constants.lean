import CilTemplate.Code.Instruction

/-
Constants of four bytes.  There are several forms in which a number can be
loaded, and most numbers have more than one.  The form that is chosen for a
number is a smallest one that loads it.
-/

namespace CilTemplate

/-- An instruction that loads a number of four bytes. -/
inductive ConstantForm
  | minusOne
  | digit (number : Fin 9)
  | short (number : Int8)
  | long (number : Int32)

namespace ConstantForm

variable {Target : Type}

def value : ConstantForm → Int32
  | minusOne => -1
  | digit number => Int32.ofNat number
  | short number => number.toInt32
  | long number => number

def opcode : ConstantForm → Opcode
  | minusOne => Opcode.ldcI4M1
  | digit number => ⟨Opcode.ldcI40.value + UInt16.ofNat number⟩
  | short _ => Opcode.ldcI4S
  | long _ => Opcode.ldcI4

def operand : ConstantForm → Operand Target
  | minusOne | digit _ => .none
  | short number => .immediate (.int8 number)
  | long number => .immediate (.int32 number)

def instruction (form : ConstantForm) : Instruction Target :=
  .raw form.opcode form.operand

def kind : ConstantForm → OperandKind
  | minusOne | digit _ => .none
  | short _ => .int8
  | long _ => .int32

def size : ConstantForm → Nat
  | minusOne | digit _ => 1
  | short _ => 2
  | long _ => 5

theorem info?_opcode (form : ConstantForm) : ∃ mnemonic,
    form.opcode.info? = some ⟨mnemonic, form.kind, .fixed 0, .fixed 1, .sequential⟩ := by
  cases form with
  | digit number =>
      have digits : ∀ number : Fin 9, (digit number).opcode.info? =
          some ⟨(digit number).opcode.mnemonic, .none, .fixed 0, .fixed 1, .sequential⟩ := by
        decide
      exact ⟨_, digits number⟩
  | minusOne | short | long => exact ⟨_, rfl⟩

theorem length_bytes_opcode (form : ConstantForm) : form.opcode.bytes.length = 1 := by
  cases form with
  | digit number =>
      revert number
      decide
  | minusOne | short | long => rfl

theorem int32Constant?_instruction (form : ConstantForm) :
    (form.instruction : Instruction Target).int32Constant? = some form.value := by
  cases form with
  | digit number =>
      simp only [instruction, opcode, operand, value, Instruction.int32Constant?]
      revert number
      decide
  | minusOne | short | long =>
      simp [instruction, opcode, operand, value, Instruction.int32Constant?]

theorem exists_digit {number : Int32} (small : 0 ≤ number ∧ number ≤ 8) :
    ∃ digit : Fin 9, number = Int32.ofNat digit := by
  obtain ⟨low, high⟩ := small
  rw [Int32.le_iff_toInt_le] at low high
  change 0 ≤ number.toInt at low
  change number.toInt ≤ 8 at high
  refine ⟨⟨number.toInt.toNat, by omega⟩, ?_⟩
  apply Int32.toInt_inj.mp
  rw [Int32.toInt_ofNat_of_lt (by dsimp only; omega), Int.toNat_of_nonneg low]

theorem exists_digit_of_opcode {found : Opcode} (inside : Opcode.ldcI40.value ≤ found.value ∧
    found.value ≤ Opcode.ldcI40.value + 8) : ∃ number, found = (digit number).opcode := by
  obtain ⟨low, high⟩ := inside
  rw [UInt16.le_iff_toNat_le] at low high
  change 0x16 ≤ found.value.toNat at low
  change found.value.toNat ≤ 0x1E at high
  refine ⟨⟨found.value.toNat - 0x16, by omega⟩, congrArg Opcode.mk (UInt16.toNat_inj.mp ?_)⟩
  rw [UInt16.toNat_add, UInt16.toNat_ofNat']
  change _ = (0x16 + _) % _
  dsimp only
  omega

theorem exists_form {instruction : Instruction Target} {constant : Int32}
    (loads : instruction.int32Constant? = some constant) :
    ∃ form : ConstantForm, instruction = form.instruction ∧ form.value = constant := by
  have isForm : ∃ form : ConstantForm, instruction = form.instruction := by
    unfold Instruction.int32Constant? at loads
    split at loads
    · split at loads
      · rename_i same
        exact ⟨minusOne, congrArg (Instruction.raw · .none) same⟩
      · split at loads
        · rename_i inside
          obtain ⟨number, same⟩ := exists_digit_of_opcode inside
          exact ⟨digit number, congrArg (Instruction.raw · .none) same⟩
        · cases loads
    · split at loads
      · rename_i same
        exact ⟨short _, congrArg (Instruction.raw · (.immediate (.int8 _))) same⟩
      · cases loads
    · split at loads
      · rename_i same
        exact ⟨long _, congrArg (Instruction.raw · (.immediate (.int32 _))) same⟩
      · cases loads
    · cases loads
  obtain ⟨form, rfl⟩ := isForm
  rw [int32Constant?_instruction] at loads
  exact ⟨form, rfl, Option.some.inj loads⟩

section Sizes

variable (form : ConstantForm)

theorem one_le_size : 1 ≤ form.size := by
  cases form with
  | minusOne | digit => exact Nat.le_refl 1
  | short => exact (by decide : 1 ≤ 2)
  | long => exact (by decide : 1 ≤ 5)

theorem two_le_size (large : ¬(-1 ≤ form.value.toInt ∧ form.value.toInt ≤ 8)) : 2 ≤ form.size := by
  have digits : ∀ number : Fin 9, -1 ≤ (Int32.ofNat number).toInt ∧
      (Int32.ofNat number).toInt ≤ 8 := by
    decide
  cases form with
  | minusOne => exact absurd (by decide) large
  | digit number => exact absurd (digits number) large
  | short => exact Nat.le_refl 2
  | long => exact (by decide : 2 ≤ 5)

theorem five_le_size (large : ¬(-128 ≤ form.value.toInt ∧ form.value.toInt ≤ 127)) :
    5 ≤ form.size := by
  have digits : ∀ number : Fin 9, -128 ≤ (Int32.ofNat number).toInt ∧
      (Int32.ofNat number).toInt ≤ 127 := by
    decide
  cases form with
  | minusOne => exact absurd (by decide) large
  | digit number => exact absurd (digits number) large
  | short number =>
      rw [value, Int8.toInt_toInt32] at large
      exact absurd ⟨number.le_toInt, Int.lt_add_one_iff.mp number.toInt_lt⟩ large
  | long => exact Nat.le_refl 5

end Sizes

section Choice

variable {number : Int32}

theorem toInt32_toInt8 (narrow : -128 ≤ number ∧ number ≤ 127) :
    number.toInt8.toInt32 = number := by
  obtain ⟨low, high⟩ := narrow
  rw [Int32.le_iff_toInt_le] at low high
  change -128 ≤ number.toInt at low
  change number.toInt ≤ 127 at high
  apply Int32.toInt_inj.mp
  rw [Int8.toInt_toInt32, Int32.toInt_toInt8, Int.bmod_eq_of_le (by omega) (by omega)]

theorem not_digit (notMinusOne : number ≠ -1) (large : ¬(0 ≤ number ∧ number ≤ 8)) :
    ¬(-1 ≤ number.toInt ∧ number.toInt ≤ 8) := by
  rintro ⟨low, high⟩
  have different : number.toInt ≠ -1 := fun same => notMinusOne (Int32.toInt_inj.mp same)
  have nonnegative : (0 : Int) ≤ number.toInt := by omega
  exact large ⟨Int32.le_iff_toInt_le.mpr nonnegative, Int32.le_iff_toInt_le.mpr high⟩

end Choice

theorem exists_smallest (number : Int32) :
    ∃ form : ConstantForm, Instruction.loadInt32 number = (form.instruction : Instruction Target) ∧
      form.value = number ∧
      ∀ other : ConstantForm, other.value = number → form.size ≤ other.size := by
  have digits : ∀ digit : Fin 9, (ConstantForm.digit digit).opcode =
      ⟨Opcode.ldcI40.value + (Int32.ofNat digit).toUInt32.toUInt16⟩ := by
    decide
  unfold Instruction.loadInt32
  split
  · rename_i same
    exact ⟨minusOne, rfl, same.symm, fun other _ => other.one_le_size⟩
  · rename_i notMinusOne
    split
    · rename_i small
      obtain ⟨digit, rfl⟩ := exists_digit small
      exact ⟨.digit digit, congrArg (Instruction.raw · .none) (digits digit).symm, rfl,
        fun other _ => other.one_le_size⟩
    · rename_i large
      split
      · rename_i narrow
        refine ⟨short number.toInt8, rfl, toInt32_toInt8 narrow, ?_⟩
        rintro other rfl
        exact other.two_le_size (not_digit notMinusOne large)
      · rename_i wide
        refine ⟨long number, rfl, rfl, ?_⟩
        rintro other rfl
        apply other.five_le_size
        rintro ⟨low, high⟩
        exact wide ⟨Int32.le_iff_toInt_le.mpr low, Int32.le_iff_toInt_le.mpr high⟩

end ConstantForm

theorem Instruction.int32Constant?_loadInt32 {Target : Type} (number : Int32) :
    (loadInt32 number : Instruction Target).int32Constant? = some number := by
  obtain ⟨form, same, loads, _⟩ := @ConstantForm.exists_smallest Target number
  rw [same, form.int32Constant?_instruction, loads]

end CilTemplate
