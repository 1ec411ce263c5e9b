import CilTemplate.Code.Opcode

/-
All opcodes that have an entry in the instruction table, as a list, so that a
fact about each of them can be computed.
-/

namespace CilTemplate
namespace Opcode

def entries (opcodeOf : UInt8 → Opcode) (table : List (Option OpcodeInfo)) :
    List (Opcode × OpcodeInfo) :=
  table.zipIdx.filterMap fun (info?, code) =>
    info?.map fun info => (opcodeOf (UInt8.ofNat code), info)

def known : List (Opcode × OpcodeInfo) :=
  entries ofByte OpcodeTable.oneByte ++ entries ofExtended OpcodeTable.extended

theorem mem_entries {opcodeOf : UInt8 → Opcode} {table : List (Option OpcodeInfo)}
    {code : UInt8} {info : OpcodeInfo} (found : table[code.toNat]?.join = some info) :
    (opcodeOf code, info) ∈ entries opcodeOf table := by
  have member : (some info, code.toNat) ∈ table.zipIdx :=
    List.mk_mem_zipIdx_iff_getElem?.mpr (Option.join_eq_some_iff.mp found)
  refine List.mem_filterMap.mpr ⟨_, member, ?_⟩
  simp only [Option.map_some, UInt8.ofNat_toNat]

theorem eq_ofByte_or_eq_ofExtended {opcode : Opcode} {info : OpcodeInfo}
    (found : opcode.info? = some info) :
    opcode = ofByte opcode.code ∧ opcode.bytes = [opcode.code] ∨
      opcode = ofExtended opcode.code ∧ opcode.bytes = [extensionByte, opcode.code] := by
  rcases opcode with ⟨value⟩
  unfold info? at found
  by_cases extended : isExtended ⟨value⟩ = true
  · rw [if_pos extended] at found
    refine Or.inr ⟨?_, by rw [bytes, if_pos extended]⟩
    split at found
    · rename_i high
      simp only [beq_iff_eq] at high
      simp only [ofExtended, code, mk.injEq]
      have highNat : value.toNat / 256 = 0xFE := by
        have equal := congrArg UInt16.toNat high
        simpa [Nat.shiftRight_eq_div_pow] using equal
      have joined : 2 ^ 8 * 0xFE + value.toNat % 256 = 2 ^ 8 * 0xFE ||| value.toNat % 256 :=
        Nat.two_pow_add_eq_or_of_lt (Nat.mod_lt _ (by decide)) _
      apply UInt16.toNat_inj.mp
      simp only [UInt16.toNat_or, UInt8.toNat_toUInt16, UInt16.toNat_toUInt8]
      change value.toNat = 2 ^ 8 * 0xFE ||| value.toNat % 256
      omega
    · cases found
  · refine Or.inl ⟨?_, by rw [bytes, if_neg extended]⟩
    simp only [isExtended, decide_eq_true_eq, UInt16.lt_iff_toNat_lt] at extended
    simp only [ofByte, code, mk.injEq]
    apply UInt16.toNat_inj.mp
    simp only [UInt8.toNat_toUInt16, UInt16.toNat_toUInt8]
    change ¬ 255 < value.toNat at extended
    omega

theorem mem_known_of_info? {opcode : Opcode} {info : OpcodeInfo}
    (found : opcode.info? = some info) : (opcode, info) ∈ known := by
  have sameCode := eq_ofByte_or_eq_ofExtended found
  unfold info? at found
  split at found
  · rename_i extended
    split at found
    · have same : opcode = ofExtended opcode.code := by
        rcases sameCode with ⟨_, short⟩ | ⟨same, _⟩
        · rw [bytes, if_pos extended] at short
          simp at short
        · exact same
      have member : (ofExtended opcode.code, info) ∈ entries ofExtended OpcodeTable.extended :=
        mem_entries found
      rw [← same] at member
      exact List.mem_append_right _ member
    · cases found
  · rename_i short
    have same : opcode = ofByte opcode.code := by
      rcases sameCode with ⟨same, _⟩ | ⟨_, long⟩
      · exact same
      · rw [bytes, if_neg short] at long
        simp at long
    have member : (ofByte opcode.code, info) ∈ entries ofByte OpcodeTable.oneByte :=
      mem_entries found
    rw [← same] at member
    exact List.mem_append_left _ member

end Opcode
end CilTemplate
