import CilTemplate.Bytes.Cursor

/-
Reading back what stands at a place among other bytes.
-/

namespace CilTemplate

open CilTemplate.Action

def StandsAt (code : List UInt8) (position : Nat) (bytes : List UInt8) : Prop :=
  ∃ front back, code = front ++ bytes ++ back ∧ front.length = position

namespace StandsAt

variable {code left right : List UInt8} {position : Nat}

theorem append_left (stands : StandsAt code position (left ++ right)) :
    StandsAt code position left := by
  rcases stands with ⟨front, back, split, length⟩
  exact ⟨front, right ++ back, by rw [split]; simp, length⟩

theorem append_right (stands : StandsAt code position (left ++ right)) :
    StandsAt code (position + left.length) right := by
  rcases stands with ⟨front, back, split, length⟩
  exact ⟨front ++ left, back, by rw [split]; simp, by rw [List.length_append, length]⟩

theorem le_length (stands : StandsAt code position left) :
    position + left.length ≤ code.length := by
  rcases stands with ⟨front, back, split, length⟩
  rw [split, List.length_append, List.length_append, length]
  exact Nat.le_add_right _ _

theorem take_drop (stands : StandsAt code position left) :
    (code.drop position).take left.length = left := by
  rcases stands with ⟨front, back, split, length⟩
  rw [split, ← length, List.append_assoc, List.drop_left, List.take_left]

end StandsAt

namespace LittleEndian

theorem capacity_pos (width : Nat) : 0 < capacity width := by
  induction width with
  | zero => exact Nat.one_pos
  | succ width inductionHypothesis => exact Nat.mul_pos (by decide) inductionHypothesis

theorem ofBytes_lt (bytes : List UInt8) : ofBytes bytes < capacity bytes.length := by
  have reduced := ofBytes_toBytes bytes.length (ofBytes bytes)
  rw [toBytes_ofBytes] at reduced
  rw [reduced]
  exact Nat.mod_lt _ (capacity_pos _)

end LittleEndian

namespace ScalarType

theorem decode_encode {width : Nat} {number : Int}
    (low : -(LittleEndian.capacity width : Int) ≤ 2 * number)
    (high : 2 * number < LittleEndian.capacity width) :
    decode ⟨width, true⟩ (encode ⟨width, true⟩ number) = number := by
  have positive : (0 : Int) < LittleEndian.capacity width := by omega
  have nonneg := Int.emod_nonneg number (Int.ne_of_gt positive)
  simp only [decode, encode, if_true, Int.toNat_of_nonneg nonneg, Int.emod_bmod]
  apply Int.bmod_eq_of_le_mul_two
  · omega
  · omega

theorem encode_lt {scalar : ScalarType} (number : Int) :
    scalar.encode number < LittleEndian.capacity scalar.width := by
  have positive := LittleEndian.capacity_pos scalar.width
  have below := Int.emod_lt_of_pos number (Int.ofNat_lt.mpr positive)
  have nonneg := Int.emod_nonneg number (Int.ne_of_gt (Int.ofNat_lt.mpr positive))
  unfold encode
  omega

theorem encode_decode {width encoding : Nat} (small : encoding < LittleEndian.capacity width) :
    encode ⟨width, true⟩ (decode ⟨width, true⟩ encoding) = encoding := by
  simp only [encode, decode, if_true, Int.bmod_emod]
  rw [Int.emod_eq_of_lt (Int.natCast_nonneg _) (Int.ofNat_lt.mpr small), Int.toNat_natCast]

theorem decode_range {width : Nat} (encoding : Nat) (positive : 0 < width) :
    -(LittleEndian.capacity width : Int) ≤ 2 * decode ⟨width, true⟩ encoding ∧
      2 * decode ⟨width, true⟩ encoding < LittleEndian.capacity width := by
  have room := LittleEndian.capacity_pos width
  have low := @Int.le_bmod encoding _ room
  have high := @Int.bmod_lt encoding _ room
  have even : 2 ∣ LittleEndian.capacity width := by
    cases width with
    | zero => cases positive
    | succ width => exact Nat.dvd_mul_right_of_dvd (by decide : 2 ∣ 256) _
  simp only [decode, if_true]
  omega

end ScalarType

namespace Cursor

def within (code : List UInt8) (position : Nat) : Cursor UInt8 :=
  ⟨code.toArray, 0, position⟩

variable {code : List UInt8} {position width : Nat}

theorem run_readNumber {number : Nat}
    (stands : StandsAt code position (LittleEndian.toBytes width number))
    (small : number < LittleEndian.capacity width) :
    run (readNumber width) (within code position) =
      (.ok number, within code (position + width)) := by
  have fits := stands.le_length
  have bytes := stands.take_drop
  rw [LittleEndian.length_toBytes] at fits bytes
  have read : LittleEndian.readAt width code.toArray position = .ok (number, position + width) := by
    rw [LittleEndian.readAt_toArray, if_neg (Nat.not_lt.mpr fits), bytes,
      LittleEndian.ofBytes_toBytes, Nat.mod_eq_of_lt small]
  simp only [readNumber, run_bind, run_get, within, run_ofExcept, read, run_set, run_pure]

theorem standsAt_take_drop {count : Nat} (fits : position + count ≤ code.length) :
    StandsAt code position ((code.drop position).take count) := by
  refine ⟨code.take position, code.drop (position + count), ?_, ?_⟩
  · rw [← List.drop_drop, List.append_assoc, List.take_append_drop, List.take_append_drop]
  · rw [List.length_take]
    omega

theorem readNumber_eq_ok {number : Nat} {after : Cursor UInt8}
    (done : run (readNumber width) (within code position) = (.ok number, after)) :
    StandsAt code position (LittleEndian.toBytes width number) ∧
      number < LittleEndian.capacity width ∧ after = within code (position + width) := by
  obtain ⟨cursor, before, found, rest⟩ := run_bind_eq_ok.mp done
  obtain ⟨⟨⟩, ⟨⟩⟩ := Prod.mk.inj found
  obtain ⟨⟨read, stop⟩, unchanged, reading, rest⟩ := run_bind_eq_ok.mp rest
  obtain ⟨outcome, rfl⟩ := Prod.mk.inj reading
  change LittleEndian.readAt width code.toArray position = _ at outcome
  rw [LittleEndian.readAt_toArray] at outcome
  split at outcome
  · cases outcome
  · rename_i fits
    obtain ⟨rfl, rfl⟩ := Prod.mk.inj (Except.ok.inj outcome)
    obtain ⟨same, rfl⟩ := Prod.mk.inj rest
    rw [← Except.ok.inj same]
    have length : ((code.drop position).take width).length = width := by
      rw [List.length_take, List.length_drop]
      omega
    have stands := standsAt_take_drop (Nat.not_lt.mp fits)
    have bytes := LittleEndian.toBytes_ofBytes ((code.drop position).take width)
    have small := LittleEndian.ofBytes_lt ((code.drop position).take width)
    rw [length] at bytes small
    rw [bytes]
    exact ⟨stands, small, rfl⟩

theorem run_readScalar {number : Int}
    (stands : StandsAt code position
      (LittleEndian.toBytes width (ScalarType.encode ⟨width, true⟩ number)))
    (low : -(LittleEndian.capacity width : Int) ≤ 2 * number)
    (high : 2 * number < LittleEndian.capacity width) :
    run (readScalar ⟨width, true⟩) (within code position) =
      (.ok number, within code (position + width)) := by
  have read := run_readNumber stands (ScalarType.encode_lt number)
  simp only [readScalar, run_bind, read, run_pure, ScalarType.decode_encode low high]

theorem readScalar_eq_ok {number : Int} {after : Cursor UInt8} (positive : 0 < width)
    (done : run (readScalar ⟨width, true⟩) (within code position) = (.ok number, after)) :
    StandsAt code position
        (LittleEndian.toBytes width (ScalarType.encode ⟨width, true⟩ number)) ∧
      -(LittleEndian.capacity width : Int) ≤ 2 * number ∧
      2 * number < LittleEndian.capacity width ∧ after = within code (position + width) := by
  obtain ⟨encoding, behind, reading, rest⟩ := run_bind_eq_ok.mp done
  obtain ⟨same, rfl⟩ := Prod.mk.inj rest
  rw [← Except.ok.inj same]
  rcases readNumber_eq_ok reading with ⟨stands, small, after⟩
  rcases ScalarType.decode_range encoding positive with ⟨low, high⟩
  rw [ScalarType.encode_decode small]
  exact ⟨stands, low, high, after⟩

end Cursor
end CilTemplate
