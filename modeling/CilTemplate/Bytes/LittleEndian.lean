import CilTemplate.Error

/-
Numbers as little-endian bytes, read and written at a place among other bytes.
-/

namespace CilTemplate
namespace LittleEndian

def capacity : Nat → Nat
  | 0 => 1
  | width + 1 => 256 * capacity width

def toBytes : Nat → Nat → List UInt8
  | 0, _ => []
  | width + 1, number => UInt8.ofNat number :: toBytes width (number / 256)

def ofBytes : List UInt8 → Nat
  | [] => 0
  | byte :: rest => byte.toNat + 256 * ofBytes rest

theorem length_toBytes (width number : Nat) : (toBytes width number).length = width := by
  induction width generalizing number with
  | zero => rfl
  | succ width inductionHypothesis =>
      simp only [toBytes, List.length_cons, inductionHypothesis]

theorem ofBytes_toBytes (width number : Nat) :
    ofBytes (toBytes width number) = number % capacity width := by
  induction width generalizing number with
  | zero => simp [toBytes, ofBytes, capacity, Nat.mod_one]
  | succ width inductionHypothesis =>
      have low : (UInt8.ofNat number).toNat = number % 256 := UInt8.toNat_ofNat'
      rw [toBytes, ofBytes, capacity, inductionHypothesis, low, Nat.mod_mul]

theorem toBytes_ofBytes (bytes : List UInt8) :
    toBytes bytes.length (ofBytes bytes) = bytes := by
  induction bytes with
  | nil => rfl
  | cons byte rest inductionHypothesis =>
      have byteBound : byte.toNat < 256 := byte.toNat_lt
      have quotient : (byte.toNat + 256 * ofBytes rest) / 256 = ofBytes rest := by omega
      have low : UInt8.ofNat (byte.toNat + 256 * ofBytes rest) = byte := by
        apply UInt8.toNat_inj.mp
        rw [UInt8.toNat_ofNat']
        omega
      rw [List.length_cons, toBytes, ofBytes, quotient, low, inductionHypothesis]

def readAt (width : Nat) (bytes : Array UInt8) (offset : Nat) : Except Error (Nat × Nat) :=
  let stop := offset + width
  if bytes.size < stop then .error .outOfBounds
  else .ok (ofBytes (bytes.extract offset stop).toList, stop)

theorem readAt_toArray (width : Nat) (bytes : List UInt8) (offset : Nat) :
    readAt width bytes.toArray offset =
      if bytes.length < offset + width then .error .outOfBounds
      else .ok (ofBytes ((bytes.drop offset).take width), offset + width) := by
  simp only [readAt, List.size_toArray, Array.toList_extract, List.extract_eq_take_drop,
    Nat.add_sub_cancel_left]

def writeAt (width : Nat) (bytes : Array UInt8) (offset number : Nat) :
    Except Error (Array UInt8) :=
  let stop := offset + width
  if bytes.size < stop then .error .outOfBounds
  else
    .ok (bytes.extract 0 offset ++ (toBytes width number).toArray ++
      bytes.extract stop bytes.size)

end LittleEndian

/-- A fixed-size number: its size in bytes and whether the top bit counts
negatively.  The encoding of a floating-point number is unsigned. -/
structure ScalarType where
  width : Nat
  signed : Bool

namespace ScalarType

def decode (scalar : ScalarType) (encoding : Nat) : Int :=
  if scalar.signed then Int.bmod encoding (LittleEndian.capacity scalar.width) else encoding

/-- Only the low bytes of a number are encoded. -/
def encode (scalar : ScalarType) (number : Int) : Nat :=
  (number % (LittleEndian.capacity scalar.width : Int)).toNat

def readAt (scalar : ScalarType) (bytes : Array UInt8) (offset : Nat) :
    Except Error (Int × Nat) := do
  let (encoding, stop) ← LittleEndian.readAt scalar.width bytes offset
  pure (scalar.decode encoding, stop)

def append (scalar : ScalarType) (bytes : Array UInt8) (number : Int) : Array UInt8 :=
  bytes ++ (LittleEndian.toBytes scalar.width (scalar.encode number)).toArray

def writeAt (scalar : ScalarType) (bytes : Array UInt8) (offset : Nat) (number : Int) :
    Except Error (Array UInt8) :=
  LittleEndian.writeAt scalar.width bytes offset (scalar.encode number)

end ScalarType
end CilTemplate
