/-
The shortest decimal that reads back as a given binary floating-point number.

A finite number is a multiple of a power of two.  The reals that round to it
form an interval whose ends count as members when the significand is even.
Among the powers of ten, the coarsest one with a multiple in that interval
gives the digits: the multiple nearest to the number itself.  The text is
positional throughout and never has an exponent.
-/

namespace CilTemplate
namespace Decimal

/-- Width of the fraction field and of the exponent field of a binary format. -/
structure BinaryFormat where
  fractionBits : Nat
  exponentBits : Nat

def binary32 : BinaryFormat := ⟨23, 8⟩

def binary64 : BinaryFormat := ⟨52, 11⟩

namespace BinaryFormat

def fractionLimit (format : BinaryFormat) : Nat :=
  Nat.pow 2 format.fractionBits

def exponentLimit (format : BinaryFormat) : Nat :=
  Nat.pow 2 format.exponentBits

def fraction (format : BinaryFormat) (bits : Nat) : Nat :=
  bits % format.fractionLimit

def exponent (format : BinaryFormat) (bits : Nat) : Nat :=
  bits / format.fractionLimit % format.exponentLimit

def isNegative (format : BinaryFormat) (bits : Nat) : Bool :=
  bits / format.fractionLimit / format.exponentLimit % 2 == 1

/-- A full exponent field encodes no finite number. -/
def isFinite (format : BinaryFormat) (bits : Nat) : Bool :=
  format.exponent bits != format.exponentLimit - 1

def isNaN (format : BinaryFormat) (bits : Nat) : Bool :=
  !format.isFinite bits && format.fraction bits != 0

/-- The least positive number is two to the power of minus this. -/
def bias (format : BinaryFormat) : Nat :=
  format.exponentLimit / 2 - 2 + format.fractionBits

end BinaryFormat

/-- The reals that round to a number, over a common denominator: the lower
end, the number and the upper end. -/
structure RoundingInterval where
  lower : Nat
  value : Nat
  upper : Nat
  denominator : Nat
  endsIncluded : Bool

/-- The interval of `significand * 2 ^ (exponent - bias)`.  Below a power of
two the numbers lie twice as densely, which halves the lower part. -/
def roundingInterval (significand exponent bias : Nat) (narrowBelow : Bool) :
    RoundingInterval :=
  let scale := Nat.pow 2 exponent
  { lower := (4 * significand - if narrowBelow then 1 else 2) * scale
    value := 4 * significand * scale
    upper := (4 * significand + 2) * scale
    denominator := 4 * Nat.pow 2 bias
    endsIncluded := significand % 2 == 0 }

/-- A decimal `digits * 10 ^ exponent`. -/
structure Scaled where
  digits : Nat
  exponent : Int

def RoundingInterval.contains (interval : RoundingInterval) (point : Nat) : Bool :=
  if interval.endsIncluded then
    decide (interval.lower ≤ point ∧ point ≤ interval.upper)
  else
    decide (interval.lower < point ∧ point < interval.upper)

def RoundingInterval.inUnits (interval : RoundingInterval) (exponent : Int) :
    RoundingInterval × Nat :=
  match exponent with
  | .ofNat power => (interval, Nat.pow 10 power * interval.denominator)
  | .negSucc power =>
      let factor := Nat.pow 10 (power + 1)
      ({ interval with
          lower := interval.lower * factor
          value := interval.value * factor
          upper := interval.upper * factor },
        interval.denominator)

/-- The multiple of `10 ^ exponent` in the interval that is nearest to the
number, the larger one when two are equally near. -/
def RoundingInterval.nearestMultiple? (interval : RoundingInterval) (exponent : Int) :
    Option Nat :=
  let (scaled, unit) := interval.inUnits exponent
  let below := scaled.value / unit
  let above := below + 1
  match scaled.contains (below * unit), scaled.contains (above * unit) with
  | false, false => none
  | true, false => some below
  | false, true => some above
  | true, true =>
      if scaled.value - below * unit < above * unit - scaled.value then some below
      else some above

def RoundingInterval.search (interval : RoundingInterval) (exponent : Int) :
    Nat → Option Scaled
  | 0 => none
  | steps + 1 =>
      match interval.nearestMultiple? exponent with
      | some digits => some ⟨digits, exponent⟩
      | none => interval.search (exponent - 1) steps

def RoundingInterval.coarsest (interval : RoundingInterval) : Nat :=
  (Nat.toDigits 10 (interval.upper / interval.denominator)).length

/-- Each power of two in the denominator costs at most one decimal place, so
the steps reach a power of ten that divides the number. -/
def RoundingInterval.shortest (interval : RoundingInterval) : Scaled :=
  (interval.search interval.coarsest
    (interval.coarsest + Nat.log2 interval.denominator + 1)).getD ⟨0, 0⟩

/-- Positional text without an exponent; a whole number has no point. -/
def Scaled.text (decimal : Scaled) : String :=
  let digits := Nat.toDigits 10 decimal.digits
  match decimal.exponent with
  | .ofNat zeros => String.ofList (digits ++ List.replicate zeros '0')
  | .negSucc places =>
      let padded := List.replicate (places + 2 - digits.length) '0' ++ digits
      let whole := padded.length - (places + 1)
      String.ofList (padded.take whole ++ '.' :: padded.drop whole)

/-- The reals that round to the number whose encoding is `bits`.  With an
exponent field other than zero the significand has a leading one. -/
def BinaryFormat.interval (format : BinaryFormat) (bits : Nat) : RoundingInterval :=
  let fraction := format.fraction bits
  match format.exponent bits with
  | 0 => roundingInterval fraction 0 format.bias false
  | exponent + 1 =>
      roundingInterval (format.fractionLimit + fraction) exponent format.bias
        (fraction == 0 && decide (0 < exponent))

def BinaryFormat.text (format : BinaryFormat) (bits : Nat) : String :=
  let sign := if format.isNegative bits then "-" else ""
  if format.isNaN bits then "NaN"
  else if !format.isFinite bits then sign ++ "inf"
  else if format.exponent bits == 0 && format.fraction bits == 0 then sign ++ "0"
  else sign ++ (format.interval bits).shortest.text

end Decimal
end CilTemplate
