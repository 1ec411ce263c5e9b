/-
Hexadecimal numerals of a least width, in lower case and in upper case.
-/

namespace CilTemplate
namespace Hex

/-- Leading zeros fill the numeral up to the width; a wider value keeps all
its digits. -/
def numeral (width value : Nat) : String :=
  let digits := Nat.toDigits 16 value
  String.ofList (List.replicate (width - digits.length) '0' ++ digits)

def upperNumeral (width value : Nat) : String :=
  (numeral width value).map Char.toUpper

end Hex
end CilTemplate
