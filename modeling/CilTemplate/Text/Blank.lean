/-
Blank characters and the removal of blanks at both ends of a text.
-/

namespace CilTemplate
namespace Text

/-- Inclusive ranges of the characters with the white-space property. -/
def blankRanges : List (Nat × Nat) :=
  [(0x09, 0x0D), (0x20, 0x20), (0x85, 0x85), (0xA0, 0xA0), (0x1680, 0x1680),
    (0x2000, 0x200A), (0x2028, 0x2029), (0x202F, 0x202F), (0x205F, 0x205F),
    (0x3000, 0x3000)]

def isBlank (character : Char) : Bool :=
  blankRanges.any fun (first, last) =>
    decide (first ≤ character.toNat ∧ character.toNat ≤ last)

def trimmed (text : String) : String :=
  let front := text.toList.dropWhile isBlank
  String.ofList (front.reverse.dropWhile isBlank).reverse

end Text
end CilTemplate
