import CilTemplate.Text.Hex
import CilTemplate.Text.Visible

/-
The quoted form of a text: what stands between two double quotes when a
string literal is shown in a listing or a message.
-/

namespace CilTemplate
namespace Text

/-- The common control characters, the backslash and the double quote have a
letter of their own.  Any other character that is not visible is written as
its code point. -/
def escape (character : Char) : List Char :=
  match character with
  | '\x00' => ['\\', '0']
  | '\t' => ['\\', 't']
  | '\n' => ['\\', 'n']
  | '\r' => ['\\', 'r']
  | '"' => ['\\', '"']
  | '\\' => ['\\', '\\']
  | _ =>
      if isVisible character then [character]
      else ['\\', 'u', '\x7b'] ++ Nat.toDigits 16 character.toNat ++ ['\x7d']

def quoted (text : String) : String :=
  String.ofList ('"' :: text.toList.flatMap escape ++ ['"'])

end Text
end CilTemplate
