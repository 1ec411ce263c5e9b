import CilTemplate.Symbol.Token

/-
The strings that code loads, each with its token.  A string without a token
gets the next free row of the string table.
-/

namespace CilTemplate

structure UserStrings where
  entries : Array (String × Token)
  nextRow : UInt32

namespace UserStrings

def empty : UserStrings := ⟨#[], 1⟩

def token? (strings : UserStrings) (text : String) : Option Token :=
  strings.entries.toList.lookup text

/-- A token that is known beforehand.  A string keeps its place when it gets
another token. -/
def seed (strings : UserStrings) (text : String) (token : Token) : UserStrings :=
  { entries :=
      if (strings.token? text).isSome then
        strings.entries.map fun entry => if entry.1 == text then (text, token) else entry
      else strings.entries.push (text, token)
    nextRow := max strings.nextRow (token.row + 1) }

def intern (strings : UserStrings) (text : String) : Token × UserStrings :=
  match strings.token? text with
  | some token => (token, strings)
  | none =>
      let token := Token.ofParts .string strings.nextRow
      (token, ⟨strings.entries.push (text, token), strings.nextRow + 1⟩)

end UserStrings
end CilTemplate
