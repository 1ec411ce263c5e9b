import CilTemplate.Text.Hex

/-
Metadata tokens: a table number in the high byte and a row in the low three
bytes.
-/

namespace CilTemplate

structure Token where
  value : UInt32
deriving DecidableEq, Inhabited

namespace Token

inductive Kind
  | typeRef
  | typeDef
  | field
  | methodDef
  | memberRef
  | signature
  | typeSpec
  | methodSpec
  | string
deriving DecidableEq

namespace Kind

def all : List Kind :=
  [typeRef, typeDef, field, methodDef, memberRef, signature, typeSpec, methodSpec, string]

def name : Kind → String
  | typeRef => "TypeRef"
  | typeDef => "TypeDef"
  | field => "Field"
  | methodDef => "MethodDef"
  | memberRef => "MemberRef"
  | signature => "Signature"
  | typeSpec => "TypeSpec"
  | methodSpec => "MethodSpec"
  | string => "String"

def table : Kind → UInt8
  | typeRef => 0x01
  | typeDef => 0x02
  | field => 0x04
  | methodDef => 0x06
  | memberRef => 0x0A
  | signature => 0x11
  | typeSpec => 0x1B
  | methodSpec => 0x2B
  | string => 0x70

def isType : Kind → Bool
  | typeRef | typeDef | typeSpec => true
  | _ => false

def ofTable? (table : UInt8) : Option Kind :=
  all.find? fun kind => kind.table == table

end Kind

def table (token : Token) : UInt8 :=
  (token.value >>> 24).toUInt8

def row (token : Token) : UInt32 :=
  token.value &&& 0x00FFFFFF

/-- Only the low three bytes of the row number fit. -/
def ofParts (kind : Kind) (row : UInt32) : Token :=
  ⟨(kind.table.toUInt32 <<< 24) ||| (row &&& 0x00FFFFFF)⟩

def kind? (token : Token) : Option Kind :=
  Kind.ofTable? token.table

def isNull (token : Token) : Bool :=
  token.value == 0

def text (token : Token) : String :=
  "0x" ++ Hex.numeral 8 token.value.toNat

def details (token : Token) : String :=
  "Token(" ++ token.text ++ ", table: 0x" ++ Hex.numeral 2 token.table.toNat ++
    ", row: " ++ toString token.row.toNat ++ ")"

end Token
end CilTemplate
