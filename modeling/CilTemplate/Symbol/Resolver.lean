import CilTemplate.Error
import CilTemplate.Symbol.Member

/-
Resolution of metadata tokens.  A resolver answers for each kind of operand;
a symbol table is the resolver that holds one entry per token.
-/

namespace CilTemplate

structure GenericContext where
  typeArguments : List CilType
  methodArguments : List CilType
deriving DecidableEq

def GenericContext.bind? (context : GenericContext) : GenericParameter → Option CilType
  | .ofType index => context.typeArguments[index]?
  | .ofMethod index => context.methodArguments[index]?

inductive Symbol
  | type (type : CilType)
  | field (field : Field)
  | method (method : Method)
deriving DecidableEq

namespace Symbol

def token : Symbol → Token
  | .type found => found.token
  | .field found => found.token
  | .method found => found.token

def text : Symbol → String
  | .type found => found.fullName
  | .field found => found.text
  | .method found => found.text

end Symbol

/-- The table of the token says what it refers to; a member reference is a
method when it is not a field. -/
def Symbol.ofToken (type : Token → GenericContext → Except Error CilType)
    (field : Token → GenericContext → Except Error Field)
    (method : Token → GenericContext → Except Error Method) (token : Token)
    (context : GenericContext) : Except Error Symbol :=
  match token.kind? with
  | some .typeRef | some .typeDef | some .typeSpec => (type token context).map Symbol.type
  | some .field => (field token context).map Symbol.field
  | some .methodDef | some .methodSpec => (method token context).map Symbol.method
  | some .memberRef =>
      match field token context with
      | .ok field => .ok (.field field)
      | .error _ => (method token context).map Symbol.method
  | some .signature | some .string | none => .error (.unresolvedToken token)

/-- A resolver may answer for symbols in a way of its own. -/
structure Resolver where
  type : Token → GenericContext → Except Error CilType
  field : Token → GenericContext → Except Error Field
  method : Token → GenericContext → Except Error Method
  string : Token → Except Error String
  signature : Token → Except Error (List UInt8)
  symbol : Token → GenericContext → Except Error Symbol := Symbol.ofToken type field method

namespace SymbolTable

inductive Entry
  | type (type : CilType)
  | field (field : Field)
  | method (method : Method)
  | string (text : String)
  | signature (blob : List UInt8)
deriving DecidableEq

end SymbolTable

structure SymbolTable where
  entries : List (Token × SymbolTable.Entry)

namespace SymbolTable

def empty : SymbolTable := ⟨[]⟩

def size (table : SymbolTable) : Nat :=
  table.entries.length

def isEmpty (table : SymbolTable) : Bool :=
  table.entries.isEmpty

/-- A later entry takes the place of an earlier one for the same token. -/
def insert (table : SymbolTable) (token : Token) (entry : Entry) : SymbolTable :=
  ⟨table.entries.filter (fun (known, _) => known != token) ++ [(token, entry)]⟩

def insertType (table : SymbolTable) (type : CilType) : SymbolTable :=
  table.insert type.token (.type type)

def insertField (table : SymbolTable) (field : Field) : SymbolTable :=
  table.insert field.token (.field field)

def insertMethod (table : SymbolTable) (method : Method) : SymbolTable :=
  table.insert method.token (.method method)

def stringToken? (table : SymbolTable) (text : String) : Option Token :=
  (table.entries.find? fun (_, entry) => entry == .string text).map Prod.fst

def find? (table : SymbolTable) (token : Token) : Option Entry :=
  table.entries.lookup token

def select {Result : Type} (table : SymbolTable) (token : Token)
    (wanted : Entry → Option Result) : Except Error Result :=
  match (table.find? token).bind wanted with
  | some result => .ok result
  | none => .error (.unresolvedToken token)

/-- An open parameter stands for its argument in the context, or for itself
when the context has none. -/
def bindType (context : GenericContext) (type : CilType) : CilType :=
  ((type.genericParameter?.bind context.bind?).getD type)

def resolver (table : SymbolTable) : Resolver where
  type token context := table.select token fun
    | .type type => some (bindType context type)
    | _ => none
  field token _ := table.select token fun
    | .field field => some field
    | _ => none
  method token _ := table.select token fun
    | .method method => some method
    | _ => none
  string token := table.select token fun
    | .string text => some text
    | _ => none
  signature token := table.select token fun
    | .signature blob => some blob
    | _ => none

end SymbolTable
end CilTemplate
