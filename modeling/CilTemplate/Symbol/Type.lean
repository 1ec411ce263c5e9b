import CilTemplate.Symbol.Token
import CilTemplate.Text.Quoted

/-
The identity of a type: what has to be known about a type to emit code that
touches it.
-/

namespace CilTemplate

inductive GenericParameter
  | ofType (index : Nat)
  | ofMethod (index : Nat)
deriving DecidableEq

def GenericParameter.text : GenericParameter → String
  | .ofType index => "Type(" ++ toString index ++ ")"
  | .ofMethod index => "Method(" ++ toString index ++ ")"

inductive TypeFlavor
  | void
  | reference
  | value
  | generic (parameter : GenericParameter)
deriving DecidableEq

def TypeFlavor.text : TypeFlavor → String
  | .void => "Void"
  | .reference => "Class"
  | .value => "ValueType"
  | .generic parameter => "GenericParameter(" ++ parameter.text ++ ")"

def hasFlag (flags mask : UInt32) : Bool :=
  flags &&& mask == mask

structure CilType where
  token : Token
  nameSpace : String
  name : String
  assembly : String
  flavor : TypeFlavor
  flags : UInt32
deriving DecidableEq

namespace CilType

def sealedFlag : UInt32 := 0x100

def flagNames : List (UInt32 × String) :=
  [(0x001, "PUBLIC"), (0x020, "INTERFACE"), (0x080, "ABSTRACT"), (sealedFlag, "SEALED"),
    (0x400, "SPECIAL_NAME")]

def fullName (type : CilType) : String :=
  if type.nameSpace.isEmpty then type.name else type.nameSpace ++ "." ++ type.name

def text (type : CilType) : String :=
  "[" ++ type.assembly ++ "]" ++ type.fullName

/-- Nothing derives from a value type, whether it is marked sealed or not. -/
def isSealed (type : CilType) : Bool :=
  hasFlag type.flags sealedFlag || type.flavor == .value

def isValueType (type : CilType) : Bool :=
  type.flavor == .value

def isVoid (type : CilType) : Bool :=
  type.flavor == .void

def genericParameter? (type : CilType) : Option GenericParameter :=
  match type.flavor with
  | .generic parameter => some parameter
  | _ => none

/-- The names of the attributes set in a word; bits without a name follow as
one number, and a word without any bit is written as zero. -/
def flagsText (flags : UInt32) : String :=
  let named := flagNames.filter fun (mask, _) => hasFlag flags mask
  let unnamed := flags &&& ~~~ (flagNames.foldl (fun known (mask, _) => known ||| mask) 0)
  let parts := named.map Prod.snd ++
    if unnamed == 0 then [] else ["0x" ++ Hex.numeral 1 unnamed.toNat]
  if parts.isEmpty then "0x0" else " | ".intercalate parts

def details (type : CilType) : String :=
  "CilType \x7b token: " ++ type.token.details ++
    ", namespace: " ++ Text.quoted type.nameSpace ++
    ", name: " ++ Text.quoted type.name ++
    ", assembly: " ++ Text.quoted type.assembly ++
    ", flavor: " ++ type.flavor.text ++
    ", flags: TypeAttributes(" ++ flagsText type.flags ++ ") \x7d"

end CilType
end CilTemplate
