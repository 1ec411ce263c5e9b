import CilTemplate.Symbol.Type

/-
The identities of fields, methods and properties.  Two members are the same
when all parts of their identity are equal.
-/

namespace CilTemplate

structure Field where
  token : Token
  name : String
  owner : CilType
  type : CilType
  flags : UInt32
deriving DecidableEq

namespace Field

def staticFlag : UInt32 := 0x10

def isStatic (field : Field) : Bool :=
  hasFlag field.flags staticFlag

def text (field : Field) : String :=
  field.owner.fullName ++ "::" ++ field.name

end Field

/-- The parameters leave out the receiver of an instance method. -/
structure Method where
  token : Token
  name : String
  owner : CilType
  parameters : List CilType
  returnType : Option CilType
  flags : UInt32
deriving DecidableEq

namespace Method

def privateFlag : UInt32 := 0x01
def staticFlag : UInt32 := 0x10
def virtualFlag : UInt32 := 0x40
def abstractFlag : UInt32 := 0x400

def isStatic (method : Method) : Bool :=
  hasFlag method.flags staticFlag

def isVirtual (method : Method) : Bool :=
  hasFlag method.flags virtualFlag

def isAbstract (method : Method) : Bool :=
  hasFlag method.flags abstractFlag

def isConstructor (method : Method) : Bool :=
  method.name == ".ctor"

def returnsVoid (method : Method) : Bool :=
  method.returnType.all CilType.isVoid

def parameterCount (method : Method) : Nat :=
  method.parameters.length

def callPops (method : Method) : Nat :=
  method.parameterCount + if method.isStatic then 0 else 1

def callPushes (method : Method) : Nat :=
  if method.returnsVoid then 0 else 1

/-- A direct call reaches exactly this method when nothing can override it. -/
def isNonVirtualDispatch (method : Method) : Bool :=
  method.isStatic || method.owner.isSealed || (!method.isVirtual && !method.isAbstract)

def text (method : Method) : String :=
  method.owner.fullName ++ "::" ++ method.name ++ "(" ++
    ", ".intercalate (method.parameters.map CilType.fullName) ++ ")"

end Method

structure Property where
  name : String
  owner : CilType
  type : CilType
  getter : Option Method
  setter : Option Method
deriving DecidableEq

namespace Property

/-- The getter decides; the setter decides when there is no getter. -/
def isStatic (property : Property) : Bool :=
  (property.getter <|> property.setter).any Method.isStatic

def text (property : Property) : String :=
  property.owner.fullName ++ "::" ++ property.name

end Property
end CilTemplate
