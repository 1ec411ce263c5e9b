import CilTemplate.Code.Instruction

/-
The encoded forms of typed instructions.  An access to an argument or a local
has up to three forms, by the size of its index; an access to a field has one
opcode.
-/

namespace CilTemplate

/-- The forms of one access: four opcodes in a row for the first four indices,
one for indices of a byte and one for all others. -/
structure SlotForms where
  compact? : Option Opcode
  short : Opcode
  long : Opcode
deriving DecidableEq

namespace SlotForms

variable {Target : Type}

def encode (forms : SlotForms) (index : UInt16) : Opcode × Operand Target :=
  match forms.compact? with
  | some first =>
      if index < 4 then (⟨first.value + index⟩, .none)
      else if index ≤ 0xFF then (forms.short, .immediate (.uint8 index.toUInt8))
      else (forms.long, .immediate (.uint16 index))
  | none =>
      if index ≤ 0xFF then (forms.short, .immediate (.uint8 index.toUInt8))
      else (forms.long, .immediate (.uint16 index))

def decode? (forms : SlotForms) (opcode : Opcode) : Operand Target → Option UInt16
  | .none =>
      forms.compact?.bind fun first =>
        if first.value ≤ opcode.value ∧ opcode.value < first.value + 4 then
          some (opcode.value - first.value)
        else none
  | .immediate (.uint8 index) => if opcode = forms.short then some index.toUInt16 else none
  | .immediate (.uint16 index) => if opcode = forms.long then some index else none
  | _ => none

end SlotForms

namespace Access

def argumentForms : Access → SlotForms
  | load => ⟨some Opcode.ldarg0, Opcode.ldargS, Opcode.ldarg⟩
  | address => ⟨none, Opcode.ldargaS, Opcode.ldarga⟩
  | store => ⟨none, Opcode.stargS, Opcode.starg⟩

def localForms : Access → SlotForms
  | load => ⟨some Opcode.ldloc0, Opcode.ldlocS, Opcode.ldloc⟩
  | address => ⟨none, Opcode.ldlocaS, Opcode.ldloca⟩
  | store => ⟨some Opcode.stloc0, Opcode.stlocS, Opcode.stloc⟩

end Access

namespace FieldPlace

def opcode : FieldPlace → Access → Opcode
  | ofObject, .load => Opcode.ldfld
  | ofObject, .address => Opcode.ldflda
  | ofObject, .store => Opcode.stfld
  | ofType, .load => Opcode.ldsfld
  | ofType, .address => Opcode.ldsflda
  | ofType, .store => Opcode.stsfld

end FieldPlace

namespace Opcode

variable {Target : Type}

def argumentAccess? (opcode : Opcode) (operand : Operand Target) : Option (Access × UInt16) :=
  Access.all.findSome? fun access =>
    (access.argumentForms.decode? opcode operand).map fun index => (access, index)

def localAccess? (opcode : Opcode) (operand : Operand Target) : Option (Access × UInt16) :=
  Access.all.findSome? fun access =>
    (access.localForms.decode? opcode operand).map fun index => (access, index)

def fieldAccess? (opcode : Opcode) : Option (FieldPlace × Access) :=
  FieldPlace.all.findSome? fun place =>
    (Access.all.find? fun access => place.opcode access == opcode).map fun access =>
      (place, access)

end Opcode

/-- A direct call when it reaches the method itself, else a virtual one. -/
def Method.callOpcode (method : Method) : Opcode :=
  if method.isNonVirtualDispatch then Opcode.call else Opcode.callvirt

end CilTemplate
