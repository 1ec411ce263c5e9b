import CilTemplate.Code.OpcodeTable
import CilTemplate.Text.Hex

/-
Opcodes.  A value above one byte stands for the extension byte followed by a
second byte.
-/

namespace CilTemplate

structure Opcode where
  value : UInt16
deriving DecidableEq, Inhabited

namespace Opcode

def extensionByte : UInt8 := 0xFE

def isExtended (opcode : Opcode) : Bool :=
  decide (0xFF < opcode.value)

def code (opcode : Opcode) : UInt8 :=
  opcode.value.toUInt8

def size (opcode : Opcode) : Nat :=
  if opcode.isExtended then 2 else 1

def bytes (opcode : Opcode) : List UInt8 :=
  if opcode.isExtended then [extensionByte, opcode.code] else [opcode.code]

def ofByte (code : UInt8) : Opcode :=
  ⟨code.toUInt16⟩

def ofExtended (code : UInt8) : Opcode :=
  ⟨0xFE00 ||| code.toUInt16⟩

/-- A reserved opcode has no entry, nor has a high byte other than the
extension byte. -/
def info? (opcode : Opcode) : Option OpcodeInfo :=
  if opcode.isExtended then
    if opcode.value >>> 8 == 0xFE then OpcodeTable.extended[opcode.code.toNat]?.join
    else none
  else OpcodeTable.oneByte[opcode.code.toNat]?.join

def mnemonic (opcode : Opcode) : String :=
  match opcode.info? with
  | some info => info.mnemonic
  | none => "???"

def details (opcode : Opcode) : String :=
  "OpCode(0x" ++ Hex.numeral 4 opcode.value.toNat ++ " " ++ opcode.mnemonic ++ ")"

def ldarg0 : Opcode := ⟨0x02⟩
def ldloc0 : Opcode := ⟨0x06⟩
def stloc0 : Opcode := ⟨0x0A⟩
def ldargS : Opcode := ⟨0x0E⟩
def ldargaS : Opcode := ⟨0x0F⟩
def stargS : Opcode := ⟨0x10⟩
def ldlocS : Opcode := ⟨0x11⟩
def ldlocaS : Opcode := ⟨0x12⟩
def stlocS : Opcode := ⟨0x13⟩
def ldnull : Opcode := ⟨0x14⟩
def ldcI4M1 : Opcode := ⟨0x15⟩
def ldcI40 : Opcode := ⟨0x16⟩
def ldcI4S : Opcode := ⟨0x1F⟩
def ldcI4 : Opcode := ⟨0x20⟩
def ldcI8 : Opcode := ⟨0x21⟩
def ldcR4 : Opcode := ⟨0x22⟩
def ldcR8 : Opcode := ⟨0x23⟩
def pop : Opcode := ⟨0x26⟩
def call : Opcode := ⟨0x28⟩
def calli : Opcode := ⟨0x29⟩
def ret : Opcode := ⟨0x2A⟩
def switch : Opcode := ⟨0x45⟩
def callvirt : Opcode := ⟨0x6F⟩
def ldstr : Opcode := ⟨0x72⟩
def newobj : Opcode := ⟨0x73⟩
def castclass : Opcode := ⟨0x74⟩
def ldfld : Opcode := ⟨0x7B⟩
def ldflda : Opcode := ⟨0x7C⟩
def stfld : Opcode := ⟨0x7D⟩
def ldsfld : Opcode := ⟨0x7E⟩
def ldsflda : Opcode := ⟨0x7F⟩
def stsfld : Opcode := ⟨0x80⟩
def unboxAny : Opcode := ⟨0xA5⟩
def leave : Opcode := ⟨0xDD⟩
def leaveS : Opcode := ⟨0xDE⟩
def ldftn : Opcode := ⟨0xFE06⟩
def ldvirtftn : Opcode := ⟨0xFE07⟩
def ldarg : Opcode := ⟨0xFE09⟩
def ldarga : Opcode := ⟨0xFE0A⟩
def starg : Opcode := ⟨0xFE0B⟩
def ldloc : Opcode := ⟨0xFE0C⟩
def ldloca : Opcode := ⟨0xFE0D⟩
def stloc : Opcode := ⟨0xFE0E⟩
def volatile : Opcode := ⟨0xFE13⟩

end Opcode
end CilTemplate
