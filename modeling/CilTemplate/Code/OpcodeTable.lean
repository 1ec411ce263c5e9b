import CilTemplate.Code.OpcodeInfo

/-
The instruction table.  An entry stands at the index of its opcode byte; the
second table is for the opcodes after the extension byte.
-/

namespace CilTemplate
namespace OpcodeTable

def reserved : Option OpcodeInfo := none

def general (mnemonic : String) (operand : OperandKind) (pops pushes : StackCount)
    (flow : Flow) : Option OpcodeInfo :=
  some ⟨mnemonic, operand, pops, pushes, flow⟩

def plain (mnemonic : String) (pops pushes : StackCount) : Option OpcodeInfo :=
  general mnemonic .none pops pushes .sequential

def taking (operand : OperandKind) (mnemonic : String) (pops pushes : StackCount) :
    Option OpcodeInfo :=
  general mnemonic operand pops pushes .sequential

def conditional (operand : OperandKind) (mnemonic : String) (pops : StackCount) :
    Option OpcodeInfo :=
  general mnemonic operand pops 0 .conditionalBranch

def oneByte : List (Option OpcodeInfo) :=
  [ plain "nop" 0 0, plain "break" 0 0, plain "ldarg.0" 0 1, plain "ldarg.1" 0 1,
    plain "ldarg.2" 0 1, plain "ldarg.3" 0 1, plain "ldloc.0" 0 1, plain "ldloc.1" 0 1,
    plain "ldloc.2" 0 1, plain "ldloc.3" 0 1, plain "stloc.0" 1 0, plain "stloc.1" 1 0,
    plain "stloc.2" 1 0, plain "stloc.3" 1 0, taking .uint8 "ldarg.s" 0 1,
    taking .uint8 "ldarga.s" 0 1, taking .uint8 "starg.s" 1 0, taking .uint8 "ldloc.s" 0 1,
    taking .uint8 "ldloca.s" 0 1, taking .uint8 "stloc.s" 1 0, plain "ldnull" 0 1,
    plain "ldc.i4.m1" 0 1, plain "ldc.i4.0" 0 1, plain "ldc.i4.1" 0 1, plain "ldc.i4.2" 0 1,
    plain "ldc.i4.3" 0 1, plain "ldc.i4.4" 0 1, plain "ldc.i4.5" 0 1, plain "ldc.i4.6" 0 1,
    plain "ldc.i4.7" 0 1, plain "ldc.i4.8" 0 1, taking .int8 "ldc.i4.s" 0 1,
    taking .int32 "ldc.i4" 0 1, taking .int64 "ldc.i8" 0 1, taking .float32 "ldc.r4" 0 1,
    taking .float64 "ldc.r8" 0 1, reserved, plain "dup" 1 2, plain "pop" 1 0,
    general "jmp" .method 0 0 .exit, general "call" .method .dynamic .dynamic .call,
    general "calli" .signature .dynamic .dynamic .call, general "ret" .none .dynamic 0 .exit,
    general "br.s" .shortBranch 0 0 .unconditionalBranch,
    conditional .shortBranch "brfalse.s" 1, conditional .shortBranch "brtrue.s" 1,
    conditional .shortBranch "beq.s" 2, conditional .shortBranch "bge.s" 2,
    conditional .shortBranch "bgt.s" 2, conditional .shortBranch "ble.s" 2,
    conditional .shortBranch "blt.s" 2, conditional .shortBranch "bne.un.s" 2,
    conditional .shortBranch "bge.un.s" 2, conditional .shortBranch "bgt.un.s" 2,
    conditional .shortBranch "ble.un.s" 2, conditional .shortBranch "blt.un.s" 2,
    general "br" .branch 0 0 .unconditionalBranch, conditional .branch "brfalse" 1,
    conditional .branch "brtrue" 1, conditional .branch "beq" 2, conditional .branch "bge" 2,
    conditional .branch "bgt" 2, conditional .branch "ble" 2, conditional .branch "blt" 2,
    conditional .branch "bne.un" 2, conditional .branch "bge.un" 2,
    conditional .branch "bgt.un" 2, conditional .branch "ble.un" 2,
    conditional .branch "blt.un" 2, general "switch" .switch 1 0 .switch, plain "ldind.i1" 1 1,
    plain "ldind.u1" 1 1, plain "ldind.i2" 1 1, plain "ldind.u2" 1 1, plain "ldind.i4" 1 1,
    plain "ldind.u4" 1 1, plain "ldind.i8" 1 1, plain "ldind.i" 1 1, plain "ldind.r4" 1 1,
    plain "ldind.r8" 1 1, plain "ldind.ref" 1 1, plain "stind.ref" 2 0, plain "stind.i1" 2 0,
    plain "stind.i2" 2 0, plain "stind.i4" 2 0, plain "stind.i8" 2 0, plain "stind.r4" 2 0,
    plain "stind.r8" 2 0, plain "add" 2 1, plain "sub" 2 1, plain "mul" 2 1, plain "div" 2 1,
    plain "div.un" 2 1, plain "rem" 2 1, plain "rem.un" 2 1, plain "and" 2 1, plain "or" 2 1,
    plain "xor" 2 1, plain "shl" 2 1, plain "shr" 2 1, plain "shr.un" 2 1, plain "neg" 1 1,
    plain "not" 1 1, plain "conv.i1" 1 1, plain "conv.i2" 1 1, plain "conv.i4" 1 1,
    plain "conv.i8" 1 1, plain "conv.r4" 1 1, plain "conv.r8" 1 1, plain "conv.u4" 1 1,
    plain "conv.u8" 1 1, general "callvirt" .method .dynamic .dynamic .call,
    taking .type "cpobj" 2 0, taking .type "ldobj" 1 1, taking .string "ldstr" 0 1,
    general "newobj" .method .dynamic 1 .call, taking .type "castclass" 1 1,
    taking .type "isinst" 1 1, plain "conv.r.un" 1 1, reserved, reserved,
    taking .type "unbox" 1 1, general "throw" .none 1 0 .throwing, taking .field "ldfld" 1 1,
    taking .field "ldflda" 1 1, taking .field "stfld" 2 0, taking .field "ldsfld" 0 1,
    taking .field "ldsflda" 0 1, taking .field "stsfld" 1 0, taking .type "stobj" 2 0,
    plain "conv.ovf.i1.un" 1 1, plain "conv.ovf.i2.un" 1 1, plain "conv.ovf.i4.un" 1 1,
    plain "conv.ovf.i8.un" 1 1, plain "conv.ovf.u1.un" 1 1, plain "conv.ovf.u2.un" 1 1,
    plain "conv.ovf.u4.un" 1 1, plain "conv.ovf.u8.un" 1 1, plain "conv.ovf.i.un" 1 1,
    plain "conv.ovf.u.un" 1 1, taking .type "box" 1 1, taking .type "newarr" 1 1,
    plain "ldlen" 1 1, taking .type "ldelema" 2 1, plain "ldelem.i1" 2 1, plain "ldelem.u1" 2 1,
    plain "ldelem.i2" 2 1, plain "ldelem.u2" 2 1, plain "ldelem.i4" 2 1, plain "ldelem.u4" 2 1,
    plain "ldelem.i8" 2 1, plain "ldelem.i" 2 1, plain "ldelem.r4" 2 1, plain "ldelem.r8" 2 1,
    plain "ldelem.ref" 2 1, plain "stelem.i" 3 0, plain "stelem.i1" 3 0, plain "stelem.i2" 3 0,
    plain "stelem.i4" 3 0, plain "stelem.i8" 3 0, plain "stelem.r4" 3 0, plain "stelem.r8" 3 0,
    plain "stelem.ref" 3 0, taking .type "ldelem" 2 1, taking .type "stelem" 3 0,
    taking .type "unbox.any" 1 1, reserved, reserved, reserved, reserved, reserved, reserved,
    reserved, reserved, reserved, reserved, reserved, reserved, reserved,
    plain "conv.ovf.i1" 1 1, plain "conv.ovf.u1" 1 1, plain "conv.ovf.i2" 1 1,
    plain "conv.ovf.u2" 1 1, plain "conv.ovf.i4" 1 1, plain "conv.ovf.u4" 1 1,
    plain "conv.ovf.i8" 1 1, plain "conv.ovf.u8" 1 1, reserved, reserved, reserved, reserved,
    reserved, reserved, reserved, taking .type "refanyval" 1 1, plain "ckfinite" 1 1, reserved,
    reserved, taking .type "mkrefany" 1 1, reserved, reserved, reserved, reserved, reserved,
    reserved, reserved, reserved, reserved, taking .token "ldtoken" 0 1, plain "conv.u2" 1 1,
    plain "conv.u1" 1 1, plain "conv.i" 1 1, plain "conv.ovf.i" 1 1, plain "conv.ovf.u" 1 1,
    plain "add.ovf" 2 1, plain "add.ovf.un" 2 1, plain "mul.ovf" 2 1, plain "mul.ovf.un" 2 1,
    plain "sub.ovf" 2 1, plain "sub.ovf.un" 2 1, general "endfinally" .none 0 0 .endFinally,
    general "leave" .branch 0 0 .leave, general "leave.s" .shortBranch 0 0 .leave,
    plain "stind.i" 2 0, plain "conv.u" 1 1 ]

def extended : List (Option OpcodeInfo) :=
  [ plain "arglist" 0 1, plain "ceq" 2 1, plain "cgt" 2 1, plain "cgt.un" 2 1, plain "clt" 2 1,
    plain "clt.un" 2 1, taking .method "ldftn" 0 1, taking .method "ldvirtftn" 1 1, reserved,
    taking .uint16 "ldarg" 0 1, taking .uint16 "ldarga" 0 1, taking .uint16 "starg" 1 0,
    taking .uint16 "ldloc" 0 1, taking .uint16 "ldloca" 0 1, taking .uint16 "stloc" 1 0,
    plain "localloc" 1 1, reserved, general "endfilter" .none 1 0 .endFinally,
    taking .uint8 "unaligned." 0 0, plain "volatile." 0 0, plain "tail." 0 0,
    taking .type "initobj" 1 0, taking .type "constrained." 0 0, plain "cpblk" 3 0,
    plain "initblk" 3 0, taking .uint8 "no." 0 0, general "rethrow" .none 0 0 .throwing,
    reserved, taking .type "sizeof" 0 1, plain "refanytype" 1 1, plain "readonly." 0 0 ]

end OpcodeTable
end CilTemplate
