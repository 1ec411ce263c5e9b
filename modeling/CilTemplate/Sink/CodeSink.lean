import CilTemplate.Action
import CilTemplate.Code.Operand

/-
Sinks for code.  Whoever writes a method body declares its locals, defines and
marks its labels and emits its instructions through a sink.  A sink may refuse
any of these except the definition of a label.
-/

namespace CilTemplate

class CodeSink (Sink : Type) where
  /-- The slot of the new local. -/
  declareLocal : LocalDeclaration → Action Sink UInt16
  /-- The handle of the new label. -/
  defineLabel : StateM Sink Nat
  markLabel : Nat → Action Sink Unit
  emit : Opcode → Operand Nat → Action Sink Unit
  /-- How the sink shows a label handle. -/
  labelText : Sink → Nat → String

end CilTemplate
