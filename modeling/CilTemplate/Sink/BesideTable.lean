import CilTemplate.Capture.Table
import CilTemplate.Sink.CodeSink

/-
Sinks and the capture table.  The code of a sink can reach the table, so
whoever shares the table with a sink works on both.  A sink that leaves the
table alone is one of these.
-/

namespace CilTemplate.CodeSink

variable {Sink Result : Type}

def besideTable (action : Action Sink Result) : Action (Sink × CaptureTable) Result :=
  action.onPart fun (sink, table) => (sink, fun sink => (sink, table))

instance [CodeSink Sink] : CodeSink (Sink × CaptureTable) where
  declareLocal declaration := besideTable (declareLocal declaration)
  defineLabel := fun (sink, table) =>
    let (label, sink) := StateT.run (m := Id) defineLabel sink
    (label, (sink, table))
  markLabel label := besideTable (markLabel label)
  emit opcode operand := besideTable (emit opcode operand)
  labelText state := labelText state.1

end CilTemplate.CodeSink
