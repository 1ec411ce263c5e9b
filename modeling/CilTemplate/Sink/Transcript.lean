import CilTemplate.Sink.CodeSink

/-
A sink that writes down what it is asked.  It declares as many locals as its
limit allows and refuses nothing else.
-/

namespace CilTemplate

inductive SinkRequest
  | declareLocal (declaration : LocalDeclaration)
  | defineLabel (label : Nat)
  | markLabel (label : Nat)
  | emit (opcode : Opcode) (operand : Operand Nat)
deriving DecidableEq

structure Transcript where
  requests : Array SinkRequest
  localCount : Nat
  labelCount : Nat
  localLimit : Option Nat

namespace Transcript

def empty (localLimit : Option Nat) : Transcript :=
  ⟨#[], 0, 0, localLimit⟩

def note (request : SinkRequest) (transcript : Transcript) : Transcript :=
  { transcript with requests := transcript.requests.push request }

def declareLocal (declaration : LocalDeclaration) : Action Transcript UInt16 := do
  let transcript ← get
  if transcript.localLimit.any fun limit => decide (limit ≤ transcript.localCount) then
    throw (.rejected "sink is full")
  set (note (.declareLocal declaration)
    { transcript with localCount := transcript.localCount + 1 })
  pure transcript.localCount.toUInt16

def defineLabel : StateM Transcript Nat := do
  let transcript ← get
  set (note (.defineLabel transcript.labelCount)
    { transcript with labelCount := transcript.labelCount + 1 })
  pure transcript.labelCount

instance : CodeSink Transcript where
  declareLocal := declareLocal
  defineLabel := defineLabel
  markLabel label := modify (note (.markLabel label))
  emit opcode operand := modify (note (.emit opcode operand))
  labelText _ label := toString label

end Transcript
end CilTemplate
