import CilTemplate.Code.Opcode
import CilTemplate.Symbol.Type

/-
The ways in which reading, expanding and writing a method body can fail.  The
kind of an error is its constructor and the cause says what was found.  What
an error names is kept as the text that names it.
-/

namespace CilTemplate

inductive Malformation
  | reservedOpcode (opcode : Opcode) (offset : Nat)
  | branchOutside (target : Int) (length : Nat)
  | branchBetweenInstructions (target : Nat)
  | localIndex (index count : Nat)
  | underflow (mnemonic : String) (depth pops : Int)
  | depthTooLarge (depth : Int)
  | depthAtBranch (label : String) (expected actual : Int)
  | depthAtMark (label : String) (expected actual : Int)
  | effectTooLarge (count : Nat)
  | codeTooLong
deriving DecidableEq

inductive UnsupportedFeature
  | reservedOpcode (opcode : Opcode)
  | indirectCall (offset : Nat)
  | openGeneric (token : Token) (parameter : GenericParameter)
  | dynamicEffect (mnemonic : String)
  | unknownEffect (mnemonic : String)
  | tooManyLocals
deriving DecidableEq

inductive UnfinishedFeature
  | signatureOperand (mnemonic : String)
  | signatureToken (mnemonic : String)
deriving DecidableEq

inductive BranchFault
  | outOfRange (offset : Int)
  | outOfShortRange (offset : Int)
  | tableTooLarge
deriving DecidableEq

inductive ArgumentFault
  | surplus (argument : Nat) (count : Int) (token : Nat)
  | found (count : Nat)
  | leading (stop : Nat)
deriving DecidableEq

inductive ControlFault
  | labelInArgument (label : String) (token : Nat)
  | transferInArgument (instruction : String) (token : Nat)
  | labelInPlaceholder (label : String) (start : Nat)
  | transferInPlaceholder (instruction : String) (token start : Nat)
deriving DecidableEq

inductive CaptureFault
  | noField (closure field : String)
  | noGetter (closure getter : String)
  | foreignField (field closure : String)
  | foreignGetter (getter closure : String)
  | noClosure (closure : String)
  | notCallbackCapture (found : String) (token : Nat)
  | notCaptureAccess (found : String) (token : Nat)
  | onlyArgument (value : String)
  | targetNotCaptured (operation found : String)
  | notDelegateConstructor (constructor : String)
  | noMethodPointer (constructor : String)
  | bindsOther (constructor method target : String)
deriving DecidableEq

inductive PlaceholderFault
  | notOperation (method : String)
  | wrongArity (method : String) (count : Nat) (kind : String)
  | withoutAccess (method : String) (token : Nat)
  | wrongArgumentCount (method : String) (takes passes : Nat)
  | returnsNothing (method placeholder : String)
deriving DecidableEq

inductive Error
  | malformed (cause : Malformation)
  | outOfBounds
  | notSupported (feature : UnsupportedFeature)
  | unresolvedToken (token : Token)
  | notImplemented (feature : UnfinishedFeature)
  | undefinedLabel (label : String)
  | duplicateLabel (label : String)
  | invalidBranch (fault : BranchFault)
  | unknownLocal (name : String)
  | wrongOperandType (mnemonic : String) (expected : OperandKind)
  | invalidArgumentIndex (index : Int)
  | unbalancedArguments (expected : Nat) (fault : ArgumentFault)
  | controlFlowInPlaceholder (fault : ControlFault)
  | unresolvableCapture (fault : CaptureFault)
  | unsupportedPlaceholder (fault : PlaceholderFault)
  | unterminatedPlaceholder (token : Nat)
  | wrongMemberKind (operation member : String)
  | instanceMemberInStaticContext (member : String)
  | captureKeyCollision (key : UInt64)
  | captureKeyMissing (key : UInt64)
  | rejected (reason : String)
deriving DecidableEq

def Malformation.message : Malformation → String
  | reservedOpcode opcode offset =>
      "Reserved opcode: " ++ (if opcode.isExtended then "FE " else "") ++
        Hex.upperNumeral 2 opcode.code.toNat ++ " at offset " ++ toString offset
  | branchOutside target length =>
      "Branch target " ++ toString target ++ " outside of the method body (" ++
        toString length ++ " bytes)"
  | branchBetweenInstructions target =>
      "Branch target " ++ toString target ++ " is not an instruction boundary"
  | localIndex index count =>
      "Local index " ++ toString index ++ " out of range (" ++ toString count ++
        " locals declared)"
  | underflow mnemonic depth pops =>
      "Stack underflow at '" ++ mnemonic ++ "': depth " ++ toString depth ++
        " after popping " ++ toString pops
  | depthTooLarge depth => "Stack depth " ++ toString depth ++ " too large"
  | depthAtBranch label expected actual =>
      "Stack depth mismatch for branch to " ++ label ++ ": expected " ++
        toString expected ++ ", got " ++ toString actual
  | depthAtMark label expected actual =>
      "Stack depth mismatch at " ++ label ++ ": expected " ++ toString expected ++
        ", got " ++ toString actual
  | effectTooLarge count => "Stack effect " ++ toString count ++ " too large"
  | codeTooLong => "Bytecode length exceeds u32 range"

def UnsupportedFeature.message : UnsupportedFeature → String
  | reservedOpcode opcode => "reserved opcode " ++ opcode.details
  | indirectCall offset => "indirect call at offset " ++ toString offset
  | openGeneric token parameter =>
      "token " ++ token.text ++ " references the open generic parameter " ++ parameter.text
  | dynamicEffect mnemonic => "'" ++ mnemonic ++ "' has no static stack effect"
  | unknownEffect mnemonic => "no static stack effect for '" ++ mnemonic ++ "'"
  | tooManyLocals => "more than 65535 locals"

def UnfinishedFeature.message : UnfinishedFeature → String
  | signatureOperand mnemonic => "'" ++ mnemonic ++ "' with a signature blob operand"
  | signatureToken mnemonic => "'" ++ mnemonic ++ "' requires a signature blob"

def BranchFault.message : BranchFault → String
  | outOfRange offset => "offset " ++ toString offset ++ " out of range"
  | outOfShortRange offset =>
      "offset " ++ toString offset ++ " out of range for a short branch"
  | tableTooLarge => "switch table too large"

def ArgumentFault.message : ArgumentFault → String
  | surplus argument count token =>
      "argument " ++ toString argument ++ " leaves " ++ toString count ++
        " surplus value(s) at token " ++ toString token
  | found count => "found " ++ toString count ++ " balanced argument(s)"
  | leading stop => "tokens 0.." ++ toString stop ++ " do not belong to any argument"

def ControlFault.message : ControlFault → String
  | labelInArgument label token => "label '" ++ label ++ "' at token " ++ toString token
  | transferInArgument instruction token =>
      "'" ++ instruction ++ "' at token " ++ toString token
  | labelInPlaceholder label start =>
      "label '" ++ label ++ "' inside the placeholder starting at token " ++ toString start
  | transferInPlaceholder instruction token start =>
      "'" ++ instruction ++ "' at token " ++ toString token ++
        " inside the placeholder starting at token " ++ toString start

def CaptureFault.message : CaptureFault → String
  | noField closure field => closure ++ " has no field " ++ field
  | noGetter closure getter => closure ++ " has no getter " ++ getter
  | foreignField field closure =>
      field ++ " is not captured by the " ++ closure ++ " closure"
  | foreignGetter getter closure =>
      getter ++ " is not a getter of the " ++ closure ++ " closure"
  | noClosure closure => "no " ++ closure ++ " closure is available"
  | notCallbackCapture found token =>
      found ++ " at token " ++ toString token ++ " does not read a callback capture"
  | notCaptureAccess found token =>
      found ++ " after ldarg.0 at token " ++ toString token ++ " is not a capture access"
  | onlyArgument value => value ++ " can only be used as a placeholder argument"
  | targetNotCaptured operation found =>
      "the " ++ operation ++ " target must be a captured member, found '" ++ found ++ "'"
  | notDelegateConstructor constructor =>
      "'" ++ constructor ++ "' is not a delegate constructor"
  | noMethodPointer constructor =>
      "delegate construction '" ++ constructor ++ "' does not bind a method pointer"
  | bindsOther constructor method target =>
      "delegate construction '" ++ constructor ++ "' binds '" ++ method ++ "' to '" ++
        target ++ "'"

def PlaceholderFault.message : PlaceholderFault → String
  | notOperation method => "'" ++ method ++ "' is not a placeholder operation"
  | wrongArity method count kind =>
      "'" ++ method ++ "' takes " ++ toString count ++ " argument(s), " ++ kind ++
        " does not accept that"
  | withoutAccess method token =>
      "'" ++ method ++ "' at token " ++ toString token ++
        " is called without a placeholder access"
  | wrongArgumentCount method takes passes =>
      "'" ++ method ++ "' takes " ++ toString takes ++ " argument(s), Call passes " ++
        toString passes
  | returnsNothing method placeholder =>
      "'" ++ method ++ "' returns nothing but '" ++ placeholder ++ "' expects a value"

def Error.message : Error → String
  | malformed cause => cause.message
  | outOfBounds => "Out of Bound read would have occurred!"
  | notSupported feature => "Not supported - " ++ feature.message
  | unresolvedToken token => "Failed to resolve token " ++ token.text
  | notImplemented feature => "Not implemented - " ++ feature.message
  | undefinedLabel label => "Undefined label - " ++ label
  | duplicateLabel label => "Duplicate label - " ++ label
  | invalidBranch fault => "Invalid branch - " ++ fault.message
  | unknownLocal name => "Unknown local variable - " ++ name
  | wrongOperandType mnemonic expected =>
      "Wrong operand type for '" ++ mnemonic ++ "', expected " ++ expected.name
  | invalidArgumentIndex index => "Invalid argument index - " ++ toString index
  | unbalancedArguments expected fault =>
      "Unbalanced placeholder arguments - expected " ++ toString expected ++ ", " ++
        fault.message
  | controlFlowInPlaceholder fault =>
      "Control transfer inside placeholder expression - " ++ fault.message
  | unresolvableCapture fault => "Unresolvable capture - " ++ fault.message
  | unsupportedPlaceholder fault => "Unsupported placeholder - " ++ fault.message
  | unterminatedPlaceholder token =>
      "Placeholder access at token " ++ toString token ++ " is never invoked"
  | wrongMemberKind operation member =>
      "'" ++ operation ++ "' can not be applied to " ++ member
  | instanceMemberInStaticContext member =>
      "Instance member '" ++ member ++ "' can not be accessed from a static destination"
  | captureKeyCollision key => "Capture key " ++ toString key ++ " is already present"
  | captureKeyMissing key => "Capture key " ++ toString key ++ " is missing"
  | rejected reason => reason

def Error.kindName : Error → String
  | malformed _ => "Malformed"
  | outOfBounds => "OutOfBounds"
  | notSupported _ => "NotSupported"
  | unresolvedToken _ => "UnresolvedToken"
  | notImplemented _ => "NotImplemented"
  | undefinedLabel _ => "UndefinedLabel"
  | duplicateLabel _ => "DuplicateLabel"
  | invalidBranch _ => "InvalidBranch"
  | unknownLocal _ => "UnknownLocal"
  | wrongOperandType _ _ => "WrongOperandType"
  | invalidArgumentIndex _ => "InvalidArgumentIndex"
  | unbalancedArguments _ _ => "UnbalancedArguments"
  | controlFlowInPlaceholder _ => "ControlFlowInPlaceholder"
  | unresolvableCapture _ => "UnresolvableCapture"
  | unsupportedPlaceholder _ => "UnsupportedPlaceholder"
  | unterminatedPlaceholder _ => "UnterminatedPlaceholder"
  | wrongMemberKind _ _ => "WrongMemberKind"
  | instanceMemberInStaticContext _ => "InstanceMemberInStaticContext"
  | captureKeyCollision _ => "CaptureKeyCollision"
  | captureKeyMissing _ => "CaptureKeyMissing"
  | rejected _ => "Error"

theorem bind_eq_ok {Result Next : Type} {first : Except Error Result}
    {next : Result → Except Error Next} {value : Next} :
    (first >>= next) = .ok value ↔ ∃ middle, first = .ok middle ∧ next middle = .ok value := by
  cases first <;> simp [bind, Except.bind]

theorem bind_eq_error {Result Next : Type} {first : Except Error Result}
    {next : Result → Except Error Next} {error : Error} :
    (first >>= next) = .error error ↔
      first = .error error ∨ ∃ middle, first = .ok middle ∧ next middle = .error error := by
  cases first <;> simp [bind, Except.bind]

theorem eq_ok_of_toOption {Result : Type} {result : Except Error Result} {value : Result}
    (same : result.toOption = some value) : result = .ok value := by
  cases result with
  | ok found => rw [Option.some.inj same]
  | error error => cases same

end CilTemplate
