import CilTemplate.Code.Decode
import CilTemplate.Code.Encode
import CilTemplate.Expansion.Expander
import CilTemplate.Sink.BesideTable

/-
From the bytes of a template method to code in its destination: the method is
read, expanded and written to a sink.
-/

namespace CilTemplate

structure TemplateMethod where
  code : List UInt8
  locals : List LocalDeclaration
  isStatic : Bool
  context : GenericContext

structure TemplateOptions where
  destinationIsStatic : Bool
  trimTrailingReturn : Bool
  encoder : EncoderOptions

def TemplateOptions.standard : TemplateOptions := ⟨false, true, EncoderOptions.standard⟩

structure TemplateProcessor where
  resolver : Resolver
  placeholders : PlaceholderNamespace
  runtime : AccessorRuntime
  captures : CaptureContext

namespace TemplateProcessor

def expander (processor : TemplateProcessor) (template : TemplateMethod)
    (options : TemplateOptions) : Expander where
  captures := processor.captures
  placeholders := processor.placeholders
  runtime := processor.runtime
  options :=
    { ExpansionOptions.between template.isStatic options.destinationIsStatic with
      trimTrailingReturn := options.trimTrailingReturn }

def expandedLine (template : TemplateMethod) (decoded expanded : Body) : String :=
  "expanded template of " ++ toString template.code.length ++ " bytes: " ++
    toString decoded.items.length ++ " tokens -> " ++ toString expanded.items.length ++
    " tokens, " ++ toString expanded.locals.length ++ " locals"

variable {Builder Sink : Type} [TypeBuilder Builder]

def expand (processor : TemplateProcessor) (template : TemplateMethod)
    (options : TemplateOptions) : Action (Workspace Builder) (Body × List Accessor) := do
  let decoded ←
    (Body.decodeLogged template.code template.locals processor.resolver template.context).onPart
      fun workspace => (workspace.log, fun log => { workspace with log := log })
  let (body, accessors) ← (processor.expander template options).expand decoded
  Workspace.note .debug (expandedLine template decoded body)
  pure (body, accessors)

variable [CodeSink (Sink × CaptureTable)]

/-- Writes a body to a sink in which some locals are bound already.  The sink
can reach the capture table. -/
def write (options : EncoderOptions) (bound : List (Local × UInt16)) (body : Body) :
    Action (Workspace Builder × Sink) Unit :=
  Action.ofRun fun (workspace, sink) =>
    let action : Action (Encoder (Sink × CaptureTable)) Unit := do
      bound.forM fun (slot, index) => Encoder.bindLocal slot index
      Encoder.encodeBody body
    let start := { Encoder.onto (sink, workspace.table) options with log := workspace.log }
    let (result, encoder) := action.run start
    (result, ({ workspace with table := encoder.sink.2, log := encoder.log }, encoder.sink.1))

/-- Reads, expands and writes a template.  When it cannot be written, the
objects that it parked are withdrawn. -/
def process (processor : TemplateProcessor) (template : TemplateMethod)
    (options : TemplateOptions) (bound : List (Local × UInt16)) :
    Action (Workspace Builder × Sink) Body := do
  let onWorkspace {Result : Type} (action : Action (Workspace Builder) Result) :
      Action (Workspace Builder × Sink) Result :=
    action.onPart fun (workspace, sink) => (workspace, fun workspace => (workspace, sink))
  let (body, accessors) ← onWorkspace (processor.expand template options)
  let outcome ← ExceptT.lift (write options.encoder bound body).attempt
  match outcome with
  | .ok () => pure body
  | .error error =>
      onWorkspace (Workspace.withdraw (accessors.map Accessor.key))
      throw error

end TemplateProcessor
end CilTemplate
