import CilTemplate.Accessor.Accessor
import CilTemplate.Expansion.Target

/-
Expansion of a template.  Captures become the values that they hold,
placeholder sites become code on their targets, and all other code passes
through with its argument indices shifted to those of the destination.
-/

namespace CilTemplate

structure Expander where
  captures : CaptureContext
  placeholders : PlaceholderNamespace
  runtime : AccessorRuntime
  options : ExpansionOptions

namespace Expander

def shiftIndex (expander : Expander) (index : UInt16) : Except Error UInt16 :=
  let shifted := (index.toNat : Int) + expander.options.argumentOffset
  if 0 ≤ shifted ∧ shifted ≤ 0xFFFF then .ok shifted.toNat.toUInt16
  else .error (.invalidArgumentIndex shifted)

def shiftArgument (expander : Expander) :
    Instruction Label → Except Error (Instruction Label)
  | .argument access index => (expander.shiftIndex index).map (.argument access)
  | instruction => .ok instruction

def siteLine (start : Nat) (site : PlaceholderSite) : String :=
  "expanding " ++ site.kind.name ++ " placeholder at token " ++ toString start ++
    " with " ++ toString site.operation.parameterCount ++ " argument(s)"

/-- Expands code whose first item is the one at `index`.  The arguments of a
site are expanded by themselves. -/
def expandItems (expander : Expander) (index : Nat) (items : List CodeItem) :
    Expansion (List ExpandedItem) :=
  match items with
  | [] => pure []
  | .mark label :: rest => do
      let expanded ← expandItems expander (index + 1) rest
      pure (.item (.mark label) :: expanded)
  | .code instruction :: rest =>
      let receiverCaptures := expander.options.receiverCaptures
      match expander.placeholders.accessLength? receiverCaptures
          (.code instruction :: rest) with
      | some accessLength =>
          match PlaceholderSite.read expander.placeholders receiverCaptures index accessLength
              (.code instruction :: rest) with
          | .error error => throw error
          | .ok ⟨site, _shorter⟩ => do
              Pass.note (siteLine index site)
              let code ← SiteCode.ofSite expander.captures expander.options site
              let values ← site.values.attach.mapM fun ⟨value, _⟩ =>
                expandItems expander 0 value
              let after ← Action.ofExcept code.after
              let expanded ← expandItems expander (index + site.length) site.rest
              pure (code.before.map ExpandedItem.code ++ values.flatten ++
                after.map ExpandedItem.code ++ expanded)
      | none =>
          if receiverCaptures && instruction == .argument .load 0 then do
            let (use, length) ← Pass.receiverUse expander.captures index rest
            let code ← Pass.useCapture use
            let expanded ← expandItems expander (index + length) (rest.drop (length - 1))
            pure (code ++ expanded)
          else
            match expander.placeholders.operation? instruction with
            | some operation =>
                throw (.unsupportedPlaceholder (.withoutAccess operation.text index))
            | none => do
                let shifted ← Action.ofExcept (expander.shiftArgument instruction)
                let expanded ← expandItems expander (index + 1) rest
                pure (.code shifted :: expanded)
termination_by items.length
decreasing_by
  · simp
  · exact _shorter.2 _ (by assumption)
  · exact _shorter.1
  · simp only [List.length_cons, List.length_drop]
    omega
  · simp

/-- A final return belongs to the template, not to the destination. -/
def trimmed (expander : Expander) (items : List CodeItem) : List CodeItem :=
  if expander.options.trimTrailingReturn && items.getLast? == some (.code .ret) then
    items.dropLast
  else items

/-- Calls the accessors.  Every number is that of a collected object, so each
call has its accessor. -/
def placeCalls (accessors : List Accessor) : List ExpandedItem → List CodeItem
  | [] => []
  | .item item :: rest => item :: placeCalls accessors rest
  | .accessorCall number :: rest =>
      ((accessors[number]?).map fun accessor => .code (.call accessor.method)).toList ++
        placeCalls accessors rest

variable {Builder : Type}

/-- The part of expansion that generates no code. -/
def expandPass (expander : Expander) (body : Body) :
    Action (Workspace Builder) (List ExpandedItem × Pass) := do
  let workspace ← get
  let (result, pass) :=
    (expander.expandItems 0 (expander.trimmed body.items)).run
      (Pass.start body.locals.length workspace.reads workspace.log)
  set { workspace with reads := pass.reads, log := pass.log }
  let expanded ← Action.ofExcept result
  pure (expanded, pass)

variable [TypeBuilder Builder]

def expand (expander : Expander) (body : Body) :
    Action (Workspace Builder) (Body × List Accessor) := do
  let (expanded, pass) ← expander.expandPass body
  let accessors ← Accessor.defineAll expander.runtime pass.objects []
  pure (⟨body.locals ++ pass.temporaries.toList, placeCalls accessors expanded⟩, accessors)

/-- Puts the expanded body in the place of the body.  Failure leaves it as it
was. -/
def expandInPlace (expander : Expander) :
    Action (Body × Workspace Builder) (List Accessor) := do
  let (body, _) ← get
  let (expanded, accessors) ← (expander.expand body).onPart fun (body, workspace) =>
    (workspace, fun workspace => (body, workspace))
  modify fun (_, workspace) => (expanded, workspace)
  pure accessors

end Expander
end CilTemplate
