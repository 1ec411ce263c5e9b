import CilTemplate.Proofs.Expansion.Accessors
import CilTemplate.Proofs.Expansion.Sites

/-
Expansion of nested code.  A site hands each of its values to the same
function again, so the code inside is replaced first and the code around it
is built from what it has become.
-/

namespace CilTemplate

open CilTemplate.Action PlaceholderNamespace

namespace Expander

variable {expander : Expander} {value : CaptureSite → CapturedValue} {start pass : Pass}
  {uses : CaptureUses}

theorem expandItems_plain {index : Nat} {instruction : Instruction Label} {rest : List CodeItem}
    (plain : instruction.Plain expander) :
    expander.expandItems index (.code instruction :: rest) = (do
      let shifted ← Action.ofExcept (expander.shiftArgument instruction)
      let expanded ← expander.expandItems (index + 1) rest
      pure (.code shifted :: expanded)) := by
  have access := plain.access
  rw [← accessLength?_cons _ _ plain.receiver rest] at access
  have unread : (expander.options.receiverCaptures && instruction == .argument .load 0) =
      false := by
    cases receiver : expander.options.receiverCaptures with
    | false => rfl
    | true => simpa using plain.receiver receiver
  rw [expandItems]
  simp only [access, unread, plain.operation, Bool.false_eq_true, if_false]

theorem expandItems_read {index : Nat} {read : CaptureRead} {rest : List CodeItem}
    (resolves : read.Resolves expander) :
    expander.expandItems index (read.items ++ rest) = (do
      let (use, length) ← Pass.receiverUse expander.captures index (read.following ++ rest)
      let code ← Pass.useCapture use
      let expanded ← expander.expandItems (index + length)
        ((read.following ++ rest).drop (length - 1))
      pure (code ++ expanded)) := by
  have access := PlaceholderSite.accessLength?_read resolves rest
  rw [← resolves.receiver] at access
  rw [CaptureRead.items, List.cons_append] at access ⊢
  have loads : (expander.options.receiverCaptures &&
      (.argument .load 0 : Instruction Label) == .argument .load 0) = true := by
    simp [resolves.receiver]
  rw [expandItems]
  simp only [access, loads, if_true]

/-- The values of a site are expanded by themselves. -/
theorem expandItems_site {index accessLength : Nat} {items : List CodeItem}
    {site : PlaceholderSite}
    {shorter : site.rest.length < items.length ∧
      ∀ value ∈ site.values, value.length < items.length}
    (accesses : expander.placeholders.accessLength? expander.options.receiverCaptures items =
      some accessLength)
    (found : PlaceholderSite.read expander.placeholders expander.options.receiverCaptures index
      accessLength items = .ok ⟨site, shorter⟩) :
    expander.expandItems index items = (do
      Pass.note (siteLine index site)
      let code ← SiteCode.ofSite expander.captures expander.options site
      let values ← site.values.mapM (expander.expandItems 0)
      let after ← Action.ofExcept code.after
      let expanded ← expander.expandItems (index + site.length) site.rest
      pure (code.before.map ExpandedItem.code ++ values.flatten ++
        after.map ExpandedItem.code ++ expanded)) := by
  match items with
  | [] => cases accesses
  | .mark label :: rest => cases accesses
  | .code instruction :: rest =>
      rw [expandItems]
      simp only [accesses, found]
      simp only [List.mapM_subtype, List.unattach_attach]

theorem expandItems_site_error {index accessLength : Nat} {items : List CodeItem} {error : Error}
    (accesses : expander.placeholders.accessLength? expander.options.receiverCaptures items =
      some accessLength)
    (failed : PlaceholderSite.read expander.placeholders expander.options.receiverCaptures index
      accessLength items = .error error) :
    expander.expandItems index items = throw error := by
  match items with
  | [] => cases accesses
  | .mark label :: rest => cases accesses
  | .code instruction :: rest =>
      rw [expandItems]
      simp only [accesses, failed]

theorem shiftArgument_plain {instruction : Instruction Label}
    (plain : instruction.Plain expander) :
    expander.shiftArgument instruction =
      .ok (instruction.shifted expander.options.argumentOffset) := by
  cases instruction with
  | argument access index =>
      have inRange := plain.argument access index rfl
      simp only [shiftArgument, shiftIndex, inRange, and_self, if_true, Instruction.shifted]
      rfl
  | _ => rfl

theorem handled_note {text : String} (handled : Pass.Handled start value uses pass) :
    ∃ after, run (Pass.note text) pass = (.ok (), after) ∧
      Pass.Handled start value uses after :=
  ⟨_, rfl, handled.memo, handled.reads, handled.firstSlot, handled.temporaries, handled.objects⟩

def numberedBy (all : CaptureUses) (output : List OutputItem) : List ExpandedItem :=
  output.map (OutputItem.numbered all.numberOf)

theorem numberedBy_append (all : CaptureUses) (left right : List OutputItem) :
    numberedBy all (left ++ right) = numberedBy all left ++ numberedBy all right :=
  List.map_append

theorem numberedBy_flatten (all : CaptureUses) (parts : List (List OutputItem)) :
    numberedBy all parts.flatten = (parts.map (numberedBy all)).flatten :=
  List.map_flatten

theorem numberedBy_code (all : CaptureUses) (code : List (Instruction Label)) :
    numberedBy all (code.map OutputItem.code) = code.map ExpandedItem.code :=
  List.map_map

theorem of?_of_classified {operation : Method} {kind : PlaceholderKind} {target : CaptureRead}
    {replacement : Replacement} (classified : classify operation = .ok kind)
    (replaced : Replacement.ofSite? value target operation = some replacement) :
    Replacement.of? operation kind (value target.site) = some replacement := by
  unfold classify at classified
  cases named : PlaceholderKind.ofName? operation.name with
  | none =>
      rw [named] at classified
      cases classified
  | some found =>
      simp only [named] at classified
      split at classified
      · cases classified
        simpa [Replacement.ofSite?, named] using replaced
      · cases classified

/-- Wherever the code stands, it is replaced by its output, and the pass has then
handled the captures that the code uses. -/
def Expands (expander : Expander) (value : CaptureSite → CapturedValue) (start : Pass)
    (code : TemplateCode) : Prop :=
  ∀ (uses later : CaptureUses) (pass : Pass), Pass.Handled start value uses pass →
    expander.captures.Answers start.reads.size value
      (uses ++ code.uses value ++ later).sites →
    ∀ index, ∃ after, run (expander.expandItems index code.items) pass =
        (.ok (numberedBy (uses ++ code.uses value ++ later)
          (code.output value expander.options.argumentOffset start.firstSlot
            uses.copies.length)), after) ∧
      Pass.Handled start value (uses ++ code.uses value) after

def ExpandsValues (expander : Expander) (value : CaptureSite → CapturedValue) (start : Pass)
    (values : TemplateValues) : Prop :=
  ∀ (uses later : CaptureUses) (pass : Pass), Pass.Handled start value uses pass →
    expander.captures.Answers start.reads.size value
      (uses ++ values.uses value ++ later).sites →
    ∃ after, run (values.items.mapM (expander.expandItems 0)) pass =
        (.ok ((values.output value expander.options.argumentOffset start.firstSlot
            uses.copies.length).map (numberedBy (uses ++ values.uses value ++ later))), after) ∧
      Pass.Handled start value (uses ++ values.uses value) after

variable {rest : TemplateCode}

theorem expands_done : Expands expander value start .done := by
  intro uses later pass handled _ index
  refine ⟨pass, ?_, (CaptureUses.append_none uses).symm ▸ handled⟩
  rw [TemplateCode.items, expandItems]
  rfl

theorem expands_mark (label : Label) (expands : Expands expander value start rest) :
    Expands expander value start (.mark label rest) := by
  intro uses later pass handled answers index
  obtain ⟨after, ran, handledAfter⟩ := expands uses later pass handled answers (index + 1)
  refine ⟨after, ?_, handledAfter⟩
  rw [TemplateCode.items, expandItems]
  simp only [run_bind, ran, run_pure]
  rfl

theorem expands_plain {instruction : Instruction Label} (plain : instruction.Plain expander)
    (expands : Expands expander value start rest) :
    Expands expander value start (.plain instruction rest) := by
  intro uses later pass handled answers index
  obtain ⟨after, ran, handledAfter⟩ := expands uses later pass handled answers (index + 1)
  refine ⟨after, ?_, handledAfter⟩
  rw [TemplateCode.items, expandItems_plain plain]
  simp only [run_bind, shiftArgument_plain plain, run_ofExcept, ran, run_pure]
  rfl

theorem expands_read {read : CaptureRead} (resolves : read.Resolves expander)
    (loadable : (value read.site).load?.isSome) (expands : Expands expander value start rest) :
    Expands expander value start (.read read rest) := by
  intro uses later pass handled answers index
  simp only [TemplateCode.uses] at answers ⊢
  let named : CaptureUses := ⟨[read.site], [], []⟩
  let loaded : CaptureUses := ⟨[], (value read.site).object?.toList, read.copyType?.toList⟩
  have parts : read.uses value = named ++ loaded := rfl
  have shape : uses ++ (read.uses value ++ rest.uses value) ++ later =
      uses ++ named ++ loaded ++ (rest.uses value ++ later) := by simp [parts]
  have further : uses ++ (read.uses value ++ rest.uses value) ++ later =
      uses ++ named ++ loaded ++ rest.uses value ++ later := by simp [parts]
  have answersRead : expander.captures.Answers start.reads.size value (uses ++ named).sites := by
    rw [shape, CaptureUses.append_assoc (uses ++ named)] at answers
    exact answers.earlier
  obtain ⟨readPass, readRan, handledRead⟩ := Pass.run_receiverUse read handled resolves
    answersRead index rest.items
  obtain ⟨loadPass, loads, loadRan, handledLoad, output⟩ :=
    Pass.run_useCapture read handledRead loadable
  obtain ⟨after, ranRest, handledAfter⟩ := expands (uses ++ named ++ loaded) later loadPass
    handledLoad (further ▸ answers) (index + read.items.length)
  have behind : (read.following ++ rest.items).drop (read.items.length - 1) = rest.items :=
    List.drop_left
  have written := output (rest.uses value ++ later)
  have sameCount : (uses ++ named).copies.length = uses.copies.length := by simp [named]
  have nextCount : (uses ++ named ++ loaded).copies.length =
      uses.copies.length + (read.uses value).copies.length := by simp [parts, named]
  refine ⟨after, ?_, by simpa [parts] using handledAfter⟩
  rw [TemplateCode.items, expandItems_read resolves]
  simp only [run_bind, readRan, loadRan, behind, ranRest, run_pure]
  rw [sameCount, ← shape] at written
  rw [nextCount, ← further, TemplateCode.output, numberedBy, numberedBy, List.map_append,
    ← written]

/-- The values are expanded between the code in front of them and the code
behind them, each with the captures of the earlier ones handled. -/
theorem expands_site {access : List CodeItem} {target : CaptureRead} {values : TemplateValues}
    {operation : Method}
    (accepted : SiteAccepted expander value access target values.items operation)
    (wellFormed : values.WellFormed expander value)
    (expandsValues : ExpandsValues expander value start values)
    (expands : Expands expander value start rest) :
    Expands expander value start (.site access target values operation rest) := by
  intro uses later pass handled answers index
  simp only [TemplateCode.uses] at answers ⊢
  let named : CaptureUses := ⟨[target.site], [], []⟩
  have shape : uses ++ (named ++ (values.uses value ++ rest.uses value)) ++ later =
      uses ++ named ++ values.uses value ++ (rest.uses value ++ later) := by simp
  have further : uses ++ (named ++ (values.uses value ++ rest.uses value)) ++ later =
      uses ++ named ++ values.uses value ++ rest.uses value ++ later := by simp
  have answersTarget : expander.captures.Answers start.reads.size value
      (uses ++ named).sites := by
    have whole := answers
    rw [shape, CaptureUses.append_assoc (uses ++ named)] at whole
    exact whole.earlier
  rcases accepted.classified with ⟨kind, classified⟩
  rcases accepted.replaced with ⟨replacement, replaced, reachable⟩
  obtain ⟨site, shorter, located, sameKind, sameOperation, sameTarget, sameValues, sameRest⟩ :=
    PlaceholderSite.read_site accepted wellFormed classified index rest.items
  have arity : site.operation.parameterCount = site.values.length + 1 := by
    rw [sameOperation, sameValues]
    exact accepted.arity
  have becomes : Replacement.of? site.operation site.kind (value target.site) =
      some replacement := by
    rw [sameOperation, sameKind]
    exact of?_of_classified classified replaced
  obtain ⟨notePass, noted, handledNote⟩ :=
    @handled_note value start pass uses (siteLine index site) handled
  obtain ⟨targetPass, targetRan, handledTarget⟩ := SiteCode.run_ofSite handledNote
    accepted.resolves accepted.byValue answersTarget sameTarget arity becomes reachable
  obtain ⟨valuePass, valuesRan, handledValues⟩ := expandsValues (uses ++ named)
    (rest.uses value ++ later) targetPass handledTarget (shape ▸ answers)
  obtain ⟨after, ranRest, handledAfter⟩ := expands (uses ++ named ++ values.uses value) later
    valuePass handledValues (further ▸ answers) (index + site.length)
  have sameCount : (uses ++ named).copies.length = uses.copies.length := by simp [named]
  have nextCount : (uses ++ named ++ values.uses value).copies.length =
      uses.copies.length + (values.uses value).copies.length := by simp [named]
  have accesses := accessLength?_append expander.placeholders accepted.accesses
    (target.items ++ (values.items.flatten ++ .code (.call operation) :: rest.items))
  refine ⟨after, ?_, by simpa using handledAfter⟩
  rw [← accepted.resolves.receiver] at accesses located
  rw [TemplateCode.items, expandItems_site accesses located, sameValues, sameRest]
  simp only [run_bind, noted, targetRan, valuesRan, run_ofExcept, ranRest, run_pure]
  rw [sameCount, nextCount, ← shape, ← further, TemplateCode.output, replaced, Option.getD_some]
  simp only [numberedBy_append, numberedBy_flatten, numberedBy_code]
  rfl

theorem expandsValues_value {code : TemplateCode} {rest : TemplateValues}
    (expands : Expands expander value start code)
    (expandsRest : ExpandsValues expander value start rest) :
    ExpandsValues expander value start (.value code rest) := by
  intro uses later pass handled answers
  simp only [TemplateValues.uses] at answers ⊢
  have shape : uses ++ (code.uses value ++ rest.uses value) ++ later =
      uses ++ code.uses value ++ (rest.uses value ++ later) := by simp
  have further : uses ++ (code.uses value ++ rest.uses value) ++ later =
      uses ++ code.uses value ++ rest.uses value ++ later := by simp
  obtain ⟨middle, ran, handledMiddle⟩ := expands uses (rest.uses value ++ later) pass handled
    (shape ▸ answers) 0
  obtain ⟨after, ranRest, handledAfter⟩ := expandsRest (uses ++ code.uses value) later middle
    handledMiddle (further ▸ answers)
  rw [CaptureUses.append_assoc] at handledAfter
  refine ⟨after, ?_, handledAfter⟩
  rw [← shape] at ran
  rw [← further, CaptureUses.copies_append, List.length_append] at ranRest
  simp only [TemplateValues.items, List.mapM_cons, run_bind, ran, ranRest, run_pure]
  rfl

mutual

theorem expands_of_wellFormed (code : TemplateCode)
    (wellFormed : code.WellFormed expander value) : Expands expander value start code := by
  cases code with
  | done => exact expands_done
  | mark label rest => exact expands_mark label (expands_of_wellFormed rest wellFormed)
  | plain instruction rest =>
      exact expands_plain wellFormed.1 (expands_of_wellFormed rest wellFormed.2)
  | read found rest =>
      rcases wellFormed with ⟨resolves, loadable, restWellFormed⟩
      exact expands_read resolves loadable (expands_of_wellFormed rest restWellFormed)
  | site access target values operation rest =>
      rcases wellFormed with ⟨accepted, valuesWellFormed, restWellFormed⟩
      exact expands_site accepted valuesWellFormed
        (expandsValues_of_wellFormed values valuesWellFormed)
        (expands_of_wellFormed rest restWellFormed)

theorem expandsValues_of_wellFormed (values : TemplateValues)
    (wellFormed : values.WellFormed expander value) :
    ExpandsValues expander value start values := by
  cases values with
  | none =>
      intro uses later pass handled _
      exact ⟨pass, rfl, (CaptureUses.append_none uses).symm ▸ handled⟩
  | value code rest =>
      rcases wellFormed with ⟨-, codeWellFormed, restWellFormed⟩
      exact expandsValues_value (expands_of_wellFormed code codeWellFormed)
        (expandsValues_of_wellFormed rest restWellFormed)

end

def loadedObjects (output : List OutputItem) : List CapturedObject :=
  output.filterMap fun item =>
    match item with
    | .item _ => none
    | .object object => some object

variable (offset : Int) (firstSlot : Nat)

theorem loadedObjects_append (left right : List OutputItem) :
    loadedObjects (left ++ right) = loadedObjects left ++ loadedObjects right :=
  List.filterMap_append

theorem loadedObjects_code (code : List (Instruction Label)) :
    loadedObjects (code.map OutputItem.code) = [] := by
  induction code with
  | nil => rfl
  | cons instruction rest inductionHypothesis => exact inductionHypothesis

theorem loadedObjects_load (loaded : CapturedValue) :
    loadedObjects loaded.load?.toList = loaded.object?.toList := by
  unfold CapturedValue.load?
  cases loaded.object? with
  | some object => rfl
  | none => cases loaded.literal? <;> rfl

theorem loadedObjects_read (read : CaptureRead) (number : Nat) :
    loadedObjects (read.output value firstSlot number) = (read.uses value).objects := by
  rw [CaptureRead.output, loadedObjects_append, loadedObjects_load]
  cases read.copyType? with
  | none => exact List.append_nil _
  | some type => exact List.append_nil _

mutual

theorem loadedObjects_output (code : TemplateCode) (number : Nat) :
    loadedObjects (code.output value offset firstSlot number) = (code.uses value).objects := by
  cases code with
  | done => rfl
  | plain instruction rest => exact loadedObjects_output rest number
  | mark label rest => exact loadedObjects_output rest number
  | read found rest =>
      rw [TemplateCode.output, TemplateCode.uses, loadedObjects_append, loadedObjects_read,
        loadedObjects_output rest]
      rfl
  | site access target values operation rest =>
      rw [TemplateCode.output, TemplateCode.uses]
      simp only [loadedObjects_append, loadedObjects_code, loadedObjects_values values,
        loadedObjects_output rest, CaptureUses.objects_append, List.nil_append, List.append_nil]

theorem loadedObjects_values (values : TemplateValues) (number : Nat) :
    loadedObjects (values.output value offset firstSlot number).flatten =
      (values.uses value).objects := by
  cases values with
  | none => rfl
  | value code rest =>
      rw [TemplateValues.output, TemplateValues.uses, List.flatten_cons, loadedObjects_append,
        loadedObjects_output code, loadedObjects_values rest]
      rfl

end

theorem placeCalls_numberedBy {all : CaptureUses} {accessors : List Accessor}
    {accessorOf : CapturedObject → Method} (output : List OutputItem)
    (covered : ∀ object ∈ loadedObjects output, ∃ accessor,
      accessors[all.numberOf object]? = some accessor ∧ accessorOf object = accessor.method) :
    placeCalls accessors (numberedBy all output) =
      output.map (OutputItem.placed accessorOf) := by
  induction output with
  | nil => rfl
  | cons item rest inductionHypothesis =>
      cases item with
      | item found => exact congrArg _ (inductionHypothesis covered)
      | object object =>
          obtain ⟨accessor, known, method⟩ := covered object List.mem_cons_self
          have others := inductionHypothesis fun other member =>
            covered other (List.mem_cons_of_mem _ member)
          change ((accessors[all.numberOf object]?).map _).toList ++
            placeCalls accessors (numberedBy all rest) = _
          rw [known, others, List.map_cons, OutputItem.placed, method]
          rfl

variable {Builder : Type} [TypeBuilder Builder] {trusted : Builder → Prop}

/-- Expansion replaces every placeholder site, however deep the sites are
nested.  The values of the captures are what the closures answer, and an object
is loaded by a call on the accessor of its cell. -/
theorem expand_replaces_sites (obliges : TypeBuilder.Obliges trusted) (expander : Expander)
    (value : CaptureSite → CapturedValue) (code : TemplateCode) (body : Body)
    (workspace : Workspace Builder)
    (stream : expander.trimmed body.items = code.items)
    (wellFormed : code.WellFormed expander value)
    (answers : expander.captures.Answers workspace.reads.size value (code.uses value).sites)
    (builder : trusted workspace.builder)
    (room : workspace.table.HasRoom (code.uses value).cells.length) :
    ∃ accessors accessorOf after,
      run (expander.expand body) workspace =
        (.ok (⟨body.locals ++
              Pass.temporariesFor body.locals.length (code.uses value).copies,
            (code.output value expander.options.argumentOffset body.locals.length 0).map
              (OutputItem.placed accessorOf)⟩, accessors), after) ∧
      accessors.length = (code.uses value).cells.length ∧
      ∀ object ∈ (code.uses value).objects, ∃ accessor,
        accessors[(code.uses value).numberOf object]? = some accessor ∧
          accessorOf object = accessor.method := by
  let start := Pass.start body.locals.length workspace.reads workspace.log
  let uses := code.uses value
  have started := Pass.Handled.start start value rfl rfl rfl
  have whole : CaptureUses.none ++ uses ++ CaptureUses.none = uses := by
    rw [CaptureUses.append_none]
    rfl
  obtain ⟨pass, expanded, handled⟩ := expands_of_wellFormed code wellFormed .none .none start
    started (whole.symm ▸ answers) 0
  have objects : pass.objects = uses.cells := handled.objects
  have temporaries : pass.temporaries.toList =
      Pass.temporariesFor body.locals.length uses.copies := handled.temporaries
  rw [whole] at expanded
  obtain ⟨accessors, after, defined, count⟩ := Accessor.run_defineAll obliges expander.runtime
    uses.cells [] { workspace with reads := pass.reads, log := pass.log } builder room
  rw [List.length_nil, Nat.zero_add] at count
  let accessorOf (object : CapturedObject) : Method :=
    ((accessors[uses.numberOf object]?).map Accessor.method).getD expander.runtime.takeMethod
  have covered : ∀ object ∈ uses.objects, ∃ accessor,
      accessors[uses.numberOf object]? = some accessor ∧
        accessorOf object = accessor.method := by
    intro object member
    have below : uses.numberOf object < accessors.length := by
      rw [count]
      exact CaptureUses.numberOf_lt member
    have known := List.getElem?_eq_getElem below
    exact ⟨accessors[uses.numberOf object], known, by simp only [accessorOf, known]; rfl⟩
  refine ⟨accessors, accessorOf, after, ?_, count, covered⟩
  have placed := @placeCalls_numberedBy uses accessors accessorOf
    (code.output value expander.options.argumentOffset body.locals.length 0)
    (by rw [loadedObjects_output]; exact covered)
  simp only [expand, expandPass, run_bind, run_get, run_set, run_ofExcept, run_pure, stream]
  rw [expanded]
  simp only [objects, defined, temporaries]
  rw [← placed]
  rfl

end Expander
namespace NestedSample

def voidType : CilType := ⟨⟨0x02000001⟩, "System", "Void", "Host", .void, 1⟩

def valueType : CilType := ⟨⟨0x02000002⟩, "Demo", "Value", "Demo", .reference, 1⟩

def surrogateType : CilType := ⟨⟨0x02000003⟩, "Demo", "Surrogate", "Demo", .reference, 1⟩

def closureType : CilType := ⟨⟨0x02000004⟩, "", "Closure", "Demo", .reference, 1⟩

def operation (row : UInt32) (name : String) (arity : Nat) (returnType : CilType) : Method :=
  ⟨⟨0x0A000000 + row⟩, name, surrogateType, List.replicate arity valueType, some returnType, 0⟩

def namespaceField : Field := ⟨⟨0x04000001⟩, "member", surrogateType, surrogateType, 0x10⟩

def count : Field := ⟨⟨0x04000002⟩, "count", valueType, valueType, 0⟩

def scale : Method :=
  ⟨⟨0x06000001⟩, "Scale", valueType, [valueType, valueType], some valueType, 0⟩

def slot : Local := ⟨.index 7, some "result", ⟨valueType, false⟩⟩

def payload : CapturedObject := ⟨valueType, 1⟩

def captured (row : UInt32) : Field :=
  ⟨⟨0x04000010 + row⟩, "captured", closureType, valueType, 0⟩

def closure : Closure :=
  ⟨closureType,
    [(captured 1, .member (.field count)), (captured 2, .member (.localSlot slot)),
      (captured 3, .member (.method scale)), (captured 4, .object payload)], [], []⟩

def value (site : CaptureSite) : CapturedValue :=
  match site.member with
  | .field field => (closure.fields.lookup field).getD .null
  | .getter _ => .null

def runtime : AccessorRuntime :=
  let method : Method := ⟨⟨0x06000002⟩, "Take", valueType, [], some valueType, 0x10⟩
  ⟨valueType, valueType, method, method⟩

def expander : Expander :=
  ⟨⟨some closure.object, none⟩, ⟨surrogateType⟩, runtime, ExpansionOptions.standard⟩

def read (row : UInt32) : CaptureRead := ⟨none, ⟨.template, .field (captured row)⟩, false⟩

def access : List CodeItem := [.code (.field .ofType .load namespaceField)]

def getSite : TemplateCode := .site access (read 1) .none (operation 1 "Get" 1 valueType) .done

def callSite : TemplateCode :=
  .site access (read 3) (.value getSite (.value (.read (read 4) .done) .none))
    (operation 2 "Call" 3 valueType) .done

def code : TemplateCode :=
  .site access (read 2) (.value callSite .none) (operation 3 "Set" 2 voidType) .done

def body : Body := ⟨[], code.items ++ [.code .ret]⟩

def workspace : Workspace Draft :=
  Workspace.start (Draft.start "Dynamic" [] ⟨none, none, none⟩ none) CaptureTable.empty

theorem resolves (row : UInt32) (listed : row ∈ [1, 2, 3, 4]) :
    (read row).Resolves expander where
  receiver := rfl
  reference := by
    intro field member
    cases member
  direct := by
    intro _ field _
    exact Bool.and_false _
  owned := by
    simp only [List.mem_cons, List.not_mem_nil, or_false] at listed
    rcases listed with rfl | rfl | rfl | rfl <;> decide
  apart := rfl

theorem quiet (row : UInt32) : (read row).instruction.Quiet expander := ⟨rfl, rfl⟩

theorem getSite_wellFormed : getSite.WellFormed expander value :=
  ⟨⟨rfl, resolves 1 (by decide), quiet 1, rfl, by decide, rfl, ⟨.get, by decide⟩,
    ⟨_, rfl, by decide⟩, by decide +kernel⟩, trivial, trivial⟩

theorem callSite_wellFormed : callSite.WellFormed expander value :=
  ⟨⟨rfl, resolves 3 (by decide), quiet 3, rfl, by decide, rfl, ⟨.call, by decide⟩,
    ⟨_, rfl, by decide⟩, by decide +kernel⟩,
    ⟨trivial, getSite_wellFormed, ⟨quiet 4, trivial⟩, ⟨resolves 4 (by decide), rfl, trivial⟩, trivial⟩,
    trivial⟩

theorem code_wellFormed : code.WellFormed expander value :=
  ⟨⟨rfl, resolves 2 (by decide), quiet 2, rfl, by decide, rfl, ⟨.set, by decide⟩,
    ⟨_, rfl, by decide⟩, by decide +kernel⟩,
    ⟨trivial, callSite_wellFormed, trivial⟩, trivial⟩

theorem answers : expander.captures.Answers 0 value (code.uses value).sites := by
  intro index site known
  have member := List.mem_eraseDups.mp (List.mem_of_getElem? known)
  have sites : (code.uses value).sites =
      [(read 2).site, (read 3).site, (read 1).site, (read 4).site] := rfl
  rw [sites] at member
  simp only [List.mem_cons, List.not_mem_nil, or_false] at member
  rcases member with rfl | rfl | rfl | rfl <;> exact ⟨closure.object, rfl, by rfl⟩

end NestedSample

open NestedSample in
theorem expand_replaces_sites_three_deep :
    ∃ accessor after, run (expander.expand body) workspace =
      (.ok (⟨[], [.code (.argument .load 0), .code (.argument .load 0),
          .code (.field .ofObject .load count), .code (.call accessor.method),
          .code (.call scale), .code (.localSlot .store slot)]⟩, [accessor]), after) := by
  have room : workspace.table.HasRoom (code.uses value).cells.length :=
    ⟨by decide, fun _ _ => rfl⟩
  obtain ⟨accessors, accessorOf, after, expanded, length, calls⟩ :=
    Expander.expand_replaces_sites Draft.obliges expander value code body workspace
      (by decide +kernel) code_wellFormed answers ⟨rfl, rfl⟩ room
  obtain ⟨accessor, rfl⟩ := List.length_eq_one_iff.mp length
  obtain ⟨called, found, method⟩ := calls payload List.mem_cons_self
  have first : (code.uses value).numberOf payload = 0 := by decide
  rw [first] at found
  cases found
  refine ⟨accessor, after, expanded.trans ?_⟩
  rw [← method]
  rfl

end CilTemplate
