import CilTemplate.Proofs.Expansion.Effects
import CilTemplate.Proofs.Expansion.Remainder

/-
Calls on delegates that the template constructs.  The delegate itself is left
out, and its method is called on the receiver of the destination instead of on
what the delegate binds.
-/

namespace CilTemplate

open CilTemplate.Action

namespace Action

variable {Item State Result : Type}

theorem exists_run_of_mapM {action : Item → Action State Result} {items : List Item}
    {results : List Result} {before after : State} {item : Item} (member : item ∈ items)
    (done : run (items.mapM action) before = (.ok results, after)) :
    ∃ result ∈ results, ∃ earlier later, run (action item) earlier = (.ok result, later) := by
  induction items generalizing before after results with
  | nil => cases member
  | cons first rest inductionHypothesis =>
      rw [List.mapM_cons] at done
      obtain ⟨result, middle, here, done⟩ := run_bind_eq_ok.mp done
      obtain ⟨others, _, later, ended⟩ := run_bind_eq_ok.mp done
      obtain ⟨same, _⟩ := Prod.mk.inj ended
      rw [← Except.ok.inj same]
      rcases List.mem_cons.mp member with rfl | earlier
      · exact ⟨result, List.mem_cons_self, before, middle, here⟩
      · obtain ⟨found, listed, ran⟩ := inductionHypothesis earlier later
        exact ⟨found, List.mem_cons_of_mem _ listed, ran⟩

end Action

/-- The number of items of a use of a capture, with the load of the receiver in
front of the items that follow. -/
def CaptureContext.useLength (captures : CaptureContext) (following : List CodeItem) : Nat :=
  match following.head?.bind CodeItem.instruction? with
  | some (.field .ofObject .load field) => if captures.isCallbackReference field then 3 else 2
  | _ => 2

theorem Pass.length_of_receiverUse {captures : CaptureContext} {token length : Nat}
    {following : List CodeItem} {use : CaptureUse} {pass after : Pass}
    (done : run (receiverUse captures token following) pass = (.ok (use, length), after)) :
    length = captures.useLength following := by
  obtain ⟨reference, behind, rfl, rfl, leads, direct, _⟩ := closureUse_of_receiverUse done
  cases reference with
  | some field => exact (if_pos (leads field rfl)).symm
  | none =>
      change 2 = captures.useLength behind
      unfold CaptureContext.useLength
      split
      · rename_i field isReference
        rw [direct rfl field isReference]
        rfl
      · rfl

namespace Expander

/-- Expansion of the code whose first item has the index comes to the site: it
is there, in a value of a site, behind one, or behind other code. -/
inductive Meets (expander : Expander) : Nat → List CodeItem → PlaceholderSite → Prop
  | here {index length : Nat} {items : List CodeItem} {site : PlaceholderSite} {shorter}
      (accesses : expander.placeholders.accessLength? expander.options.receiverCaptures items =
        some length)
      (found : PlaceholderSite.read expander.placeholders expander.options.receiverCaptures
        index length items = .ok ⟨site, shorter⟩) :
      Meets expander index items site
  | inside {index length : Nat} {items value : List CodeItem} {outer site : PlaceholderSite}
      {shorter}
      (accesses : expander.placeholders.accessLength? expander.options.receiverCaptures items =
        some length)
      (found : PlaceholderSite.read expander.placeholders expander.options.receiverCaptures
        index length items = .ok ⟨outer, shorter⟩)
      (member : value ∈ outer.values) (meets : Meets expander 0 value site) :
      Meets expander index items site
  | behindSite {index length : Nat} {items : List CodeItem} {first site : PlaceholderSite}
      {shorter}
      (accesses : expander.placeholders.accessLength? expander.options.receiverCaptures items =
        some length)
      (found : PlaceholderSite.read expander.placeholders expander.options.receiverCaptures
        index length items = .ok ⟨first, shorter⟩)
      (meets : Meets expander (index + first.length) first.rest site) :
      Meets expander index items site
  | behindUse {index : Nat} {following : List CodeItem} {site : PlaceholderSite}
      (receiver : expander.options.receiverCaptures = true)
      (noAccess : expander.placeholders.accessLength? expander.options.receiverCaptures
        (.code (.argument .load 0) :: following) = none)
      (meets : Meets expander (index + expander.captures.useLength following)
        (following.drop (expander.captures.useLength following - 1)) site) :
      Meets expander index (.code (.argument .load 0) :: following) site
  | behindItem {index : Nat} {item : CodeItem} {rest : List CodeItem} {site : PlaceholderSite}
      (noAccess : expander.placeholders.accessLength? expander.options.receiverCaptures
        (item :: rest) = none)
      (noUse : (expander.options.receiverCaptures && SiteCode.loadsReceiver item) = false)
      (meets : Meets expander (index + 1) rest site) :
      Meets expander index (item :: rest) site

/-- The site was made into code, and the code stands in the output. -/
def Replaces (expander : Expander) (site : PlaceholderSite) (output : List ExpandedItem) : Prop :=
  ∃ (before after : Pass) (code : SiteCode) (values : List ExpandedItem)
    (behind : List (Instruction Label)),
    run (SiteCode.ofSite expander.captures expander.options site) before = (.ok code, after) ∧
    code.after = .ok behind ∧
    code.before.map ExpandedItem.code ++ values ++ behind.map ExpandedItem.code <:+: output

theorem Replaces.mono {expander : Expander} {site : PlaceholderSite}
    {output more : List ExpandedItem} (replaces : expander.Replaces site output)
    (inside : output <:+: more) : expander.Replaces site more := by
  obtain ⟨before, after, code, values, behind, made, possible, stands⟩ := replaces
  exact ⟨before, after, code, values, behind, made, possible, stands.trans inside⟩

variable {expander : Expander} {pass after : Pass}

theorem expandItems_item_eq_ok {index : Nat} {item : CodeItem} {rest : List CodeItem}
    {output : List ExpandedItem}
    (noAccess : expander.placeholders.accessLength? expander.options.receiverCaptures
      (item :: rest) = none)
    (noUse : (expander.options.receiverCaptures && SiteCode.loadsReceiver item) = false)
    (done : run (expander.expandItems index (item :: rest)) pass = (.ok output, after)) :
    ∃ (first : ExpandedItem) (expanded : List ExpandedItem) (earlier : Pass),
      run (expander.expandItems (index + 1) rest) earlier = (.ok expanded, after) ∧
        output = first :: expanded := by
  cases item with
  | mark label =>
      rw [expandItems] at done
      obtain ⟨expanded, _, others, ended⟩ := run_bind_eq_ok.mp done
      obtain ⟨same, rfl⟩ := Prod.mk.inj ended
      exact ⟨_, expanded, pass, others, (Except.ok.inj same).symm⟩
  | code instruction =>
      have noRead : ¬(expander.options.receiverCaptures &&
          instruction == .argument .load 0) = true := by
        intro reads
        obtain ⟨receiver, isLoad⟩ := Bool.and_eq_true_iff.mp reads
        rw [receiver, eq_of_beq isLoad] at noUse
        cases noUse
      rw [expandItems] at done
      simp only [noAccess, if_neg noRead] at done
      split at done
      · cases done
      · obtain ⟨shifted, earlier, _, done⟩ := run_bind_eq_ok.mp done
        obtain ⟨expanded, _, others, ended⟩ := run_bind_eq_ok.mp done
        obtain ⟨same, rfl⟩ := Prod.mk.inj ended
        exact ⟨_, expanded, earlier, others, (Except.ok.inj same).symm⟩

/-- By induction on the way to the site, with any state of the pass. -/
theorem replaces_of_meets {index : Nat} {items : List CodeItem} {site : PlaceholderSite}
    {output : List ExpandedItem} (meets : expander.Meets index items site)
    (done : run (expander.expandItems index items) pass = (.ok output, after)) :
    expander.Replaces site output := by
  induction meets generalizing pass after output with
  | here accesses found =>
      obtain ⟨_, made, _, code, values, behind, expanded, making, _, possible, _, rfl⟩ :=
        expandItems_site_eq_ok accesses found done
      exact ⟨_, made, code, values.flatten, behind, making, possible,
        (List.prefix_append _ _).isInfix⟩
  | inside accesses found member _ inductionHypothesis =>
      obtain ⟨_, _, _, code, values, behind, expanded, _, valuing, _, _, rfl⟩ :=
        expandItems_site_eq_ok accesses found done
      obtain ⟨value, listed, _, _, ran⟩ := exists_run_of_mapM member valuing
      have among : values.flatten <:+: code.before.map ExpandedItem.code ++ values.flatten ++
          behind.map ExpandedItem.code ++ expanded :=
        (List.infix_append _ _ _).trans (List.prefix_append _ _).isInfix
      exact ((inductionHypothesis ran).mono (List.infix_of_mem_flatten listed)).mono among
  | behindSite accesses found _ inductionHypothesis =>
      obtain ⟨_, _, _, code, values, behind, expanded, _, _, _, others, rfl⟩ :=
        expandItems_site_eq_ok accesses found done
      exact (inductionHypothesis others).mono (List.suffix_append _ _).isInfix
  | behindUse receiver noAccess _ inductionHypothesis =>
      obtain ⟨_, _, _, code, _, expanded, using', _, others, rfl⟩ :=
        expandItems_use_eq_ok noAccess receiver done
      rw [Pass.length_of_receiverUse using'] at others
      exact (inductionHypothesis others).mono (List.suffix_append _ _).isInfix
  | behindItem noAccess noUse _ inductionHypothesis =>
      obtain ⟨first, expanded, earlier, others, rfl⟩ := expandItems_item_eq_ok noAccess noUse done
      exact (inductionHypothesis others).mono (List.suffix_cons _ _).isInfix

end Expander

/-- What a delegate construction binds: a value, and code that ends with the
pointer of the method. -/
structure BindsMethod (arguments : List CodeItem) (method : Method)
    (bound pointer : List CodeItem) : Prop where
  arguments_eq : arguments = [bound, pointer].flatten
  separate : Separate [bound, pointer]
  loads : pointer.getLast?.bind SiteCode.methodPointer? = some method

/-- The delegates for whose receiver that of the destination is taken.  A static
template has no receiver, and the first of its parameters passes for one. -/
inductive Rebinds (options : ExpansionOptions) : List CodeItem → Prop
  | null (operand : Operand Label) : Rebinds options [.code (.raw Opcode.ldnull operand)]
  | receiver (own : options.templateIsStatic = false) :
      Rebinds options [.code (.argument .load 0)]
  | firstParameter (static : options.templateIsStatic = true) :
      Rebinds options [.code (.argument .load 0)]

/-- The method is called on the first argument, which is the receiver. -/
def CallsOnReceiver (options : ExpansionOptions) (method : Method) (items : List CodeItem) : Prop :=
  options.destinationIsStatic = false ∧ ∃ values more,
    .code (.argument .load 0) :: (values ++ .code (.call method) :: more) <:+: items

section Constructions

variable {arguments bound pointer : List CodeItem} {constructor method : Method}

theorem bindsReceiver_iff (options : ExpansionOptions) :
    SiteCode.bindsReceiver bound = true ↔ Rebinds options bound := by
  constructor
  · intro binds
    unfold SiteCode.bindsReceiver at binds
    split at binds
    · cases static : options.templateIsStatic with
      | false => exact .receiver static
      | true => exact .firstParameter static
    · rename_i opcode operand
      rw [beq_iff_eq.mp binds]
      exact .null operand
    · cases binds
  · intro rebinds
    cases rebinds <;> rfl

theorem delegateMethod_of_cut {spans : List Span} (two : constructor.parameterCount = 2)
    (cut : argumentSpans 0 arguments 2 = .ok spans)
    (parts : (spans.map fun span => span.of arguments) = [bound, pointer]) :
    SiteCode.delegateMethod arguments constructor =
      match pointer.getLast?.bind SiteCode.methodPointer? with
      | none => .error (.unresolvableCapture (.noMethodPointer constructor.text))
      | some method =>
          if !method.isStatic && !SiteCode.bindsReceiver bound then
            .error (.unresolvableCapture
              (.bindsOther constructor.text method.text (CodeItem.listText bound)))
          else .ok method := by
  simp only [SiteCode.delegateMethod, two, ne_eq, not_true_eq_false, if_false, cut, bind,
    Except.bind, parts, List.headD_cons, List.tail_cons]
  cases pointer.getLast?.bind SiteCode.methodPointer? with
  | none => rfl
  | some method =>
      dsimp only
      split <;> rfl

theorem delegateMethod_eq_ok (done : SiteCode.delegateMethod arguments constructor = .ok method) :
    constructor.parameterCount = 2 ∧
      ∃ bound pointer, BindsMethod arguments method bound pointer := by
  by_cases two : constructor.parameterCount = 2
  · cases cut : argumentSpans 0 arguments 2 with
    | error error => simp [SiteCode.delegateMethod, two, cut, bind, Except.bind] at done
    | ok spans =>
        obtain ⟨pieces, flat, length, separate, parts⟩ := argumentSpans_eq_ok cut
        obtain ⟨bound, pointer, rfl⟩ := List.length_eq_two.mp length
        rw [delegateMethod_of_cut two cut parts] at done
        split at done
        · cases done
        · rename_i found loads
          split at done
          · cases done
          · obtain rfl := Except.ok.inj done
            exact ⟨two, bound, pointer, flat.symm, separate, loads⟩
  · simp [SiteCode.delegateMethod, two, throw, throwThe, MonadExceptOf.throw, bind,
      Except.bind] at done

theorem delegateMethod_of_binds {found : Method}
    (binds : BindsMethod arguments method bound pointer) (isInstance : method.isStatic = false)
    (done : SiteCode.delegateMethod arguments constructor = .ok found) :
    found = method ∧ SiteCode.bindsReceiver bound = true := by
  obtain ⟨two, _⟩ := delegateMethod_eq_ok done
  obtain ⟨rfl, separate, loads⟩ := binds
  rw [delegateMethod_of_cut two (argumentSpans_of_separate 0 separate)
    (of_following [] [bound, pointer]), loads] at done
  dsimp only at done
  split at done
  · cases done
  · rename_i allowed
    refine ⟨(Except.ok.inj done).symm, ?_⟩
    simpa [isInstance] using allowed

end Constructions

namespace SiteCode

variable {captures : CaptureContext} {options : ExpansionOptions} {pass after : Pass}

theorem ofSite_of_construction {site : PlaceholderSite} {arguments : List CodeItem}
    {constructor : Method} {code : SiteCode} (isCall : site.kind = .call)
    (target : site.target =
      arguments ++ [.code (.raw Opcode.newobj (.method constructor))])
    (made : run (ofSite captures options site) pass = (.ok code, after)) :
    ∃ method, delegateMethod arguments constructor = .ok method ∧
      ofCall options site.operation method site.values.length = .ok code := by
  have isNew : constructor? (.code (.raw Opcode.newobj (.method constructor))) =
      some constructor := rfl
  unfold ofSite at made
  simp only [isCall] at made
  obtain ⟨method, _, targeting, rest⟩ := run_bind_eq_ok.mp made
  simp only [callTarget, target, List.getLast?_concat, Option.bind_some, isNew,
    List.dropLast_concat] at targeting
  exact ⟨method, congrArg Prod.fst targeting, congrArg Prod.fst rest⟩

end SiteCode

namespace Expander

theorem placeCalls_infix (accessors : List Accessor) {part output : List ExpandedItem}
    (inside : part <:+: output) : placeCalls accessors part <:+: placeCalls accessors output := by
  obtain ⟨left, right, rfl⟩ := inside
  rw [placeCalls_append, placeCalls_append]
  exact List.infix_append _ _ _

variable {expander : Expander} {body : Body} {site : PlaceholderSite}
  {arguments bound pointer : List CodeItem} {constructor method : Method}

theorem calls_of_replaces {output : List ExpandedItem} (accessors : List Accessor)
    (isCall : site.kind = .call)
    (target : site.target = arguments ++ [.code (.raw Opcode.newobj (.method constructor))])
    (binds : BindsMethod arguments method bound pointer) (isInstance : method.isStatic = false)
    (replaces : expander.Replaces site output) :
    Rebinds expander.options bound ∧
      CallsOnReceiver expander.options method (placeCalls accessors output) := by
  obtain ⟨before, after, code, values, behind, made, possible, stands⟩ := replaces
  obtain ⟨found, built, called⟩ := SiteCode.ofSite_of_construction isCall target made
  obtain ⟨rfl, rebinds⟩ := delegateMethod_of_binds binds isInstance built
  have whole : code = ⟨code.before, .ok behind⟩ := by rw [← possible]
  rw [whole] at called
  obtain ⟨_, received, calls⟩ := ofCall_eq_ok called
  rw [isInstance] at received
  obtain ⟨destination, isReceiver⟩ := SiteCode.receiver_eq_ok received
  refine ⟨(bindsReceiver_iff _).mp rebinds, destination, ?_⟩
  have placed := placeCalls_infix accessors stands
  rw [placeCalls_append, placeCalls_append, placeCalls_code, placeCalls_code, isReceiver] at placed
  rcases calls with ⟨_, rfl⟩ | ⟨_, _, rfl⟩
  · exact ⟨placeCalls accessors values, [], placed⟩
  · exact ⟨placeCalls accessors values, [.code (.raw Opcode.pop .none)], placed⟩

variable {Builder : Type} [TypeBuilder Builder]

/-- Where a template calls a delegate of an instance method that it constructs,
the method is called on the receiver of the destination if the delegate binds
nothing, or what stands in the first argument.  That is the receiver of the
template exactly if it has one.  Every other delegate makes expansion fail. -/
theorem expand_rebinds_delegates
    (meets : expander.Meets 0 (expander.trimmed body.items) site) (isCall : site.kind = .call)
    (target : site.target = arguments ++ [.code (.raw Opcode.newobj (.method constructor))])
    (workspace : Workspace Builder) :
    (∀ result after, run (expander.expand body) workspace = (.ok result, after) →
      constructor.parameterCount = 2 ∧
        ∃ method bound pointer, BindsMethod arguments method bound pointer) ∧
    ∀ {method : Method} {bound pointer : List CodeItem},
      BindsMethod arguments method bound pointer → method.isStatic = false →
        (∀ expanded accessors after,
          run (expander.expand body) workspace = (.ok (expanded, accessors), after) →
            Rebinds expander.options bound ∧
              CallsOnReceiver expander.options method expanded.items) ∧
        (¬Rebinds expander.options bound →
          ∃ error after, run (expander.expand body) workspace = (.error error, after)) := by
  have replaced : ∀ expanded accessors after,
      run (expander.expand body) workspace = (.ok (expanded, accessors), after) →
        ∃ output, expander.Replaces site output ∧
          expanded.items = placeCalls accessors output := by
    intro expanded accessors after done
    obtain ⟨output, pass, ran, _, rfl⟩ := expand_eq_ok_iff.mp done
    exact ⟨output, replaces_of_meets meets ran, rfl⟩
  refine ⟨?_, ?_⟩
  · intro result after done
    obtain ⟨_, ⟨_, _, code, _, _, made, _⟩, _⟩ := replaced result.1 result.2 after done
    obtain ⟨method, built, _⟩ := SiteCode.ofSite_of_construction isCall target made
    obtain ⟨two, bound, pointer, binds⟩ := delegateMethod_eq_ok built
    exact ⟨two, method, bound, pointer, binds⟩
  · intro method bound pointer binds isInstance
    have calls : ∀ expanded accessors after,
        run (expander.expand body) workspace = (.ok (expanded, accessors), after) →
          Rebinds expander.options bound ∧
            CallsOnReceiver expander.options method expanded.items := by
      intro expanded accessors after done
      obtain ⟨output, replaces, items⟩ := replaced expanded accessors after done
      rw [items]
      exact calls_of_replaces accessors isCall target binds isInstance replaces
    refine ⟨calls, ?_⟩
    intro other
    apply exists_error_of_ne_ok
    intro result after done
    exact other (calls result.1 result.2 after done).1

end Expander

namespace DelegatesSample

open NestedSample

def action : Method :=
  ⟨⟨0x06000003⟩, ".ctor", closureType, [valueType, valueType], some voidType, 0⟩

def construction (index : UInt16) : List CodeItem :=
  [.code (.argument .load index), .code (.raw Opcode.ldftn (.method scale))]

def template (index : UInt16) : Body :=
  ⟨[], access ++ (construction index ++ [.code (.raw Opcode.newobj (.method action)),
    .code (.argument .load 1), .code (.argument .load 2),
    .code (.call (operation 1 "Call" 3 valueType)), .code .ret])⟩

def expanderFor (templateIsStatic : Bool) : Expander :=
  ⟨⟨none, none⟩, ⟨surrogateType⟩, runtime, .between templateIsStatic false⟩

theorem meets {index : UInt16} (member : index ∈ [0, 1]) :
    ∃ site, (expanderFor false).Meets 0 ((expanderFor false).trimmed (template index).items) site ∧
      site.kind = .call ∧
      site.target = construction index ++ [.code (.raw Opcode.newobj (.method action))] := by
  have reads : ((PlaceholderSite.read ⟨surrogateType⟩ true 0 1
      ((expanderFor false).trimmed (template index).items)).toOption.map fun found =>
        (found.val.kind, found.val.target)) =
      some (.call, construction index ++ [.code (.raw Opcode.newobj (.method action))]) := by
    rcases List.mem_pair.mp member with rfl | rfl <;> decide +kernel
  obtain ⟨⟨site, shorter⟩, read, same⟩ := Option.map_eq_some_iff.mp reads
  obtain ⟨isCall, target⟩ := Prod.mk.inj same
  exact ⟨site, .here rfl (eq_ok_of_toOption read), isCall, target⟩

theorem binds {index : UInt16} (member : index ∈ [0, 1]) :
    BindsMethod (construction index) scale [.code (.argument .load index)]
      [.code (.raw Opcode.ldftn (.method scale))] := by
  have separate : Separate [[.code (.argument .load index)],
      [.code (.raw Opcode.ldftn (.method scale))]] := by
    rcases List.mem_pair.mp member with rfl | rfl <;> decide +kernel
  exact ⟨rfl, separate, rfl⟩

end DelegatesSample

open NestedSample DelegatesSample in
theorem expand_rebinds_delegates_of_receiver :
    (∃ expanded accessors after, run ((expanderFor false).expand (template 0)) workspace =
        (.ok (expanded, accessors), after) ∧
          CallsOnReceiver (expanderFor false).options scale expanded.items) ∧
    ∃ error after,
      run ((expanderFor false).expand (template 1)) workspace = (.error error, after) := by
  have zero : (0 : UInt16) ∈ [0, 1] := by decide
  have one : (1 : UInt16) ∈ [0, 1] := by decide
  obtain ⟨first, meetsFirst, isCall, target⟩ := meets zero
  obtain ⟨other, meetsOther, isOtherCall, otherTarget⟩ := meets one
  have succeeds : (run ((expanderFor false).expand (template 0)) workspace).1.toOption.isSome =
      true := by
    decide +kernel
  obtain ⟨⟨expanded, accessors⟩, found⟩ := Option.isSome_iff_exists.mp succeeds
  have done := run_eq_ok_of_toOption found
  obtain ⟨_, called⟩ := Expander.expand_rebinds_delegates meetsFirst isCall target workspace
  obtain ⟨_, turnedDown⟩ :=
    Expander.expand_rebinds_delegates meetsOther isOtherCall otherTarget workspace
  obtain ⟨calls, _⟩ := called (binds zero) (by decide)
  obtain ⟨_, fails⟩ := turnedDown (binds one) (by decide)
  exact ⟨⟨expanded, accessors, _, done, (calls expanded accessors _ done).2⟩, fails nofun⟩

open NestedSample DelegatesSample in
/-- The first parameter of a static template becomes the second argument, and a
delegate that is bound to it is called on the receiver instead. -/
theorem expand_rebinds_parameter :
    (expanderFor true).options.templateIsStatic = true ∧
    (expanderFor true).shiftIndex 0 = .ok 1 ∧
    ∃ after, run ((expanderFor true).expand (template 0)) workspace =
      (.ok (⟨[], [.code (.argument .load 0), .code (.argument .load 2),
        .code (.argument .load 3), .code (.call scale)]⟩, []), after) :=
  ⟨rfl, rfl, _, run_eq_ok_of_toOption (by decide +kernel)⟩

end CilTemplate
