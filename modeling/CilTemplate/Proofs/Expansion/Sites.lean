import CilTemplate.Proofs.Expansion.Lookahead

/-
One read of a capture and one placeholder site.  The slicer gives back the
target and the values that the lookahead has left joined together, and the
target decides the code around the values.
-/

namespace CilTemplate

open CilTemplate.Action PlaceholderNamespace

variable {expander : Expander} {value : CaptureSite → CapturedValue} {start pass : Pass}
  {uses : CaptureUses}

theorem CaptureContext.Answers.earlier {captures : CaptureContext} {first : Nat}
    {left right : CaptureUses} (answers : captures.Answers first value (left ++ right).sites) :
    captures.Answers first value left.sites := by
  intro index site known
  apply answers
  obtain ⟨more, same⟩ := CaptureUses.sites_prefix left right
  obtain ⟨below, -⟩ := List.getElem?_eq_some_iff.mp known
  rw [← same, List.getElem?_append_left below]
  exact known

theorem CaptureContext.owns_of_owner? {captures : CaptureContext} {closures : List ClosureKind}
    {member : CapturedMember} {closure : ClosureKind}
    (owned : captures.owner? closures member = some closure) :
    captures.owns ⟨closure, member⟩ = true := by
  have found := List.find?_some owned
  exact found

namespace CaptureRead

def use (value : CaptureSite → CapturedValue) (read : CaptureRead) : CaptureUse :=
  match read.copyType? with
  | none => .value (value read.site)
  | some type => .address (value read.site) type

theorem memberRead?_instruction (read : CaptureRead) :
    Pass.memberRead? read.instruction = some (read.site.member, read.copyType?) := by
  unfold instruction copyType?
  cases read.site.member with
  | field field => cases read.byAddress <;> rfl
  | getter getter => rfl

end CaptureRead

namespace Pass

theorem run_closureUse (read : CaptureRead) {closures : List ClosureKind}
    (handled : Handled start value uses pass)
    (owned : expander.captures.owner? closures read.site.member = some read.site.closure)
    (answers : expander.captures.Answers start.reads.size value
      (uses ++ ⟨[read.site], [], []⟩).sites) :
    ∃ after, run (closureUse expander.captures closures (some read.instruction)) pass =
        (.ok (some (read.use value)), after) ∧
      Handled start value (uses ++ ⟨[read.site], [], []⟩) after := by
  have owns : expander.captures.owns read.site = true :=
    CaptureContext.owns_of_owner? owned
  obtain ⟨after, ran, handledAfter⟩ := run_readCapture handled owns answers
  refine ⟨after, ?_, handledAfter⟩
  simp only [closureUse, Option.bind_some, read.memberRead?_instruction, owned, run_bind]
  rw [show (⟨read.site.closure, read.site.member⟩ : CaptureSite) = read.site from rfl, ran]
  unfold CaptureRead.use
  cases read.copyType? <;> rfl

/-- A read is recognised behind the load of the receiver, however the code goes
on. -/
theorem run_receiverUse (read : CaptureRead) (handled : Handled start value uses pass)
    (resolves : read.Resolves expander)
    (answers : expander.captures.Answers start.reads.size value
      (uses ++ ⟨[read.site], [], []⟩).sites) (token : Nat) (rest : List CodeItem) :
    ∃ after, run (receiverUse expander.captures token (read.following ++ rest)) pass =
        (.ok (read.use value, read.items.length), after) ∧
      Handled start value (uses ++ ⟨[read.site], [], []⟩) after := by
  cases shape : read.reference with
  | none =>
      have owned : expander.captures.owner? CaptureContext.templateFirst read.site.member =
          some read.site.closure := by
        simpa [CaptureRead.owners, shape] using resolves.owned
      obtain ⟨after, ran, handledAfter⟩ := run_closureUse read handled owned answers
      refine ⟨after, ?_, handledAfter⟩
      simp only [CaptureRead.items, CaptureRead.following, shape, Option.map_none,
        Option.toList_none, List.nil_append, List.cons_append, receiverUse, List.head?_cons,
        Option.bind_some, CodeItem.instruction?]
      rw [if_neg, run_bind]
      · rw [ran]
        rfl
      · split
        · rename_i field same
          rw [resolves.direct shape field (Option.some.inj same)]
          exact Bool.false_ne_true
        · exact Bool.false_ne_true
  | some field =>
      have owned : expander.captures.owner? [.callback] read.site.member =
          some read.site.closure := by
        simpa [CaptureRead.owners, shape] using resolves.owned
      obtain ⟨after, ran, handledAfter⟩ := run_closureUse read handled owned answers
      refine ⟨after, ?_, handledAfter⟩
      have through := resolves.reference field (by simp [shape])
      simp [CaptureRead.items, CaptureRead.following, shape, receiverUse,
        CodeItem.instruction?, through, run_bind, ran]

theorem run_loadValue {loaded : CapturedValue} (handled : Handled start value uses pass)
    (loadable : loaded.load?.isSome) :
    ∃ after item, run (loadValue loaded) pass = (.ok item, after) ∧
      Handled start value (uses ++ ⟨[], loaded.object?.toList, []⟩) after ∧
      ∀ later, loaded.load?.toList.map (OutputItem.numbered
        (uses ++ ⟨[], loaded.object?.toList, []⟩ ++ later).numberOf) = [item] := by
  cases kind : loaded.object? with
  | some object =>
      have shape : loaded = .object object := by
        cases loaded <;> simp_all [CapturedValue.object?]
      subst shape
      obtain ⟨after, ran, handledAfter⟩ := run_objectNumber handled object
      refine ⟨after, .accessorCall ((uses ++ ⟨[], [object], []⟩).numberOf object), ?_,
        handledAfter, ?_⟩
      · simp only [loadValue, CapturedValue.literal?, run_bind, ran, run_pure]
      · intro later
        have used : object ∈ (uses ++ ⟨[], [object], []⟩ : CaptureUses).objects := by simp
        have kept := CaptureUses.numberOf_append used later
        simp only [CapturedValue.load?, CapturedValue.object?, Option.toList_some, List.map_cons,
          List.map_nil, OutputItem.numbered, kept]
  | none =>
      have shape : loaded.load? = loaded.literal?.map OutputItem.code := by
        simp only [CapturedValue.load?, kind]
      rw [shape, Option.isSome_map] at loadable
      obtain ⟨instruction, literal⟩ := Option.isSome_iff_exists.mp loadable
      refine ⟨pass, .code instruction, ?_, ?_, ?_⟩
      · simp only [loadValue, literal, run_pure]
      · exact (CaptureUses.append_none uses).symm ▸ handled
      · intro later
        simp only [shape, literal, Option.map_some, Option.toList_some, List.map_cons,
          List.map_nil]
        rfl

theorem run_useCapture (read : CaptureRead) (handled : Handled start value uses pass)
    (loadable : (value read.site).load?.isSome) :
    ∃ after items, run (useCapture (read.use value)) pass = (.ok items, after) ∧
      Handled start value
        (uses ++ ⟨[], (value read.site).object?.toList, read.copyType?.toList⟩) after ∧
      ∀ later, (read.output value start.firstSlot uses.copies.length).map (OutputItem.numbered
        (uses ++ ⟨[], (value read.site).object?.toList, read.copyType?.toList⟩ ++ later).numberOf) =
          items := by
  cases copy : read.copyType? with
  | none =>
      obtain ⟨after, item, ran, handledAfter, loads⟩ := run_loadValue handled loadable
      refine ⟨after, [item], ?_, handledAfter, ?_⟩
      · simp only [CaptureRead.use, copy, useCapture, run_bind, ran, run_pure]
      · intro later
        rw [CaptureRead.output, copy, List.append_nil]
        exact loads later
  | some type =>
      obtain ⟨middle, made, handledMiddle⟩ := run_newTemporary handled type
      obtain ⟨after, item, ran, handledAfter, loads⟩ := run_loadValue handledMiddle loadable
      rw [CaptureUses.append_assoc] at handledAfter
      let copied := temporary start.firstSlot uses.copies.length type
      refine ⟨after, [item, .code (.localSlot .store copied), .code (.localSlot .address copied)],
        ?_, handledAfter, ?_⟩
      · simp only [CaptureRead.use, copy, useCapture, run_bind, made, ran, run_pure, copied]
      · intro later
        have loaded := loads later
        rw [CaptureUses.append_assoc uses] at loaded
        rw [CaptureRead.output, copy, List.map_append]
        exact congrArg (· ++ [ExpandedItem.code (.localSlot .store copied),
          .code (.localSlot .address copied)]) loaded

end Pass

namespace SiteCode

open Pass

variable {target : CaptureRead}

theorem run_capturedTarget (kind : PlaceholderKind) (handled : Handled start value uses pass)
    (resolves : target.Resolves expander) (byValue : target.copyType? = none)
    (answers : expander.captures.Answers start.reads.size value
      (uses ++ ⟨[target.site], [], []⟩).sites) :
    ∃ after, run (capturedTarget expander.captures expander.options kind target.items) pass =
        (.ok (value target.site), after) ∧
      Handled start value (uses ++ ⟨[target.site], [], []⟩) after := by
  obtain ⟨after, ran, handledAfter⟩ := run_receiverUse target handled resolves answers 0 []
  refine ⟨after, ?_, handledAfter⟩
  rw [List.append_nil, CaptureRead.use, byValue] at ran
  simp only [capturedTarget, CaptureRead.items, resolves.receiver, loadsReceiver, Bool.and_self,
    if_true, run_bind, ran]
  simp

theorem run_memberTarget (kind : PlaceholderKind) {member : Member} (handled : Handled start value uses pass)
    (resolves : target.Resolves expander) (byValue : target.copyType? = none)
    (answers : expander.captures.Answers start.reads.size value
      (uses ++ ⟨[target.site], [], []⟩).sites)
    (captured : value target.site = .member member) :
    ∃ after, run (memberTarget expander.captures expander.options kind target.items) pass =
        (.ok member, after) ∧
      Handled start value (uses ++ ⟨[target.site], [], []⟩) after := by
  obtain ⟨after, ran, handledAfter⟩ := run_capturedTarget kind handled resolves byValue answers
  refine ⟨after, ?_, handledAfter⟩
  rw [captured] at ran
  simp only [memberTarget, run_bind, ran, run_pure]

/-- A target is not mistaken for a delegate that is constructed in place. -/
theorem constructor?_target (target : CaptureRead) :
    target.items.getLast?.bind constructor? = none := by
  have last : target.items.getLast? = some (.code target.instruction) := by
    rw [CaptureRead.items, CaptureRead.following, ← List.cons_append, List.getLast?_concat]
  rw [last, Option.bind_some]
  unfold CaptureRead.instruction
  split <;> rfl

theorem run_callTarget {method : Method} (handled : Handled start value uses pass)
    (resolves : target.Resolves expander) (byValue : target.copyType? = none)
    (answers : expander.captures.Answers start.reads.size value
      (uses ++ ⟨[target.site], [], []⟩).sites)
    (captured : value target.site = .member (.method method) ∨
      value target.site = .delegate method) :
    ∃ after, run (callTarget expander.captures expander.options target.items) pass =
        (.ok method, after) ∧
      Handled start value (uses ++ ⟨[target.site], [], []⟩) after := by
  obtain ⟨after, ran, handledAfter⟩ := run_capturedTarget .call handled resolves byValue answers
  refine ⟨after, ?_, handledAfter⟩
  simp only [callTarget, constructor?_target, run_bind, ran]
  rcases captured with member | delegate
  · simp only [member, run_pure]
  · simp only [delegate, run_pure]

variable {options : ExpansionOptions} {replacement : Replacement}

theorem receiver_ok {needed : Bool}
    (reachable : needed = true → options.destinationIsStatic = false) (member : String) :
    receiver options needed member = .ok (if needed then [.argument .load 0] else []) := by
  cases needed with
  | false => rfl
  | true =>
      simp only [receiver, reachable rfl]
      rfl

def access? : PlaceholderKind → Option Access
  | .get => some .load
  | .set => some .store
  | .ref => some .address
  | .call => none

theorem ofMember_field (kind : PlaceholderKind) (access : Access) {field : Field}
    (reachable : (Replacement.onField field access).onReceiver = true →
      options.destinationIsStatic = false) :
    ofMember options kind access (.field field) =
      .ok ⟨(Replacement.onField field access).before,
        .ok (Replacement.onField field access).code⟩ := by
  simp only [Replacement.onField] at reachable ⊢
  cases static : field.isStatic with
  | true => simp [ofMember, receiver, fieldPlace, static, Replacement.before, pure, Except.pure,
      bind, Except.bind]
  | false =>
      have loaded := @receiver_ok options true (by simpa [static] using reachable)
        (Member.field field).text
      simp [ofMember, fieldPlace, static, Replacement.before, loaded, pure, Except.pure, bind,
        Except.bind]

theorem through_ok {accessor : Method}
    (reachable : (Replacement.through accessor).onReceiver = true →
      options.destinationIsStatic = false) (member : String) :
    (do
      let before ← receiver options (!accessor.isStatic) member
      pure ⟨before, .ok [.call accessor]⟩ : Except Error SiteCode) =
        .ok ⟨(Replacement.through accessor).before, .ok (Replacement.through accessor).code⟩ := by
  have loaded : receiver options (!accessor.isStatic) member =
      .ok (Replacement.through accessor).before := receiver_ok reachable member
  rw [loaded]
  rfl

theorem ofMember_of_replaced {kind : PlaceholderKind} {access : Access} {operation : Method}
    {member : Member} (accesses : access? kind = some access)
    (replaced : Replacement.of? operation kind (.member member) = some replacement)
    (reachable : replacement.onReceiver = true → options.destinationIsStatic = false) :
    ofMember options kind access member = .ok ⟨replacement.before, .ok replacement.code⟩ := by
  cases member with
  | method method => cases kind <;> cases accesses <;> cases replaced
  | localSlot slot => cases kind <;> cases accesses <;> cases replaced <;> rfl
  | field field =>
      cases kind <;> cases accesses <;> cases replaced <;> exact ofMember_field _ _ reachable
  | property property =>
      cases kind with
      | get =>
          cases accesses
          obtain ⟨getter, found, rfl⟩ := Option.map_eq_some_iff.mp replaced
          simp only [ofMember, found]
          exact through_ok reachable _
      | set =>
          cases accesses
          obtain ⟨setter, found, rfl⟩ := Option.map_eq_some_iff.mp replaced
          simp only [ofMember, found]
          exact through_ok reachable _
      | ref => cases replaced
      | call => cases accesses

theorem ofCall_of_replaced {operation method : Method} {valueCount : Nat}
    (arity : operation.parameterCount = valueCount + 1)
    (replaced : Replacement.calling? operation method = some replacement)
    (reachable : replacement.onReceiver = true → options.destinationIsStatic = false) :
    ofCall options operation method valueCount =
      .ok ⟨replacement.before, .ok replacement.code⟩ := by
  unfold Replacement.calling? at replaced
  split at replaced
  · rename_i fits
    rcases fits with ⟨takes, returns⟩
    have count : method.parameterCount = valueCount := by omega
    cases replaced
    simp only [ofCall, count, ne_eq, not_true_eq_false, if_false, receiver_ok reachable]
    cases result : method.returnsVoid with
    | true =>
        simp only [returns result]
        rfl
    | false => cases operation.returnsVoid <;> rfl
  · cases replaced

theorem exists_member {kind : PlaceholderKind} {access : Access} {operation : Method}
    {captured : CapturedValue} (accesses : access? kind = some access)
    (replaced : Replacement.of? operation kind captured = some replacement) :
    ∃ member, captured = .member member := by
  cases captured with
  | member member => exact ⟨member, rfl⟩
  | _ => cases kind <;> first | cases accesses; done | cases replaced

theorem exists_method {operation : Method} {captured : CapturedValue}
    (replaced : Replacement.of? operation .call captured = some replacement) :
    ∃ method, (captured = .member (.method method) ∨ captured = .delegate method) ∧
      Replacement.calling? operation method = some replacement := by
  cases captured with
  | member member =>
      cases member with
      | method method => exact ⟨method, Or.inl rfl, replaced⟩
      | _ => cases replaced
  | delegate method => exact ⟨method, Or.inr rfl, replaced⟩
  | _ => cases replaced

theorem run_ofSite {site : PlaceholderSite} (handled : Handled start value uses pass)
    (resolves : target.Resolves expander) (byValue : target.copyType? = none)
    (answers : expander.captures.Answers start.reads.size value
      (uses ++ ⟨[target.site], [], []⟩).sites)
    (targeted : site.target = target.items)
    (arity : site.operation.parameterCount = site.values.length + 1)
    (replaced : Replacement.of? site.operation site.kind (value target.site) = some replacement)
    (reachable : replacement.onReceiver = true →
      expander.options.destinationIsStatic = false) :
    ∃ after, run (ofSite expander.captures expander.options site) pass =
        (.ok ⟨replacement.before, .ok replacement.code⟩, after) ∧
      Handled start value (uses ++ ⟨[target.site], [], []⟩) after := by
  have onMember : ∀ {kind : PlaceholderKind} {access : Access}, site.kind = kind →
      access? kind = some access →
      ∃ after, run (do
            let member ← memberTarget expander.captures expander.options kind site.target
            Action.ofExcept (ofMember expander.options kind access member)) pass =
          (.ok ⟨replacement.before, .ok replacement.code⟩, after) ∧
        Handled start value (uses ++ ⟨[target.site], [], []⟩) after := by
    intro kind access same accesses
    rw [same] at replaced
    obtain ⟨member, captured⟩ := exists_member accesses replaced
    obtain ⟨after, ran, handledAfter⟩ :=
      run_memberTarget kind handled resolves byValue answers captured
    rw [captured] at replaced
    refine ⟨after, ?_, handledAfter⟩
    simp only [targeted, run_bind, ran, run_ofExcept,
      ofMember_of_replaced accesses replaced reachable]
  cases kind : site.kind with
  | get =>
      simp only [ofSite, kind]
      exact onMember kind rfl
  | set =>
      simp only [ofSite, kind]
      exact onMember kind rfl
  | ref =>
      simp only [ofSite, kind]
      exact onMember kind rfl
  | call =>
      rw [kind] at replaced
      obtain ⟨method, captured, calls⟩ := exists_method replaced
      obtain ⟨after, ran, handledAfter⟩ :=
        run_callTarget handled resolves byValue answers captured
      refine ⟨after, ?_, handledAfter⟩
      simp only [ofSite, kind, targeted, run_bind, ran, run_ofExcept,
        ofCall_of_replaced arity calls reachable]

end SiteCode

namespace PlaceholderSite

theorem cutAtOperation_site {access : List CodeItem} {values : TemplateValues}
    {operation : Method} {target : CaptureRead}
    (accepted : SiteAccepted expander value access target values.items operation)
    (wellFormed : values.WellFormed expander value) (index position : Nat)
    (rest : List CodeItem) :
    cutAtOperation expander.placeholders true index position 0 0
        (target.items ++ (values.items.flatten ++ .code (.call operation) :: rest)) =
      .ok ⟨(target.items :: values.items).flatten, operation, rest⟩ := by
  have operates := accepted.operates
  have met : ∀ position, cutAtOperation expander.placeholders true index position 0 0
      (.code (.call operation) :: rest) = .ok ⟨[], operation, rest⟩ := by
    intro position
    simp only [cutAtOperation, accessLength?_operation operates, Instruction.isControlTransfer,
      operates]
    rfl
  rw [cutAtOperation_read index accepted.resolves accepted.quiet,
    cutAtOperation_values index accepted.resolves.receiver values wellFormed, met]
  simp [Except.map, OperationCut.behind]

theorem read_of_cut {placeholders : PlaceholderNamespace} {receiverCaptures : Bool}
    {index accessLength : Nat} {items : List CodeItem} {cut : OperationCut}
    {kind : PlaceholderKind} {spans : List Span}
    (found : cutAtOperation placeholders receiverCaptures index (index + accessLength) 0 0
      (items.drop accessLength) = .ok cut)
    (classified : classify cut.operation = .ok kind)
    (sliced : argumentSpans (index + accessLength) cut.inner cut.operation.parameterCount =
      .ok spans) :
    (read placeholders receiverCaptures index accessLength items).map Subtype.val =
      .ok ⟨kind, cut.operation, (spans.map fun span => span.of cut.inner).headD [],
        (spans.map fun span => span.of cut.inner).tail, accessLength + cut.inner.length + 1,
        cut.rest⟩ := by
  dsimp only [read]
  split
  · rename_i failed
    rw [found] at failed
    cases failed
  · rename_i same
    rw [found] at same
    cases same
    simp only [classified, sliced, bind, Except.bind, pure, Except.pure, Except.map]

/-- The lookahead and the slicer agree on a site: the code behind the access is
cut at the operation of the site and into its target and values. -/
theorem read_site {access : List CodeItem} {values : TemplateValues} {operation : Method}
    {target : CaptureRead} {kind : PlaceholderKind}
    (accepted : SiteAccepted expander value access target values.items operation)
    (wellFormed : values.WellFormed expander value)
    (classified : PlaceholderNamespace.classify operation = .ok kind)
    (index : Nat) (rest : List CodeItem) :
    ∃ site shorter,
      read expander.placeholders true index access.length
          (access ++ (target.items ++ (values.items.flatten ++
            .code (.call operation) :: rest))) = .ok ⟨site, shorter⟩ ∧
        site.kind = kind ∧ site.operation = operation ∧ site.target = target.items ∧
        site.values = values.items ∧ site.rest = rest := by
  have inside : (access ++ (target.items ++ (values.items.flatten ++
      .code (.call operation) :: rest))).drop access.length =
        target.items ++ (values.items.flatten ++ .code (.call operation) :: rest) :=
    List.drop_left
  have cut := cutAtOperation_site accepted wellFormed index (index + access.length) rest
  have spans := argumentSpans_of_separate (index + access.length) accepted.separate
  have pieces := of_following [] (target.items :: values.items)
  rw [List.length_cons, ← accepted.arity] at spans
  rw [List.nil_append, List.length_nil] at pieces
  have located := read_of_cut (inside.symm ▸ cut) classified spans
  rw [pieces] at located
  cases result : read expander.placeholders true index access.length
      (access ++ (target.items ++ (values.items.flatten ++ .code (.call operation) :: rest))) with
  | error error =>
      rw [result] at located
      cases located
  | ok found =>
      rw [result] at located
      rcases found with ⟨site, shorter⟩
      cases located
      exact ⟨_, shorter, rfl, rfl, rfl, rfl, rfl, rfl⟩

end PlaceholderSite
end CilTemplate
