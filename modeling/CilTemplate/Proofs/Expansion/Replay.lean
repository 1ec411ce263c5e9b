import CilTemplate.Proofs.Expansion.Sharing
import Mathlib.Data.List.Nodup

/-
A pass over closures that always give the same answer for a member.  Since a
pass reads no member twice, it ends in the same way as over closures whose
answers change, if each fixed answer is that of the only read.
-/

namespace CilTemplate

open CilTemplate.Action PlaceholderNamespace

namespace CaptureContext

/-- The closures with one answer for each member, at any time. -/
def answeredBy (captures : CaptureContext) (answer : CaptureSite → Except Error CapturedValue) :
    CaptureContext where
  template := captures.template.map fun closure =>
    { closure with answer := fun _ member => answer ⟨.template, member⟩ }
  callback := captures.callback.map fun closure =>
    { closure with answer := fun _ member => answer ⟨.callback, member⟩ }

/-- To reads that come after a number of others, the closures give these
answers. -/
def AnswersReads (captures : CaptureContext) (earlier : Nat)
    (answer : CaptureSite → Except Error CapturedValue) (reads : List CaptureSite) : Prop :=
  ∀ index site, reads[index]? = some site →
    ∃ closure, captures.closure? site.closure = some closure ∧
      closure.answer (earlier + index) site.member = answer site

variable {captures : CaptureContext} {site : CaptureSite} {closure : ClosureObject}

theorem closure?_answeredBy (found : captures.closure? site.closure = some closure)
    (answer : CaptureSite → Except Error CapturedValue) :
    ∃ fixed, (captures.answeredBy answer).closure? site.closure = some fixed ∧
      ∀ count, fixed.answer count site.member = answer site := by
  rcases site with ⟨kind, member⟩
  cases kind with
  | template => exact ⟨_, congrArg (Option.map _) found, fun _ => rfl⟩
  | callback => exact ⟨_, congrArg (Option.map _) found, fun _ => rfl⟩

theorem answer_of_gives {answer : CaptureSite → Except Error CapturedValue} {value : CapturedValue}
    (gives : (captures.answeredBy answer).Gives site value) : answer site = .ok value := by
  rcases site with ⟨kind, member⟩
  obtain ⟨_, _, found, answered⟩ := gives
  cases kind with
  | template =>
      obtain ⟨_, _, rfl⟩ := Option.map_eq_some_iff.mp found
      exact answered
  | callback =>
      obtain ⟨_, _, rfl⟩ := Option.map_eq_some_iff.mp found
      exact answered

theorem owns_answeredBy (captures : CaptureContext)
    (answer : CaptureSite → Except Error CapturedValue) (site : CaptureSite) :
    (captures.answeredBy answer).owns site = captures.owns site := by
  rcases captures with ⟨template, callback⟩
  rcases site with ⟨kind, member⟩
  cases kind with
  | template => cases template <;> rfl
  | callback => cases callback <;> rfl

theorem owner?_answeredBy (captures : CaptureContext)
    (answer : CaptureSite → Except Error CapturedValue) (kinds : List ClosureKind)
    (member : CapturedMember) :
    (captures.answeredBy answer).owner? kinds member = captures.owner? kinds member := by
  simp only [owner?, owns_answeredBy]

theorem isCallbackReference_answeredBy (captures : CaptureContext)
    (answer : CaptureSite → Except Error CapturedValue) (field : Field) :
    (captures.answeredBy answer).isCallbackReference field =
      captures.isCallbackReference field := by
  rcases captures with ⟨template, callback⟩
  cases template <;> cases callback <;> rfl

theorem exists_closure_of_owns (owned : captures.owns site = true) :
    ∃ closure, captures.closure? site.closure = some closure := by
  by_contra absent
  have none := Option.eq_none_iff_forall_ne_some.mpr (not_exists.mp absent)
  rw [owns] at owned
  split at owned <;> simp [ownsField, ownsGetter, fieldsOf, gettersOf, none] at owned

theorem run_read (owned : captures.owns site = true)
    (found : captures.closure? site.closure = some closure) (reads : Array CaptureSite) :
    run (captures.read site) reads =
      (closure.answer reads.size site.member, reads.push site) := by
  simp only [read, owned, Bool.not_true, Bool.false_eq_true, if_false, found, run_bind, run_get,
    run_modify, run_ofExcept]

end CaptureContext

namespace Pass

def asked (pass : Pass) (site : CaptureSite) :
    Except Error CapturedValue → Except Error CapturedValue × Pass
  | .ok value =>
      (.ok value, { pass with
        reads := pass.reads.push site
        memo := (site, value) :: pass.memo })
  | .error error => (.error error, { pass with reads := pass.reads.push site })

theorem reads_asked (pass : Pass) (site : CaptureSite) (result : Except Error CapturedValue) :
    (pass.asked site result).2.reads = pass.reads.push site := by
  cases result <;> rfl

theorem memo_asked {pass : Pass} {site : CaptureSite} {result : Except Error CapturedValue}
    {value : CapturedValue} (succeeds : (pass.asked site result).1 = .ok value) :
    (pass.asked site result).2.memo = (site, value) :: pass.memo := by
  cases result with
  | error error => cases succeeds
  | ok found => rw [← Except.ok.inj succeeds]; rfl

theorem run_readCapture_unread {captures : CaptureContext} {site : CaptureSite}
    {closure : ClosureObject} {pass : Pass} (owned : captures.owns site = true)
    (found : captures.closure? site.closure = some closure)
    (unread : pass.memo.lookup site = none) :
    run (readCapture captures site) pass =
      pass.asked site (closure.answer pass.reads.size site.member) := by
  simp only [readCapture, run_bind, run_get, unread, run_onPart,
    CaptureContext.run_read owned found]
  cases closure.answer pass.reads.size site.member <;> rfl

end Pass

def Expander.answeredBy (expander : Expander)
    (answer : CaptureSite → Except Error CapturedValue) : Expander :=
  { expander with captures := expander.captures.answeredBy answer }

/-- The closures answer the read.  Behind a reference to the callback closure
stands a member of that closure, and a field that is read directly is no such
reference. -/
structure CaptureRead.ResolvedBy (read : CaptureRead) (expander : Expander) : Prop where
  receiver : expander.options.receiverCaptures = true
  reference : ∀ field ∈ read.reference, expander.captures.isCallbackReference field = true
  direct : read.reference = none → ∀ field, read.instruction = .field .ofObject .load field →
    expander.captures.isCallbackReference field = false
  owned : expander.captures.owner? read.owners read.site.member = some read.site.closure

namespace Expander

variable {expander : Expander}

/-- Some code contains an access that resolves to the member. -/
def Accesses (expander : Expander) (items : List CodeItem) (site : CaptureSite) : Prop :=
  ∃ read : CaptureRead, read.site = site ∧ read.ResolvedBy expander ∧ read.items <:+: items

theorem Accesses.mono {items others : List CodeItem} {site : CaptureSite}
    (accesses : expander.Accesses items site) (part : items <:+: others) :
    expander.Accesses others site := by
  obtain ⟨read, isSite, resolved, inside⟩ := accesses
  exact ⟨read, isSite, resolved, inside.trans part⟩

theorem accesses_of_reference {following : List CodeItem} {field : Field}
    {known : Instruction Label} {site : CaptureSite} {copyType : Option CilType}
    (receiver : expander.options.receiverCaptures = true)
    (isReference : following.head?.bind CodeItem.instruction? =
      some (.field .ofObject .load field))
    (through : expander.captures.isCallbackReference field = true)
    (isKnown : following[1]?.bind CodeItem.instruction? = some known)
    (names : Pass.memberRead? known = some (site.member, copyType))
    (owned : expander.captures.owner? [.callback] site.member = some site.closure) :
    expander.Accesses (.code (.argument .load 0) :: following) site := by
  obtain ⟨behind, rfl⟩ := Pass.eq_cons_of_instruction isReference
  rw [List.getElem?_cons_succ, ← List.head?_eq_getElem?] at isKnown
  obtain ⟨last, rfl⟩ := Pass.eq_cons_of_instruction isKnown
  obtain ⟨read, chained, isSite, isInstruction, _⟩ :=
    Pass.instruction_of_memberRead? names (some field) site.closure
  refine ⟨read, isSite, ⟨receiver, ?_, ?_, ?_⟩, [], last, ?_⟩
  · rw [chained]
    rintro _ ⟨⟩
    exact through
  · rw [chained]
    rintro ⟨⟩
  · rw [CaptureRead.owners, chained, isSite]
    exact owned
  · rw [CaptureRead.items, CaptureRead.following, chained, isInstruction]
    rfl

theorem accesses_of_direct {following : List CodeItem} {known : Instruction Label}
    {site : CaptureSite} {copyType : Option CilType}
    (receiver : expander.options.receiverCaptures = true)
    (isKnown : following.head?.bind CodeItem.instruction? = some known)
    (direct : ∀ field, known = .field .ofObject .load field →
      expander.captures.isCallbackReference field = false)
    (names : Pass.memberRead? known = some (site.member, copyType))
    (owned : expander.captures.owner? CaptureContext.templateFirst site.member =
      some site.closure) :
    expander.Accesses (.code (.argument .load 0) :: following) site := by
  obtain ⟨behind, rfl⟩ := Pass.eq_cons_of_instruction isKnown
  obtain ⟨read, unchained, isSite, isInstruction, _⟩ :=
    Pass.instruction_of_memberRead? names none site.closure
  refine ⟨read, isSite, ⟨receiver, ?_, ?_, ?_⟩, [], behind, ?_⟩
  · rw [unchained]
    rintro _ ⟨⟩
  · rw [isInstruction]
    exact fun _ => direct
  · rw [CaptureRead.owners, unchained, isSite]
    exact owned
  · rw [CaptureRead.items, CaptureRead.following, unchained, isInstruction]
    rfl

end Expander

/-- An expander whose closures have answered some reads before a pass, and an
answer for each member. -/
structure ReadSession where
  expander : Expander
  earlier : List CaptureSite
  answer : CaptureSite → Except Error CapturedValue

namespace ReadSession

/-- The expander that always gets these answers. -/
def fixed (session : ReadSession) : Expander :=
  session.expander.answeredBy session.answer

theorem placeholders_fixed (session : ReadSession) :
    session.fixed.placeholders = session.expander.placeholders :=
  rfl

theorem options_fixed (session : ReadSession) :
    session.fixed.options = session.expander.options :=
  rfl

theorem shiftArgument_fixed (session : ReadSession) (instruction : Instruction Label) :
    session.fixed.shiftArgument instruction = session.expander.shiftArgument instruction :=
  rfl

def Answers (session : ReadSession) (reads : List CaptureSite) : Prop :=
  session.expander.captures.AnswersReads session.earlier.length session.answer reads

theorem Answers.of_append {session : ReadSession} {reads more : List CaptureSite}
    (answers : session.Answers (reads ++ more)) : session.Answers reads := by
  intro index site known
  obtain ⟨below, _⟩ := List.getElem?_eq_some_iff.mp known
  exact answers index site (by rw [List.getElem?_append_left below, known])

/-- The pass has made these reads, none of them twice, and remembers them. -/
structure HasRead (session : ReadSession) (reads : List CaptureSite) (pass : Pass) : Prop where
  log : pass.reads.toList = session.earlier ++ reads
  once : reads.Nodup
  remembered : ∀ site ∈ reads, (pass.memo.lookup site).isSome = true

variable {Result Next : Type}

/-- Part of a pass has made more reads, of allowed members only.  Where it
succeeds, the pass goes on with them.  With fixed answers it ends in the same
way, if they are those that these reads have had. -/
structure ReadsMore (session : ReadSession) (allowed : CaptureSite → Prop)
    (reads more : List CaptureSite) (ran replayed : Except Error Result × Pass) : Prop where
  log : ran.2.reads.toList = session.earlier ++ (reads ++ more)
  once : (reads ++ more).Nodup
  allowed : ∀ site ∈ more, allowed site
  remembered : ∀ value, ran.1 = .ok value →
    ∀ site ∈ reads ++ more, (ran.2.memo.lookup site).isSome = true
  same : session.Answers (reads ++ more) → replayed = ran

/-- Wherever the pass stands, the action makes some more reads, and replayed
with fixed answers it ends in the same way. -/
def Replays (session : ReadSession) (allowed : CaptureSite → Prop)
    (action replay : Expansion Result) : Prop :=
  ∀ reads pass, session.HasRead reads pass →
    ∃ more, session.ReadsMore allowed reads more (run action pass) (run replay pass)

variable {session : ReadSession} {allowed : CaptureSite → Prop}

namespace Replays

/-- An action that neither reads captures nor asks for remembered ones. -/
theorem quiet {action : Expansion Result}
    (reads : ∀ pass, (run action pass).2.reads = pass.reads)
    (memo : ∀ pass, (run action pass).2.memo = pass.memo) :
    session.Replays allowed action action := by
  intro known pass has
  refine ⟨[], ?_, ?_, ?_, ?_, fun _ => rfl⟩
  · rw [reads, List.append_nil, has.log]
  · rw [List.append_nil]
    exact has.once
  · exact fun _ absent => absurd absent List.not_mem_nil
  · intro _ _
    rw [memo, List.append_nil]
    exact has.remembered

theorem pure (value : Result) :
    session.Replays allowed (Pure.pure value) (Pure.pure value) :=
  .quiet (fun _ => rfl) fun _ => rfl

theorem throw (error : Error) :
    session.Replays allowed (MonadExcept.throw error : Expansion Result)
      (MonadExcept.throw error) :=
  .quiet (fun _ => rfl) fun _ => rfl

theorem ofExcept (result : Except Error Result) :
    session.Replays allowed (Action.ofExcept result) (Action.ofExcept result) :=
  .quiet (fun _ => rfl) fun _ => rfl

theorem mono {other : CaptureSite → Prop} {action replay : Expansion Result}
    (replays : session.Replays allowed action replay) (weaker : ∀ site, allowed site → other site) :
    session.Replays other action replay := by
  intro reads pass has
  obtain ⟨more, ends⟩ := replays reads pass has
  exact ⟨more, ends.log, ends.once, fun site member => weaker site (ends.allowed site member),
    ends.remembered, ends.same⟩

theorem bind {action replay : Expansion Result} {next nextReplay : Result → Expansion Next}
    (first : session.Replays allowed action replay)
    (rest : ∀ value, session.Replays allowed (next value) (nextReplay value)) :
    session.Replays allowed (action >>= next) (replay >>= nextReplay) := by
  intro reads pass has
  obtain ⟨more, ends⟩ := first reads pass has
  cases outcome : run action pass with
  | mk result middle =>
      rw [outcome] at ends
      cases result with
      | error error =>
          rw [run_bind, outcome]
          refine ⟨more, ends.log, ends.once, ends.allowed, ?_, fun answers => ?_⟩
          · rintro _ ⟨⟩
          · rw [run_bind, ends.same answers]
      | ok value =>
          obtain ⟨later, finish⟩ := rest value (reads ++ more) middle
            ⟨ends.log, ends.once, ends.remembered value rfl⟩
          have regroup := List.append_assoc reads more later
          rw [run_bind, outcome]
          refine ⟨more ++ later, ?_, ?_, ?_, ?_, fun answers => ?_⟩
          · rw [← regroup]
            exact finish.log
          · rw [← regroup]
            exact finish.once
          · exact List.forall_mem_append.mpr ⟨ends.allowed, finish.allowed⟩
          · rw [← regroup]
            exact finish.remembered
          · rw [← regroup] at answers
            rw [run_bind, ends.same answers.of_append]
            exact finish.same answers

theorem ite {condition : Prop} [Decidable condition] {left right : Expansion Result}
    {leftReplay rightReplay : Expansion Result}
    (onTrue : condition → session.Replays allowed left leftReplay)
    (onFalse : ¬condition → session.Replays allowed right rightReplay) :
    session.Replays allowed (if condition then left else right)
      (if condition then leftReplay else rightReplay) := by
  split
  · exact onTrue ‹_›
  · exact onFalse ‹_›

theorem mapM {Element : Type} {elements : List Element}
    {action replay : Element → Expansion Result}
    (each : ∀ element ∈ elements, session.Replays allowed (action element) (replay element)) :
    session.Replays allowed (elements.mapM action) (elements.mapM replay) := by
  induction elements with
  | nil => exact .pure []
  | cons element rest inductionHypothesis =>
      obtain ⟨here, later⟩ := List.forall_mem_cons.mp each
      rw [List.mapM_cons, List.mapM_cons]
      exact here.bind fun _ => (inductionHypothesis later).bind fun _ => .pure _

end Replays

namespace HasRead

variable {reads : List CaptureSite} {pass : Pass} (has : session.HasRead reads pass)

include has

theorem nodup_concat {site : CaptureSite} (unread : pass.memo.lookup site = none) :
    (reads ++ [site]).Nodup := by
  rw [← List.concat_eq_append]
  refine has.once.concat fun member => ?_
  have remembered := has.remembered site member
  rw [unread] at remembered
  cases remembered

theorem remembered_asked {site : CaptureSite} {result : Except Error CapturedValue}
    {value : CapturedValue} (succeeds : (pass.asked site result).1 = .ok value) :
    ∀ other ∈ reads ++ [site],
      ((pass.asked site result).2.memo.lookup other).isSome = true := by
  intro other member
  rw [Pass.memo_asked succeeds, List.lookup_cons]
  split
  · rfl
  · rename_i differs
    rcases List.mem_append.mp member with before | here
    · exact has.remembered other before
    · rw [List.mem_singleton.mp here, beq_self_eq_true] at differs
      cases differs

theorem answer_eq {site : CaptureSite} {closure : ClosureObject}
    (found : session.expander.captures.closure? site.closure = some closure)
    (answers : session.Answers (reads ++ [site])) :
    session.answer site = closure.answer pass.reads.size site.member := by
  have count : pass.reads.size = session.earlier.length + reads.length := by
    rw [← Array.length_toList, has.log, List.length_append]
  obtain ⟨same, foundSame, answered⟩ := answers _ _ List.getElem?_concat_length
  rw [← answered, count, Option.some.inj (foundSame.symm.trans found)]

end HasRead

theorem replays_readCapture {site : CaptureSite}
    (owned : session.expander.captures.owns site = true) :
    session.Replays (· = site) (Pass.readCapture session.expander.captures site)
      (Pass.readCapture session.fixed.captures site) := by
  intro reads pass has
  cases known : pass.memo.lookup site with
  | some value =>
      have recalls : ∀ captures : CaptureContext,
          run (Pass.readCapture captures site) pass = (.ok value, pass) := by
        intro captures
        simp only [Pass.readCapture, run_bind, run_get, known, run_pure]
      rw [recalls, recalls, ← run_pure value pass]
      exact Replays.pure value reads pass has
  | none =>
      obtain ⟨closure, found⟩ := CaptureContext.exists_closure_of_owns owned
      obtain ⟨fixed, foundFixed, answers⟩ :=
        CaptureContext.closure?_answeredBy found session.answer
      have ownedFixed : session.fixed.captures.owns site = true :=
        (CaptureContext.owns_answeredBy _ _ _).trans owned
      rw [Pass.run_readCapture_unread owned found known,
        Pass.run_readCapture_unread ownedFixed foundFixed known, answers]
      refine ⟨[site], ?_, has.nodup_concat known, fun _ => List.mem_singleton.mp,
        fun _ => has.remembered_asked, fun answers => ?_⟩
      · rw [Pass.reads_asked, Array.toList_push, has.log, List.append_assoc]
      · rw [has.answer_eq found answers]

theorem replays_closureUse (closures : List ClosureKind)
    (instruction : Option (Instruction Label)) :
    session.Replays
      (fun site => ∃ known copyType, instruction = some known ∧
        Pass.memberRead? known = some (site.member, copyType) ∧
        session.expander.captures.owner? closures site.member = some site.closure)
      (Pass.closureUse session.expander.captures closures instruction)
      (Pass.closureUse session.fixed.captures closures instruction) := by
  unfold Pass.closureUse
  split
  · exact .pure _
  · rename_i member copyType names
    obtain ⟨known, isKnown, names⟩ := Option.bind_eq_some_iff.mp names
    have owner : session.fixed.captures.owner? closures member =
        session.expander.captures.owner? closures member :=
      CaptureContext.owner?_answeredBy _ _ _ _
    rw [owner]
    split
    · exact .pure _
    · rename_i closure owned
      have owns := CaptureContext.owns_of_owner? owned
      refine Replays.bind ((replays_readCapture owns).mono ?_) fun value => ?_
      · rintro _ rfl
        exact ⟨known, copyType, isKnown, names, owned⟩
      · cases copyType <;> exact .pure _

theorem replays_receiverUse (receiver : session.expander.options.receiverCaptures = true)
    (token : Nat) (following : List CodeItem) :
    session.Replays (session.expander.Accesses (.code (.argument .load 0) :: following))
      (Pass.receiverUse session.expander.captures token following)
      (Pass.receiverUse session.fixed.captures token following) := by
  have reference : ∀ field, session.fixed.captures.isCallbackReference field =
      session.expander.captures.isCallbackReference field :=
    CaptureContext.isCallbackReference_answeredBy _ _
  unfold Pass.receiverUse
  simp only [reference]
  refine Replays.ite (fun through => ?_) fun direct => ?_
  · refine Replays.bind ((replays_closureUse _ _).mono ?_) fun use => ?_
    · rintro site ⟨known, copyType, isKnown, names, owned⟩
      split at through
      · rename_i isReference
        exact Expander.accesses_of_reference receiver isReference through isKnown names owned
      · cases through
    · cases use with
      | none => exact .throw _
      | some use => exact .pure _
  · refine Replays.bind ((replays_closureUse _ _).mono ?_) fun use => ?_
    · rintro site ⟨known, copyType, isKnown, names, owned⟩
      refine Expander.accesses_of_direct receiver isKnown ?_ names owned
      rintro field rfl
      rw [isKnown] at direct
      exact Bool.eq_false_iff.mpr direct
    · cases use with
      | none => exact .throw _
      | some use => exact .pure _

theorem replays_loadValue (value : CapturedValue) :
    session.Replays allowed (Pass.loadValue value) (Pass.loadValue value) := by
  unfold Pass.loadValue
  split
  · exact .pure _
  · refine Replays.bind (.quiet ?_ ?_) fun number => .pure _
    all_goals
      intro pass
      simp only [Pass.objectNumber, run_bind, run_get]
      split <;> rfl
  · exact .throw _

theorem replays_useCapture (use : CaptureUse) :
    session.Replays allowed (Pass.useCapture use) (Pass.useCapture use) := by
  cases use with
  | value value => exact (replays_loadValue value).bind fun _ => .pure _
  | address value type =>
      exact Replays.bind (.quiet (fun _ => rfl) fun _ => rfl) fun _ =>
        (replays_loadValue value).bind fun _ => .pure _

theorem replays_capturedTarget (kind : PlaceholderKind) (target : List CodeItem) :
    session.Replays (session.expander.Accesses target)
      (SiteCode.capturedTarget session.expander.captures session.expander.options kind target)
      (SiteCode.capturedTarget session.fixed.captures session.fixed.options kind target) := by
  unfold SiteCode.capturedTarget
  dsimp only
  split
  · exact .throw _
  · rename_i first following
    refine Replays.ite (fun loads => ?_) fun _ => .throw _
    obtain ⟨receiver, isReceiver⟩ := Bool.and_eq_true_iff.mp loads
    obtain rfl := SiteCode.eq_of_loadsReceiver isReceiver
    refine (replays_receiverUse receiver 0 following).bind fun found => ?_
    obtain ⟨use, length⟩ := found
    cases use with
    | value value => exact .ite (fun _ => .pure _) fun _ => .throw _
    | address value type => exact .throw _

theorem replays_memberTarget (kind : PlaceholderKind) (target : List CodeItem) :
    session.Replays (session.expander.Accesses target)
      (SiteCode.memberTarget session.expander.captures session.expander.options kind target)
      (SiteCode.memberTarget session.fixed.captures session.fixed.options kind target) := by
  refine (replays_capturedTarget kind target).bind fun value => ?_
  split
  · exact .pure _
  · exact .throw _

theorem replays_callTarget (target : List CodeItem) :
    session.Replays (session.expander.Accesses target)
      (SiteCode.callTarget session.expander.captures session.expander.options target)
      (SiteCode.callTarget session.fixed.captures session.fixed.options target) := by
  unfold SiteCode.callTarget
  split
  · exact .ofExcept _
  · refine (replays_capturedTarget .call target).bind fun value => ?_
    split
    · exact .pure _
    · exact .pure _
    · exact .throw _

theorem replays_ofSite (site : PlaceholderSite) :
    session.Replays (session.expander.Accesses site.target)
      (SiteCode.ofSite session.expander.captures session.expander.options site)
      (SiteCode.ofSite session.fixed.captures session.fixed.options site) := by
  unfold SiteCode.ofSite
  dsimp only
  split
  · exact (replays_memberTarget _ _).bind fun _ => .ofExcept _
  · exact (replays_memberTarget _ _).bind fun _ => .ofExcept _
  · exact (replays_memberTarget _ _).bind fun _ => .ofExcept _
  · exact (replays_callTarget _).bind fun _ => .ofExcept _

def ReplaysItems (session : ReadSession) (items : List CodeItem) : Prop :=
  ∀ index, session.Replays (session.expander.Accesses items)
    (session.expander.expandItems index items) (session.fixed.expandItems index items)

theorem ReplaysItems.within {items others : List CodeItem} (replays : session.ReplaysItems items)
    (part : items <:+: others) (index : Nat) :
    session.Replays (session.expander.Accesses others)
      (session.expander.expandItems index items) (session.fixed.expandItems index items) :=
  (replays index).mono fun _ accesses => accesses.mono part

theorem replays_nil : session.ReplaysItems [] := by
  intro index
  rw [Expander.expandItems, Expander.expandItems]
  exact .pure []

theorem replays_mark (label : Label) {rest : List CodeItem} (replays : session.ReplaysItems rest) :
    session.ReplaysItems (.mark label :: rest) := by
  intro index
  rw [Expander.expandItems, Expander.expandItems]
  exact (replays.within (List.suffix_cons _ rest).isInfix _).bind fun _ => .pure _

theorem replays_site {items : List CodeItem} {accessLength : Nat}
    (replays : ∀ shorter : List CodeItem, shorter.length < items.length →
      session.ReplaysItems shorter)
    (accesses : session.expander.placeholders.accessLength?
      session.expander.options.receiverCaptures items = some accessLength) :
    session.ReplaysItems items := by
  intro index
  cases found : PlaceholderSite.read session.expander.placeholders
      session.expander.options.receiverCaptures index accessLength items with
  | error error =>
      rw [Expander.expandItems_site_error accesses found,
        @Expander.expandItems_site_error session.fixed _ _ _ _ accesses found]
      exact .throw error
  | ok located =>
      rcases located with ⟨site, shorter⟩
      obtain ⟨_, _, _, _, split⟩ := PlaceholderSite.read_eq_ok found
      have inside : items.drop accessLength <:+: items := (List.drop_suffix _ _).isInfix
      rw [split] at inside
      have target : site.target <:+: items := (List.prefix_append _ _).isInfix.trans inside
      have behind := (List.suffix_append _ _).isInfix.trans inside
      have values : ∀ value ∈ site.values, value <:+: items := fun value member =>
        (List.infix_of_mem_flatten member).trans ((List.prefix_append _ _).isInfix.trans behind)
      have rest : site.rest <:+: items :=
        (List.suffix_cons _ _).isInfix.trans ((List.suffix_append _ _).isInfix.trans behind)
      rw [Expander.expandItems_site accesses found,
        @Expander.expandItems_site session.fixed _ _ _ _ _ accesses found]
      refine Replays.bind (.quiet (fun _ => rfl) fun _ => rfl) fun _ => ?_
      refine ((replays_ofSite site).mono fun _ reads => reads.mono target).bind fun code => ?_
      refine (Replays.mapM fun value member =>
        (replays value (shorter.2 value member)).within (values value member) 0).bind fun _ => ?_
      refine (Replays.ofExcept _).bind fun _ => ?_
      exact ((replays site.rest shorter.1).within rest _).bind fun _ => .pure _

theorem replays_read {rest : List CodeItem}
    (replays : ∀ items : List CodeItem, items.length ≤ rest.length → session.ReplaysItems items)
    (noAccess : session.expander.placeholders.accessLength?
      session.expander.options.receiverCaptures (.code (.argument .load 0) :: rest) = none)
    (receiver : session.expander.options.receiverCaptures = true) :
    session.ReplaysItems (.code (.argument .load 0) :: rest) := by
  intro index
  have loads : (session.expander.options.receiverCaptures &&
      (.argument .load 0 : Instruction Label) == .argument .load 0) = true := by
    rw [receiver]
    rfl
  rw [Expander.expandItems, Expander.expandItems]
  simp only [placeholders_fixed, options_fixed, noAccess, loads, if_true]
  refine (replays_receiverUse receiver index rest).bind fun found => ?_
  obtain ⟨use, length⟩ := found
  refine (replays_useCapture use).bind fun code => ?_
  have shorter : (rest.drop (length - 1)).length ≤ rest.length := by
    rw [List.length_drop]
    exact Nat.sub_le _ _
  have part : rest.drop (length - 1) <:+: .code (.argument .load 0) :: rest :=
    ((List.drop_suffix _ _).trans (List.suffix_cons _ _)).isInfix
  exact ((replays _ shorter).within part _).bind fun _ => .pure _

theorem replays_plain {instruction : Instruction Label} {rest : List CodeItem}
    (replays : session.ReplaysItems rest)
    (noAccess : session.expander.placeholders.accessLength?
      session.expander.options.receiverCaptures (.code instruction :: rest) = none)
    (noRead : ¬(session.expander.options.receiverCaptures &&
      instruction == .argument .load 0) = true) :
    session.ReplaysItems (.code instruction :: rest) := by
  intro index
  have unread := Bool.eq_false_iff.mpr noRead
  rw [Expander.expandItems, Expander.expandItems]
  simp only [placeholders_fixed, options_fixed, shiftArgument_fixed, noAccess, unread,
    Bool.false_eq_true, if_false]
  cases operates : session.expander.placeholders.operation? instruction with
  | some operation => exact .throw _
  | none =>
      refine (Replays.ofExcept _).bind fun _ => ?_
      exact (replays.within (List.suffix_cons _ _).isInfix _).bind fun _ => .pure _

theorem replays_expandItems (items : List CodeItem) : session.ReplaysItems items := by
  induction count : items.length using Nat.strongRecOn generalizing items with
  | _ count inductionHypothesis =>
      have shorter : ∀ other : List CodeItem, other.length < items.length →
          session.ReplaysItems other :=
        fun other less => inductionHypothesis other.length (count ▸ less) other rfl
      cases access : session.expander.placeholders.accessLength?
          session.expander.options.receiverCaptures items with
      | some length => exact replays_site shorter access
      | none =>
          cases items with
          | nil => exact replays_nil
          | cons item rest =>
              have replays := shorter rest (Nat.lt_succ_self _)
              cases item with
              | mark label => exact replays_mark label replays
              | code instruction =>
                  by_cases loads : (session.expander.options.receiverCaptures &&
                      instruction == .argument .load 0) = true
                  · obtain ⟨receiver, isLoad⟩ := Bool.and_eq_true_iff.mp loads
                    obtain rfl := eq_of_beq isLoad
                    exact replays_read
                      (fun other less => shorter other (Nat.lt_succ_of_le less)) access receiver
                  · exact replays_plain replays access loads

end ReadSession
end CilTemplate
