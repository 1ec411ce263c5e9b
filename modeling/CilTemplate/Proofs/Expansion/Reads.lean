import CilTemplate.Proofs.Expansion.Replay

/-
Captures are read at most once in a pass.  What the pass makes of the template
depends on the closures only through the answers to these reads.
-/

namespace CilTemplate

open CilTemplate.Action

namespace CaptureContext

/-- The answers to some reads that come after a number of others.  A member
that is not read has no value. -/
def answersTo (captures : CaptureContext) (earlier : Nat) (reads : List CaptureSite)
    (site : CaptureSite) : Except Error CapturedValue :=
  match captures.closure? site.closure with
  | none => .error (.unresolvableCapture (.noClosure site.closure.name))
  | some closure =>
      if site ∈ reads then closure.answer (earlier + reads.idxOf site) site.member
      else .error (.unresolvableCapture (.noField closure.type.text site.member.text))

variable {captures : CaptureContext} {reads : List CaptureSite}

theorem answersReads_answersTo (once : reads.Nodup)
    (owned : ∀ site ∈ reads, captures.owns site = true) (earlier : Nat) :
    captures.AnswersReads earlier (captures.answersTo earlier reads) reads := by
  intro index site known
  have member := List.mem_of_getElem? known
  obtain ⟨closure, found⟩ := exists_closure_of_owns (owned site member)
  obtain ⟨below, rfl⟩ := List.getElem?_eq_some_iff.mp known
  refine ⟨closure, found, ?_⟩
  simp only [answersTo, found, if_pos member, once.idxOf_getElem]

theorem mem_of_answersTo {earlier : Nat} {site : CaptureSite} {value : CapturedValue}
    (answers : captures.answersTo earlier reads site = .ok value) : site ∈ reads := by
  by_contra absent
  unfold answersTo at answers
  split at answers
  · cases answers
  · rw [if_neg absent] at answers
    cases answers

end CaptureContext

namespace Workspace

variable {Builder : Type} {reads : Array CaptureSite}

theorem maintains_withdraw_reads (keys : List UInt64) :
    Maintains (fun workspace : Workspace Builder => workspace.reads = reads) (withdraw keys) := by
  induction keys with
  | nil => exact .pure ()
  | cons key rest inductionHypothesis =>
      refine Maintains.bind (Maintains.attempt fun _ same => same) fun outcome => ?_
      cases outcome with
      | ok value => exact inductionHypothesis
      | error error => exact Maintains.bind (fun _ same => same) fun _ => inductionHypothesis

end Workspace

namespace Accessor

variable {Builder : Type} [TypeBuilder Builder] {reads : Array CaptureSite}

theorem maintains_define_reads (runtime : AccessorRuntime) (object : CapturedObject) :
    Maintains (fun workspace : Workspace Builder => workspace.reads = reads)
      (define runtime object) := by
  refine Maintains.bind (fun _ same => same) fun key => ?_
  refine Maintains.bind (fun _ same => same) fun _ => ?_
  refine Maintains.bind (fun _ same => same) fun cache => ?_
  refine Maintains.bind (fun _ same => same) fun claimed => ?_
  refine Maintains.bind (fun _ same => same) fun ready => ?_
  refine Maintains.bind (fun _ same => same) fun method => ?_
  refine Maintains.bind (fun _ same => same) fun _ => ?_
  exact Maintains.bind (fun _ same => same) fun _ => .pure _

theorem maintains_defineAll_reads (runtime : AccessorRuntime) (objects : List CapturedObject)
    (defined : List Accessor) :
    Maintains (fun workspace : Workspace Builder => workspace.reads = reads)
      (defineAll runtime objects defined) := by
  induction objects generalizing defined with
  | nil => exact .pure defined
  | cons object rest inductionHypothesis =>
      refine (maintains_define_reads runtime object).attempt.bind fun outcome => ?_
      cases outcome with
      | ok accessor => exact inductionHypothesis _
      | error error => exact (Workspace.maintains_withdraw_reads _).bind fun _ => .throw error

end Accessor

namespace Expander

variable {expander : Expander} {body : Body}

theorem exists_reads (expander : Expander) (items : List CodeItem) (index : Nat) (start : Pass) :
    ∃ reads : List CaptureSite,
      (run (expander.expandItems index items) start).2.reads.toList =
        start.reads.toList ++ reads ∧
      reads.Nodup ∧ (∀ site ∈ reads, expander.Accesses items site) ∧
      ∀ answer, expander.captures.AnswersReads start.reads.size answer reads →
        run ((expander.answeredBy answer).expandItems index items) start =
          run (expander.expandItems index items) start := by
  have replays : ∀ answer, ∃ reads, ReadSession.ReadsMore ⟨expander, start.reads.toList, answer⟩
      (expander.Accesses items) [] reads (run (expander.expandItems index items) start)
      (run ((expander.answeredBy answer).expandItems index items) start) := fun answer =>
    ReadSession.replays_expandItems items index [] start
      ⟨(List.append_nil _).symm, .nil, fun _ absent => absurd absent List.not_mem_nil⟩
  obtain ⟨reads, ends⟩ := replays fun _ => .ok .null
  refine ⟨reads, ends.log, ends.once, ends.allowed, fun answer answers => ?_⟩
  obtain ⟨others, replayed⟩ := replays answer
  obtain rfl : reads = others := List.append_cancel_left (ends.log.symm.trans replayed.log)
  exact replayed.same answers

variable {Builder : Type} [TypeBuilder Builder] {workspace after : Workspace Builder}
  {result : Except Error (Body × List Accessor)}

theorem run_expand_answeredBy {answer : CaptureSite → Except Error CapturedValue}
    (same : run ((expander.answeredBy answer).expandItems 0 (expander.trimmed body.items))
        (Pass.start body.locals.length workspace.reads workspace.log) =
      run (expander.expandItems 0 (expander.trimmed body.items))
        (Pass.start body.locals.length workspace.reads workspace.log)) :
    run ((expander.answeredBy answer).expand body) workspace =
      run (expander.expand body) workspace := by
  have trims : (expander.answeredBy answer).trimmed body.items = expander.trimmed body.items := rfl
  rw [expand, expand, run_bind, run_bind, run_expandPass, run_expandPass, trims, same]
  rfl

theorem reads_expand (expander : Expander) (body : Body) (workspace : Workspace Builder) :
    (run (expander.expand body) workspace).2.reads =
      (run (expander.expandItems 0 (expander.trimmed body.items))
        (Pass.start body.locals.length workspace.reads workspace.log)).2.reads := by
  rw [expand, run_bind, run_expandPass]
  cases run (expander.expandItems 0 (expander.trimmed body.items))
      (Pass.start body.locals.length workspace.reads workspace.log) with
  | mk result pass =>
      cases result with
      | error error => rfl
      | ok output =>
          have defines : Maintains (fun left : Workspace Builder => left.reads = pass.reads)
              (Accessor.defineAll expander.runtime pass.objects []) :=
            Accessor.maintains_defineAll_reads _ _ _
          exact (defines.bind fun _ => .pure _) { workspace with reads := _, log := _ } rfl

/-- A pass reads each captured member at most once, and only if the template
contains an access that resolves to it.  Closures that answer every read of a
member like that one make the pass end in the same way, whether it succeeds or
fails, and give no value to other members.  So every value, address and target
in the result comes from that one read, and from none of an earlier pass. -/
theorem expand_reads_each_capture_once
    (ran : run (expander.expand body) workspace = (result, after)) :
    ∃ (reads : List CaptureSite) (answer : CaptureSite → Except Error CapturedValue),
      after.reads.toList = workspace.reads.toList ++ reads ∧ reads.Nodup ∧
      (∀ site ∈ reads, expander.Accesses body.items site) ∧
      expander.captures.AnswersReads workspace.reads.size answer reads ∧
      (∀ site value, answer site = .ok value → site ∈ reads) ∧
      run ((expander.answeredBy answer).expand body) workspace = (result, after) ∧
      ∀ expanded accessors, result = .ok (expanded, accessors) →
        ∃ trace : Trace, trace.Relates (expander.answeredBy answer) body expanded accessors ∧
          ∀ capture ∈ trace.loads, answer capture.read.site = .ok capture.value := by
  obtain ⟨reads, log, once, accessed, replays⟩ := exists_reads expander
    (expander.trimmed body.items) 0 (Pass.start body.locals.length workspace.reads workspace.log)
  have owned : ∀ site ∈ reads, expander.captures.owns site = true := by
    intro site member
    obtain ⟨read, rfl, resolved, _⟩ := accessed site member
    exact CaptureContext.owns_of_owner? resolved.owned
  have answers := CaptureContext.answersReads_answersTo once owned workspace.reads.size
  have replayed := (run_expand_answeredBy (replays _ answers)).trans ran
  refine ⟨reads, _, ?_, once, ?_, answers, fun _ _ => CaptureContext.mem_of_answersTo, replayed, ?_⟩
  · have logged := reads_expand expander body workspace
    rw [ran] at logged
    rw [logged]
    exact log
  · intro site member
    exact (accessed site member).mono (expander.trimmed_isPrefix body.items).isInfix
  · rintro expanded accessors rfl
    obtain ⟨trace, relates⟩ := exists_relates replayed
    obtain ⟨objects, _, valid⟩ := relates.valid
    exact ⟨trace, relates, fun capture member =>
      CaptureContext.answer_of_gives (trace.valid_loads valid capture member).answered.given⟩

end Expander

namespace ReadsSample

open NestedSample

/-- The closure counts the reads and tells their number.  Only to every second
read it answers with a local. -/
def counter : ClosureObject where
  type := closureType
  fields := [captured 1, captured 2]
  getters := []
  answer count member :=
    if member = .field (captured 1) then .ok (.int32 (Int32.ofNat count))
    else if count % 2 = 1 then .ok (.member (.localSlot slot))
    else .ok .null

def counting : Expander := { expander with captures := ⟨some counter, none⟩ }

/-- Drops one captured value and its address.  Then the other capture is the
target of a site inside a site with the same target. -/
def readingTwice : Body :=
  ⟨[], (read 1).items ++ .code (.raw Opcode.pop .none) ::
    (CaptureRead.mk none (read 1).site true).items ++ .code (.raw Opcode.pop .none) ::
    access ++ (read 2).items ++ access ++ (read 2).items ++
    [.code (.call (operation 1 "Get" 1 valueType)), .code (.call (operation 3 "Set" 2 voidType)),
      .code .ret]⟩

def seeing (number : Int32) : List CodeItem :=
  let copy := Pass.temporary 0 0 valueType
  [.code (.loadInt32 number), .code (.raw Opcode.pop .none), .code (.loadInt32 number),
    .code (.localSlot .store copy), .code (.localSlot .address copy),
    .code (.raw Opcode.pop .none), .code (.localSlot .load slot), .code (.localSlot .store slot)]

end ReadsSample

open NestedSample ReadsSample in
theorem expand_reads_each_capture_once_of_counter :
    ∃ locals middle last,
      run (counting.expand readingTwice) workspace = (.ok (⟨locals, seeing 0⟩, []), middle) ∧
      run (counting.expand readingTwice) middle = (.ok (⟨locals, seeing 2⟩, []), last) ∧
      ∃ (reads : List CaptureSite) (answer : CaptureSite → Except Error CapturedValue),
        middle.reads.toList ++ reads = last.reads.toList ∧
        last.reads.toList = [(read 1).site, (read 2).site, (read 1).site, (read 2).site] ∧
        reads.Nodup ∧ (∀ site ∈ reads, counting.Accesses readingTwice.items site) ∧
        run ((counting.answeredBy answer).expand readingTwice) middle =
          (.ok (⟨locals, seeing 2⟩, []), last) := by
  let copy := Pass.temporary 0 0 valueType
  have first : (run (counting.expand readingTwice) workspace).1.toOption =
      some (⟨[copy], seeing 0⟩, []) := by
    decide +kernel
  have second : (run (counting.expand readingTwice)
      (run (counting.expand readingTwice) workspace).2).1.toOption =
        some (⟨[copy], seeing 2⟩, []) := by
    decide +kernel
  have ran := run_eq_ok_of_toOption second
  obtain ⟨reads, answer, log, once, accessed, _, _, same, _⟩ :=
    Expander.expand_reads_each_capture_once ran
  refine ⟨[copy], _, _, run_eq_ok_of_toOption first, ran, reads, answer, log.symm, ?_, once,
    accessed, same⟩
  decide +kernel

end CilTemplate
