import CilTemplate.Proofs.Emission.Rejection
import CilTemplate.Proofs.Entries

/-
Requests to one encoder, one after the other.  The encoder keeps the handles of
labels, so a label that one body has marked is marked for all that follow.
-/

namespace CilTemplate

open CilTemplate.Action

inductive EncoderCall
  | bindLocal (slot : Local) (index : UInt16)
  | encodeBody (body : Body)
  | encodeItems (items : List CodeItem)
deriving DecidableEq

namespace EncoderCall

def perform : EncoderCall → Action (Encoder Emitter) Unit
  | bindLocal slot index => Encoder.bindLocal slot index
  | encodeBody body => Encoder.encodeBody body
  | encodeItems items => Encoder.encodeItemList items

def body : EncoderCall → Body
  | bindLocal _ _ => ⟨[], []⟩
  | encodeBody body => body
  | encodeItems items => ⟨[], items⟩

/-- The encoder that requests leave behind, whether they succeed or fail. -/
def afterAll (encoder : Encoder Emitter) (history : List EncoderCall) : Encoder Emitter :=
  history.foldl (fun encoder call => (run call.perform encoder).2) encoder

end EncoderCall

namespace Encoder

/-- Labels have handles of their own, those that were known are kept, and only
the given labels are marked. -/
structure Tidy (known : List (Identity × Nat)) (marked : Identity → Prop)
    (encoder : Encoder Emitter) : Prop where
  keeps : LookupExtends known encoder.labels
  bound : ∀ {identity : Identity} {handle : Nat},
    encoder.labels.lookup identity = some handle → handle < encoder.sink.layout.marks.size
  distinct : ∀ {first second : Identity} {handle : Nat},
    encoder.labels.lookup first = some handle → encoder.labels.lookup second = some handle →
      first = second
  placed : ∀ {identity : Identity} {handle place : Nat},
    encoder.labels.lookup identity = some handle →
      encoder.sink.layout.marks[handle]? = some (some place) → marked identity

section Tidiness

variable {Result : Type} {known : List (Identity × Nat)} {marked : Identity → Prop}
  {encoder after : Encoder Emitter}

theorem Tidy.of_same (tidy : Tidy known marked encoder) (labels : after.labels = encoder.labels)
    (marks : after.sink.layout.marks = encoder.sink.layout.marks) : Tidy known marked after where
  keeps := labels ▸ tidy.keeps
  bound found := by
    rw [marks]
    exact tidy.bound (labels ▸ found)
  distinct first second := tidy.distinct (labels ▸ first) (labels ▸ second)
  placed found mark := tidy.placed (labels ▸ found) (marks ▸ mark)

theorem Tidy.define (tidy : Tidy known marked encoder) {identity : Identity}
    (fresh : encoder.labels.lookup identity = none)
    (labels : after.labels = (identity, encoder.sink.layout.marks.size) :: encoder.labels)
    (marks : after.sink.layout.marks = encoder.sink.layout.marks.push none) :
    Tidy known marked after where
  keeps := by
    rw [labels]
    exact tidy.keeps.trans (LookupExtends.cons _ fresh)
  bound {other handle} found := by
    rw [marks, Array.size_push]
    rw [labels] at found
    rcases lookup_cons_cases found with ⟨_, rfl⟩ | earlier
    · exact Nat.lt_add_one _
    · exact Nat.lt_add_right 1 (tidy.bound earlier)
  distinct {first second handle} foundFirst foundSecond := by
    rw [labels] at foundFirst foundSecond
    rcases lookup_cons_cases foundFirst with ⟨rfl, rfl⟩ | earlierFirst <;>
      rcases lookup_cons_cases foundSecond with ⟨rfl, same⟩ | earlierSecond
    · rfl
    · exact absurd (tidy.bound earlierSecond) (Nat.lt_irrefl _)
    · exact absurd (same ▸ tidy.bound earlierFirst) (Nat.lt_irrefl _)
    · exact tidy.distinct earlierFirst earlierSecond
  placed {other handle place} found mark := by
    rw [labels] at found
    rw [marks, Array.getElem?_push] at mark
    split at mark
    · cases mark
    · rename_i old
      exact tidy.placed ((lookup_cons_cases found).resolve_left fun new => old new.2) mark

theorem Tidy.mark (tidy : Tidy known marked encoder) {identity : Identity} {handle : Nat}
    (found : encoder.labels.lookup identity = some handle) (allowed : marked identity)
    (labels : after.labels = encoder.labels) (place : Nat)
    (marks : after.sink.layout.marks =
      encoder.sink.layout.marks.setIfInBounds handle (some place)) : Tidy known marked after where
  keeps := labels ▸ tidy.keeps
  bound other := by
    rw [marks, Array.size_setIfInBounds]
    exact tidy.bound (labels ▸ other)
  distinct first second := tidy.distinct (labels ▸ first) (labels ▸ second)
  placed {other otherHandle _} otherFound mark := by
    rw [labels] at otherFound
    by_cases same : handle = otherHandle
    · subst same
      rw [tidy.distinct otherFound found]
      exact allowed
    · rw [marks, Array.getElem?_setIfInBounds_ne same] at mark
      exact tidy.placed otherFound mark

theorem Tidy.mono {other : Identity → Prop} (tidy : Tidy known marked encoder)
    (wider : ∀ identity, marked identity → other identity) : Tidy known other encoder :=
  ⟨tidy.keeps, tidy.bound, tidy.distinct, fun found mark => wider _ (tidy.placed found mark)⟩

theorem maintains_onSink {action : Action Emitter Result}
    (keeps : ∀ marks, Maintains (fun emitter => emitter.layout.marks = marks) action) :
    Maintains (Tidy known marked) (onSink action) := by
  intro encoder tidy
  rw [run_onSink]
  exact tidy.of_same rfl (keeps _ encoder.sink rfl)

theorem maintains_note (text : String) : Maintains (Tidy known marked) (note text) := by
  intro encoder tidy
  obtain ⟨log, noted⟩ := run_note text encoder
  rw [noted]
  exact tidy.of_same rfl rfl

theorem maintains_bindLocal (slot : Local) (index : UInt16) :
    Maintains (Tidy known marked) (bindLocal slot index) :=
  fun _ tidy => tidy.of_same rfl rfl

theorem maintains_slotIndex (slot : Local) : Maintains (Tidy known marked) (slotIndex slot) := by
  refine Maintains.get.bind fun encoder => ?_
  split
  · exact .pure _
  · exact .throw _

theorem maintains_labelHandle (label : Label) :
    Maintains (Tidy known marked) (labelHandle label) := by
  intro encoder tidy
  simp only [labelHandle, run_bind, run_get]
  cases fresh : encoder.labels.lookup label.identity with
  | some handle => exact tidy
  | none => exact tidy.define fresh rfl rfl

theorem maintains_labelHandles (labels : List Label) :
    Maintains (Tidy known marked) (labelHandles labels) := by
  induction labels with
  | nil => exact .pure []
  | cons label rest inductionHypothesis =>
      exact (maintains_labelHandle label).bind fun _ => inductionHypothesis.bind fun _ => .pure _

theorem maintains_operandWithHandles (operand : Operand Label) :
    Maintains (Tidy known marked) (operandWithHandles operand) := by
  cases operand with
  | label target => exact (maintains_labelHandle target).bind fun _ => .pure _
  | switch targets => exact (maintains_labelHandles targets).bind fun _ => .pure _
  | _ => exact .pure _

theorem maintains_emit (opcode : Opcode) (operand : Operand Nat) :
    Maintains (Tidy known marked) (emit opcode operand) :=
  Maintains.get.bind fun _ => (maintains_note _).bind fun _ =>
    maintains_onSink fun marks =>
      @Emitter.maintains_emit (fun layout => layout.marks = marks) (fun _ same => same) opcode
        operand

theorem maintains_encodeInstruction (instruction : Instruction Label) :
    Maintains (Tidy known marked) (encodeInstruction instruction) := by
  cases instruction with
  | localSlot access slot => exact (maintains_slotIndex slot).bind fun _ => maintains_emit _ _
  | branch condition target =>
      exact (maintains_labelHandle target).bind fun _ => maintains_emit _ _
  | raw opcode operand =>
      exact (Maintains.ofExcept _).bind fun _ => (maintains_operandWithHandles operand).bind
        fun _ => maintains_emit _ _
  | _ => exact maintains_emit _ _

theorem maintains_encodeMark {label : Label} (allowed : marked label.identity) :
    Maintains (Tidy known marked) (encodeItem (.mark label)) := by
  intro encoder tidy
  have named := maintains_labelHandle label encoder tidy
  rw [encodeItem, run_bind]
  cases naming : run (labelHandle label) encoder with
  | mk result middle =>
      rw [naming] at named
      cases result with
      | error error => exact named
      | ok handle =>
          obtain ⟨found, _⟩ := run_labelHandle naming
          obtain ⟨log, noted⟩ := run_note (label.name ++ ":") middle
          simp only [run_bind, noted, run_onSink]
          rcases Emitter.layout_markLabel handle middle.sink with same | ⟨_, marked⟩
          · exact named.of_same rfl (congrArg Layout.marks same)
          · exact named.mark found allowed rfl _ (congrArg Layout.marks marked)

theorem maintains_encodeItems {items : List CodeItem}
    (allowed : ∀ label ∈ items.filterMap CodeItem.label?, marked label.identity) :
    Maintains (Tidy known marked) (encodeItems items) := by
  induction items with
  | nil => exact .pure ()
  | cons item rest inductionHypothesis =>
      cases item with
      | mark label =>
          obtain ⟨here, others⟩ := List.forall_mem_cons.mp allowed
          exact (maintains_encodeMark here).bind fun _ => inductionHypothesis others
      | code instruction =>
          exact (maintains_encodeInstruction instruction).bind fun _ =>
            inductionHypothesis allowed

theorem maintains_declareLocals (locals : List Local) :
    Maintains (Tidy known marked) (declareLocals locals) := by
  induction locals with
  | nil => exact .pure ()
  | cons slot rest inductionHypothesis =>
      refine Maintains.get.bind fun encoder => ?_
      dsimp only
      split
      · have declares : ∀ marks, Maintains (fun emitter => emitter.layout.marks = marks)
            (Emitter.declareLocal slot.declaration) := fun marks =>
          @Emitter.KeepsLayout.maintains _ (fun layout => layout.marks = marks) _
            (Emitter.KeepsLayout.declareLocal _)
        exact (maintains_onSink declares).bind fun index =>
          (maintains_bindLocal slot index).bind fun _ => inductionHypothesis
      · exact inductionHypothesis

theorem maintains_encodeBody {body : Body}
    (allowed : ∀ label ∈ body.labels, marked label.identity) :
    Maintains (Tidy known marked) (encodeBody body) :=
  Maintains.get.bind fun _ => (Maintains.ofExcept _).bind fun _ =>
    (maintains_declareLocals body.locals).bind fun _ =>
      (maintains_labelHandles _).bind fun _ => maintains_encodeItems allowed

theorem maintains_perform {call : EncoderCall}
    (allowed : ∀ label ∈ call.body.labels, marked label.identity) :
    Maintains (Tidy known marked) call.perform := by
  cases call with
  | bindLocal slot index => exact maintains_bindLocal slot index
  | encodeBody body => exact maintains_encodeBody allowed
  | encodeItems items => exact @maintains_encodeBody _ _ ⟨[], items⟩ allowed

/-- By induction on the requests: only labels that one of them marks are
marked. -/
theorem Tidy.afterAll {history : List EncoderCall}
    (allowed : ∀ call ∈ history, ∀ label ∈ call.body.labels, marked label.identity)
    (tidy : Tidy known marked encoder) :
    Tidy known marked (EncoderCall.afterAll encoder history) := by
  induction history generalizing encoder with
  | nil => exact tidy
  | cons call rest inductionHypothesis =>
      obtain ⟨here, others⟩ := List.forall_mem_cons.mp allowed
      exact inductionHypothesis others (maintains_perform here encoder tidy)

theorem tidy_onto (emitter : Emitter) (options : EncoderOptions) :
    Tidy [] marked (onto emitter options) :=
  ⟨LookupExtends.refl _, nofun, nofun, nofun⟩

def Placed (encoder : Encoder Emitter) (identity : Identity) : Prop :=
  ∃ handle place : Nat, encoder.labels.lookup identity = some handle ∧
    encoder.sink.marks[handle]? = some (some place)

theorem Tidy.start (tidy : Tidy known marked encoder) :
    Tidy encoder.labels encoder.Placed encoder :=
  ⟨LookupExtends.refl _, tidy.bound, tidy.distinct, fun found mark => ⟨_, _, found, mark⟩⟩

end Tidiness

section Requests

variable {encoder after : Encoder Emitter} {error : Error}

theorem stops_of_encodeItems {items : List CodeItem}
    (failed : run (encodeItems items) encoder = (.error error, after)) :
    ∃ front item rest middle, items = front ++ item :: rest ∧
      run (encodeItems front) encoder = (.ok (), middle) ∧
      run (encodeItem item) middle = (.error error, after) := by
  induction items generalizing encoder with
  | nil => cases failed
  | cons item rest inductionHypothesis =>
      rcases run_bind_eq_error.mp failed with here | ⟨_, next, done, later⟩
      · exact ⟨[], item, rest, encoder, rfl, rfl, here⟩
      · obtain ⟨front, stop, others, middle, rfl, written, stopped⟩ := inductionHypothesis later
        refine ⟨item :: front, stop, others, middle, rfl, ?_, stopped⟩
        exact run_bind_eq_ok.mpr ⟨(), next, done, written⟩

theorem neverRejects_declareLocals (locals : List Local) :
    NeverRejects (declareLocals locals : Action (Encoder Emitter) Unit) := by
  have declares : ∀ declaration, NeverRejects (Emitter.declareLocal declaration) := by
    intro declaration
    refine NeverRejects.get.bind fun emitter => ?_
    dsimp only
    split
    · exact .throw_bind rfl _
    · exact (NeverRejects.modify _).bind fun _ => .pure _
  induction locals with
  | nil => exact .pure ()
  | cons slot rest inductionHypothesis =>
      refine NeverRejects.get.bind fun encoder => ?_
      dsimp only
      split
      · exact (neverRejects_onSink (declares _)).bind fun _ => (NeverRejects.modify _).bind
          fun _ => inductionHypothesis
      · exact inductionHypothesis

theorem slots_of_declareLocals {locals : List Local}
    (done : run (declareLocals locals) encoder = (.ok (), after)) :
    encoder.slots.map Prod.fst ++ locals.map Local.identity ⊆ after.slots.map Prod.fst := by
  induction locals generalizing encoder with
  | nil =>
      obtain ⟨_, rfl⟩ := Prod.mk.inj done
      exact List.append_subset.mpr ⟨List.Subset.refl _, List.nil_subset _⟩
  | cons slot rest inductionHypothesis =>
      cases known : encoder.slots.lookup slot.identity with
      | some index =>
          rw [run_declareLocals_of_known known] at done
          obtain ⟨kept, others⟩ := List.append_subset.mp (inductionHypothesis done)
          have here := kept (isSome_lookup_iff.mp (Option.isSome_of_eq_some known))
          exact List.append_subset.mpr ⟨kept, List.cons_subset.mpr ⟨here, others⟩⟩
      | none =>
          obtain ⟨index, sink, _, later⟩ := declareLocals_eq_ok_of_fresh known done
          obtain ⟨kept, others⟩ := List.append_subset.mp (inductionHypothesis later)
          obtain ⟨here, earlier⟩ := List.cons_subset.mp kept
          exact List.append_subset.mpr ⟨earlier, List.cons_subset.mpr ⟨here, others⟩⟩

theorem rejection_of_encodeMark {label : Label} {handle : Nat}
    (known : encoder.handle? label = some handle) (bound : handle < encoder.sink.marks.size)
    (rejection : error.isRejection = true)
    (failed : run (encodeItem (.mark label)) encoder = (.error error, after)) :
    (∃ place, encoder.sink.marks[handle]? = some (some place)) ∧
      error = .duplicateLabel (Layout.labelText handle) ∧ after.sink = encoder.sink := by
  have found := run_labelHandle_of_known known
  obtain ⟨log, noted⟩ := run_note (label.name ++ ":") encoder
  simp only [encodeItem, run_bind, found, noted, run_onSink, Prod.mk.injEq] at failed
  obtain ⟨refused, rfl⟩ := failed
  exact Emitter.rejection_of_markLabel bound rejection (Prod.ext refused rfl)

def writeFront (body : Body) (front : List CodeItem) : Action (Encoder Emitter) Unit := do
  declareLocals body.locals
  let _ ← labelHandles body.labels
  encodeItems front

/-- A label of the body was marked beforehand.  The code in front of its mark is
written, and then the mark is refused. -/
structure StopsAtMark (before : Encoder Emitter) (body : Body) (label : Label) (error : Error)
    (after : Encoder Emitter) : Prop where
  marked : ∃ handle place, before.handle? label = some handle ∧
    before.sink.marks[handle]? = some (some place) ∧
    error = .duplicateLabel (Layout.labelText handle)
  written : ∃ front rest reached, body.items = front ++ .mark label :: rest ∧
    run (writeFront body front) before = (.ok (), reached) ∧ after.sink = reached.sink

section Front

variable {known : List (Identity × Nat)} {marked : Identity → Prop} {body : Body}
  {front rest : List CodeItem} {reached : Encoder Emitter}

theorem run_writeFront_eq_ok (written : run (writeFront body front) encoder = (.ok (), reached)) :
    ∃ declared named handles, run (declareLocals body.locals) encoder = (.ok (), declared) ∧
      run (labelHandles body.labels) declared = (.ok handles, named) ∧
      run (encodeItems front) named = (.ok (), reached) := by
  obtain ⟨_, declared, declaring, others⟩ := run_bind_eq_ok.mp written
  obtain ⟨handles, named, naming, encoding⟩ := run_bind_eq_ok.mp others
  exact ⟨declared, named, handles, declaring, naming, encoding⟩

theorem Tidy.afterFront (tidy : Tidy known marked encoder)
    (written : run (writeFront body front) encoder = (.ok (), reached)) :
    Tidy encoder.labels (fun identity => encoder.Placed identity ∨
      identity ∈ (front.filterMap CodeItem.label?).map Label.identity) reached := by
  have start := tidy.start.mono (fun identity => @Or.inl _
    (identity ∈ (front.filterMap CodeItem.label?).map Label.identity))
  have kept := (maintains_declareLocals body.locals).bind (fun _ =>
    (maintains_labelHandles body.labels).bind fun _ =>
      maintains_encodeItems fun _ member => Or.inr (List.mem_map_of_mem member)) encoder start
  have same : (run (writeFront body front) encoder).2 = reached := by rw [written]
  rw [← same]
  exact kept

theorem not_rejected_behind_front {instruction : Instruction Label}
    (valid : validate encoder.slots body = .ok ())
    (written : run (writeFront body front) encoder = (.ok (), reached))
    (member : instruction ∈ body.instructions)
    (stopped : run (encodeInstruction instruction) reached = (.error error, after)) :
    error.isRejection = false := by
  obtain ⟨_, _, checked⟩ := bind_eq_ok.mp valid
  obtain ⟨_, writable, isKnown⟩ :=
    checkInstruction_eq_ok (forall_of_checkInstructions checked instruction member)
  obtain ⟨declared, named, handles, declaring, naming, encoding⟩ := run_writeFront_eq_ok written
  obtain ⟨_, namedExtends, _⟩ := run_labelHandles naming
  obtain ⟨reachedExtends, _⟩ := run_encodeItems encoding
  refine not_rejected_of_encodeInstruction writable ?_ stopped
  intro slot accessed
  rw [reachedExtends.slots, namedExtends.slots]
  exact slots_of_declareLocals declaring (isKnown slot accessed)

theorem stopsAtMark_behind_front {label : Label} (tidy : Tidy known marked encoder)
    (valid : validate encoder.slots body = .ok ())
    (items : body.items = front ++ .mark label :: rest)
    (written : run (writeFront body front) encoder = (.ok (), reached))
    (rejection : error.isRejection = true)
    (stopped : run (encodeItem (.mark label)) reached = (.error error, after)) :
    label ∈ body.labels ∧ StopsAtMark encoder body label error after := by
  have labels : body.labels = front.filterMap CodeItem.label? ++
      label :: rest.filterMap CodeItem.label? := by
    rw [Body.labels, items, List.filterMap_append]
    rfl
  have member : label ∈ body.labels := by
    rw [labels]
    exact List.mem_append_right _ List.mem_cons_self
  have once : label.identity ∉ (front.filterMap CodeItem.label?).map Label.identity := by
    obtain ⟨_, marksValid, _⟩ := bind_eq_ok.mp valid
    obtain ⟨distinct, _⟩ := nodup_of_checkMarks marksValid
    rw [labels, List.map_append] at distinct
    exact fun again => List.disjoint_of_nodup_append distinct again List.mem_cons_self
  obtain ⟨declared, named, handles, _, naming, encoding⟩ := run_writeFront_eq_ok written
  obtain ⟨handled, _⟩ := run_labelHandles naming
  obtain ⟨reachedExtends, _⟩ := run_encodeItems encoding
  have isHandled : named.handle? label ∈ handles.map some := by
    rw [← handled]
    exact List.mem_map_of_mem member
  obtain ⟨handle, _, same⟩ := List.mem_map.mp isHandled
  have found : reached.handle? label = some handle := reachedExtends.labels _ _ same.symm
  -- The mark that stands in the way is none of the front, so it is an earlier one.
  have afterFront := tidy.afterFront written
  obtain ⟨⟨place, mark⟩, isDuplicate, sink⟩ :=
    rejection_of_encodeMark found (afterFront.bound found) rejection stopped
  obtain ⟨known, earlier, wasKnown, wasMarked⟩ := (afterFront.placed found mark).resolve_right once
  obtain rfl : known = handle :=
    Option.some.inj ((afterFront.keeps _ _ wasKnown).symm.trans found)
  exact ⟨member, ⟨known, earlier, wasKnown, wasMarked, isDuplicate⟩,
    front, rest, reached, items, written, sink⟩

/-- Only the check rejects a body, unless the body marks a label again that was
marked before. -/
theorem rejection_of_encodeBody (tidy : Tidy known marked encoder)
    (rejection : error.isRejection = true)
    (failed : run (encodeBody body) encoder = (.error error, after)) :
    validate encoder.slots body = .error error ∧ after = encoder ∨
      validate encoder.slots body = .ok () ∧
        ∃ label ∈ body.labels, StopsAtMark encoder body label error after := by
  have accepted : ∀ {Result : Type} {action : Action (Encoder Emitter) Result}
      {start final : Encoder Emitter}, NeverRejects action →
        run action start ≠ (.error error, final) := by
    intro _ _ start final never failed
    rw [never start final error failed] at rejection
    cases rejection
  rw [run_encodeBody] at failed
  rcases run_bind_eq_error.mp failed with unchecked | ⟨_, _, checked, writing⟩
  · obtain ⟨invalid, rfl⟩ := Prod.mk.inj unchecked
    exact Or.inl ⟨invalid, rfl⟩
  · obtain ⟨valid, rfl⟩ := Prod.mk.inj checked
    refine Or.inr ⟨valid, ?_⟩
    -- Locals and handles come before the items, and neither step rejects.
    rcases run_bind_eq_error.mp writing with early | ⟨_, declared, declaring, writing⟩
    · exact absurd early (accepted (neverRejects_declareLocals _))
    rcases run_bind_eq_error.mp writing with early | ⟨handles, named, naming, writing⟩
    · exact absurd early (accepted (neverRejects_labelHandles _))
    obtain ⟨front, item, others, reached, items, encoding, stopped⟩ := stops_of_encodeItems writing
    -- Behind the front the check vouches for an instruction, but not for a mark.
    have written : run (writeFront body front) encoder = (.ok (), reached) :=
      run_bind_eq_ok.mpr ⟨_, declared, declaring, run_bind_eq_ok.mpr ⟨_, named, naming, encoding⟩⟩
    cases item with
    | code instruction =>
        have member : instruction ∈ body.instructions := by
          rw [Body.instructions, items, List.filterMap_append]
          exact List.mem_append_right _ List.mem_cons_self
        rw [not_rejected_behind_front valid written member stopped] at rejection
        cases rejection
    | mark label =>
        exact ⟨label, stopsAtMark_behind_front tidy valid items written rejection stopped⟩

end Front
end Requests

/-- A request that is rejected after a history of requests leaves everything as
it was, unless it marks a label that an earlier request has marked.  Then the
code in front of the mark is in the emitter. -/
theorem rejected_unless_marked_again {emitter : Emitter} {options : EncoderOptions}
    {history : List EncoderCall} {call : EncoderCall} {error : Error} {after : Encoder Emitter}
    (rejection : error.isRejection = true)
    (failed : run call.perform (EncoderCall.afterAll (onto emitter options) history) =
      (.error error, after)) :
    let before := EncoderCall.afterAll (onto emitter options) history
    validate before.slots call.body = .error error ∧ after = before ∨
      validate before.slots call.body = .ok () ∧ ∃ label ∈ call.body.labels,
        (∃ earlier ∈ history, label.identity ∈ earlier.body.labels.map Label.identity) ∧
        StopsAtMark before call.body label error after := by
  have tidy : Tidy [] (fun identity => ∃ earlier ∈ history,
      identity ∈ earlier.body.labels.map Label.identity)
      (EncoderCall.afterAll (onto emitter options) history) :=
    (tidy_onto emitter options).afterAll fun earlier member _ marks =>
      ⟨earlier, member, List.mem_map_of_mem marks⟩
  have encodes : run (encodeBody call.body)
      (EncoderCall.afterAll (onto emitter options) history) = (.error error, after) := by
    cases call with
    | bindLocal slot index => cases failed
    | encodeBody body => exact failed
    | encodeItems items => exact failed
  rcases rejection_of_encodeBody tidy rejection encodes with
    unchecked | ⟨valid, label, member, stops⟩
  · exact Or.inl unchecked
  · obtain ⟨handle, place, known, mark, _⟩ := stops.marked
    exact Or.inr ⟨valid, label, member, tidy.placed known mark, stops⟩

end Encoder

namespace HistoriesSample

def top : Label := ⟨.handle "top", "top"⟩

def bottom : Label := ⟨.handle "bottom", "bottom"⟩

def nop : CodeItem := .code (.raw ⟨0x00⟩ .none)

def before : Encoder Emitter :=
  EncoderCall.afterAll (Encoder.onto Emitter.empty .standard) [.encodeItems [.mark top, nop]]

def dangling : EncoderCall := .encodeBody ⟨[], [nop, .code (.branch .always bottom)]⟩

def again : EncoderCall := .encodeItems [nop, .mark top]

end HistoriesSample

open HistoriesSample in
theorem rejected_unless_marked_again_of_dangling :
    run dangling.perform before = (.error (.undefinedLabel "bottom"), before) := by
  have failed : run dangling.perform before =
      (.error (.undefinedLabel "bottom"), (run dangling.perform before).2) :=
    Prod.ext (by decide +kernel) rfl
  rcases Encoder.rejected_unless_marked_again rfl failed with ⟨_, same⟩ | ⟨valid, _⟩
  · rw [same] at failed
    exact failed
  · exact absurd valid (by decide +kernel)

open HistoriesSample in
/-- A rejected request leaves code behind. -/
theorem rejected_after_writing :
    ∃ error after, run again.perform before = (.error error, after) ∧
      error.isRejection = true ∧ before.sink.position = 1 ∧ after.sink.position = 2 := by
  exact ⟨.duplicateLabel "EmitLabel(0)", (run again.perform before).2,
    Prod.ext (by decide +kernel) rfl, rfl, by decide +kernel, by decide +kernel⟩

end CilTemplate
