import CilTemplate.Proofs.Code.TypedForms
import CilTemplate.Proofs.Emission.Encode
import CilTemplate.Proofs.Emission.Validation
import CilTemplate.Proofs.Entries

/-
What a sink is asked when a body is written.  Locals without a slot are declared
first, then all labels of the body are defined, and then each item of the code
is one request.
-/

namespace CilTemplate

open CilTemplate.Action

/-- A request to a sink together with the answer. -/
inductive SinkExchange
  | declareLocal (declaration : LocalDeclaration) (slot : UInt16)
  | defineLabel (handle : Nat)
  | markLabel (handle : Nat)
  | emit (opcode : Opcode) (operand : Operand Nat)
deriving DecidableEq

def SinkExchange.request : SinkExchange → SinkRequest
  | declareLocal declaration _ => .declareLocal declaration
  | defineLabel handle => .defineLabel handle
  | markLabel handle => .markLabel handle
  | emit opcode operand => .emit opcode operand

namespace CodeSink

variable {Sink : Type} [CodeSink Sink]

/-- The sink meets a request with this answer. -/
inductive Answers : Sink → SinkExchange → Sink → Prop
  | declareLocal {declaration : LocalDeclaration} {slot : UInt16} {before after : Sink}
      (met : run (CodeSink.declareLocal declaration) before = (.ok slot, after)) :
      Answers before (.declareLocal declaration slot) after
  | defineLabel {handle : Nat} {before after : Sink}
      (met : StateT.run CodeSink.defineLabel before = (handle, after)) :
      Answers before (.defineLabel handle) after
  | markLabel {handle : Nat} {before after : Sink}
      (met : run (CodeSink.markLabel handle) before = (.ok (), after)) :
      Answers before (.markLabel handle) after
  | emit {opcode : Opcode} {operand : Operand Nat} {before after : Sink}
      (met : run (CodeSink.emit opcode operand) before = (.ok (), after)) :
      Answers before (.emit opcode operand) after

/-- The sink is asked for these requests and no other, one after the other. -/
inductive Receives : Sink → List SinkExchange → Sink → Prop
  | nil (sink : Sink) : Receives sink [] sink
  | cons {before middle after : Sink} {exchange : SinkExchange} {rest : List SinkExchange}
      (first : Answers before exchange middle) (others : Receives middle rest after) :
      Receives before (exchange :: rest) after

namespace Receives

variable {before middle after : Sink} {exchanges more : List SinkExchange}

theorem append (first : Receives before exchanges middle) (others : Receives middle more after) :
    Receives before (exchanges ++ more) after := by
  induction first with
  | nil => exact others
  | cons answers _ inductionHypothesis => exact .cons answers (inductionHypothesis others)

end Receives
end CodeSink

theorem Transcript.requests_of_answers {before after : Transcript} {exchange : SinkExchange}
    (answers : CodeSink.Answers before exchange after) :
    after.requests.toList = before.requests.toList ++ [exchange.request] := by
  cases answers with
  | declareLocal met =>
      change run (Transcript.declareLocal _) before = _ at met
      simp only [Transcript.declareLocal, run_bind, run_get, run_ite, run_throw, run_set,
        run_pure] at met
      split at met
      · cases met
      · obtain ⟨_, rfl⟩ := Prod.mk.inj met
        exact Array.toList_push
  | defineLabel met =>
      obtain ⟨rfl, rfl⟩ := Prod.mk.inj met
      exact Array.toList_push
  | markLabel met =>
      obtain ⟨_, rfl⟩ := Prod.mk.inj met
      exact Array.toList_push
  | emit met =>
      obtain ⟨_, rfl⟩ := Prod.mk.inj met
      exact Array.toList_push

theorem Transcript.requests_of_receives {before after : Transcript}
    {exchanges : List SinkExchange} (receives : CodeSink.Receives before exchanges after) :
    after.requests.toList = before.requests.toList ++ exchanges.map SinkExchange.request := by
  induction receives with
  | nil => rw [List.map_nil, List.append_nil]
  | cons answers _ inductionHypothesis =>
      rw [inductionHypothesis, requests_of_answers answers, List.map_cons, List.append_assoc]
      rfl

/-- The instruction that an opcode and its operand stand for, where locals have
slots and labels have handles. -/
inductive Instruction.Denotes (slotOf : Identity → Option UInt16)
    (handleOf : Identity → Option Nat) : Instruction Label → Opcode → Operand Nat → Prop
  | argument {access : Access} {index : UInt16} {opcode : Opcode} {operand : Operand Nat}
      (reads : opcode.argumentAccess? operand = some (access, index)) :
      Denotes slotOf handleOf (.argument access index) opcode operand
  | localSlot {access : Access} {slot : Local} {index : UInt16} {opcode : Opcode}
      {operand : Operand Nat} (hasSlot : slotOf slot.identity = some index)
      (noArgument : opcode.argumentAccess? operand = none)
      (reads : opcode.localAccess? operand = some (access, index)) :
      Denotes slotOf handleOf (.localSlot access slot) opcode operand
  | field {place : FieldPlace} {access : Access} {found : Field} {opcode : Opcode}
      (reads : opcode.fieldAccess? = some (place, access)) :
      Denotes slotOf handleOf (.field place access found) opcode (.field found)
  | branch {condition : BranchCondition} {target : Label} {handle : Nat}
      (defined : handleOf target.identity = some handle) :
      Denotes slotOf handleOf (.branch condition target) condition.longOpcode (.label handle)
  | call {method : Method} :
      Denotes slotOf handleOf (.call method)
        (if method.isNonVirtualDispatch then Opcode.call else Opcode.callvirt) (.method method)
  | ret : Denotes slotOf handleOf .ret Opcode.ret .none
  | raw {opcode : Opcode} {operand : Operand Label} {handled : Operand Nat}
      (targets : operand.mapTargets (fun target => handleOf target.identity) =
        handled.mapTargets some) :
      Denotes slotOf handleOf (.raw opcode operand) opcode handled

def CodeItem.names : CodeItem → List Label
  | mark label => [label]
  | code instruction => instruction.targets

/-- The request for one item of the code. -/
inductive CodeItem.Asks (slotOf : Identity → Option UInt16) (handleOf : Identity → Option Nat) :
    CodeItem → SinkExchange → Prop
  | mark {label : Label} {handle : Nat} (defined : handleOf label.identity = some handle) :
      Asks slotOf handleOf (.mark label) (.markLabel handle)
  | code {instruction : Instruction Label} {opcode : Opcode} {operand : Operand Nat}
      (denotes : instruction.Denotes slotOf handleOf opcode operand) :
      Asks slotOf handleOf (.code instruction) (.emit opcode operand)

namespace Body

/-- The locals that are not known, each once and in their order. -/
def unbound (known : List Identity) : List Local → List Local
  | [] => []
  | slot :: rest =>
      if known.contains slot.identity then unbound known rest
      else slot :: unbound (slot.identity :: known) rest

theorem notMem_unbound {identity : Identity} {known : List Identity} {locals : List Local}
    (isKnown : identity ∈ known) : identity ∉ (unbound known locals).map Local.identity := by
  induction locals generalizing known with
  | nil => exact List.not_mem_nil
  | cons slot rest inductionHypothesis =>
      rw [unbound]
      split
      · exact inductionHypothesis isKnown
      · rename_i fresh
        rw [List.map_cons]
        apply List.not_mem_cons_of_ne_of_not_mem
        · rintro rfl
          exact fresh (List.contains_iff_mem.mpr isKnown)
        · exact inductionHypothesis (List.mem_cons_of_mem _ isKnown)

/-- What stands in the way of writing a body. -/
inductive Faulty (known : List Identity) (body : Body) : Prop
  | markedTwice (twice : ¬(body.labels.map Label.identity).Nodup) : Faulty known body
  | unmarkedTarget {instruction : Instruction Label} {target : Label}
      (member : instruction ∈ body.instructions) (isTarget : target ∈ instruction.targets)
      (unmarked : target.identity ∉ body.labels.map Label.identity) : Faulty known body
  | unknownLocal {slot : Local} (used : slot ∈ body.usedLocals)
      (unbound : slot.identity ∉ known)
      (undeclared : slot.identity ∉ body.locals.map Local.identity) : Faulty known body
  | reservedOpcode {opcode : Opcode} {operand : Operand Label}
      (member : .raw opcode operand ∈ body.instructions) (reserved : opcode.info? = none) :
      Faulty known body
  | wrongShape {opcode : Opcode} {operand : Operand Label} {info : OpcodeInfo}
      (member : .raw opcode operand ∈ body.instructions) (meaning : opcode.info? = some info)
      (misfit : operand.fits info.operand = false) : Faulty known body
  | signature {opcode : Opcode} {blob : List UInt8}
      (member : .raw opcode (.signature blob) ∈ body.instructions) : Faulty known body

/-- The slot of a local, of which some were bound beforehand and the others were
given when they were declared. -/
def slotGiven (slots : List (Identity × UInt16)) (body : Body) (given : List UInt16)
    (identity : Identity) : Option UInt16 :=
  (((unbound (slots.map Prod.fst) body.locals).map Local.identity).zip given ++ slots).lookup
    identity

def handleGiven (body : Body) (handles : List Nat) (identity : Identity) : Option Nat :=
  ((body.labels.map Label.identity).zip handles).lookup identity

/-- The requests by which a body is written: the locals without a slot are
declared, the labels are defined and the items follow, with the slots and handles
that were given. -/
inductive Drives (slots : List (Identity × UInt16)) (body : Body) : List SinkExchange → Prop
  | intro {given : List UInt16} {handles : List Nat} {asked : List SinkExchange}
      (declares : given.length = (unbound (slots.map Prod.fst) body.locals).length)
      (defines : handles.length = body.labels.length)
      (items : List.Forall₂
        (CodeItem.Asks (slotGiven slots body given) (handleGiven body handles)) body.items asked) :
      Drives slots body
        ((unbound (slots.map Prod.fst) body.locals).zipWith
            (fun slot index => .declareLocal slot.declaration index) given ++
          handles.map .defineLabel ++ asked)

end Body

namespace Encoder

variable {Sink : Type} [CodeSink Sink] {before after : Encoder Sink}

/-- The sink is asked, while slots and labels stay as they are. -/
structure Asks (before : Encoder Sink) (exchanges : List SinkExchange) (after : Encoder Sink) :
    Prop where
  receives : CodeSink.Receives before.sink exchanges after.sink
  slots : after.slots = before.slots
  labels : after.labels = before.labels

theorem Asks.nil (encoder : Encoder Sink) : Asks encoder [] encoder :=
  ⟨.nil _, rfl, rfl⟩

theorem Asks.append {middle : Encoder Sink} {exchanges more : List SinkExchange}
    (first : Asks before exchanges middle) (others : Asks middle more after) :
    Asks before (exchanges ++ more) after :=
  ⟨first.receives.append others.receives, others.slots.trans first.slots,
    others.labels.trans first.labels⟩

theorem asks_note {text : String} (done : run (note text) before = (.ok (), after)) :
    Asks before [] after := by
  obtain ⟨log, noted⟩ := run_note text before
  obtain ⟨_, rfl⟩ := Prod.mk.inj (noted.symm.trans done)
  exact ⟨.nil _, rfl, rfl⟩

theorem asks_onSink {action : Action Sink Unit} {exchange : SinkExchange}
    (answers : ∀ {start final : Sink}, run action start = (.ok (), final) →
      CodeSink.Answers start exchange final)
    (done : run (onSink action) before = (.ok (), after)) : Asks before [exchange] after := by
  rw [run_onSink] at done
  obtain ⟨met, rfl⟩ := Prod.mk.inj done
  exact ⟨.cons (answers (Prod.ext met rfl)) (.nil _), rfl, rfl⟩

theorem asks_emit {opcode : Opcode} {operand : Operand Nat}
    (done : run (emit opcode operand) before = (.ok (), after)) :
    Asks before [.emit opcode operand] after := by
  obtain ⟨_, start, got, rest⟩ := run_bind_eq_ok.mp done
  obtain ⟨_, rfl⟩ := Prod.mk.inj got
  obtain ⟨_, noted, noting, emitting⟩ := run_bind_eq_ok.mp rest
  exact (asks_note noting).append (asks_onSink .emit emitting)

def Handles (encoder : Encoder Sink) (label : Label) : Prop :=
  ∃ handle, encoder.labels.lookup label.identity = some handle

theorem run_labelHandles_of_known {encoder : Encoder Sink} {labels : List Label}
    (known : ∀ label ∈ labels, encoder.Handles label) :
    ∃ handles, run (labelHandles labels) encoder = (.ok handles, encoder) ∧
      labels.map (fun label => encoder.labels.lookup label.identity) = handles.map some := by
  induction labels with
  | nil => exact ⟨[], rfl, rfl⟩
  | cons label rest inductionHypothesis =>
      obtain ⟨⟨handle, found⟩, others⟩ := List.forall_mem_cons.mp known
      obtain ⟨handles, ran, mapped⟩ := inductionHypothesis others
      refine ⟨handle :: handles, ?_, ?_⟩
      · simp only [labelHandles, run_bind, run_labelHandle_of_known found, ran, run_pure]
      · rw [List.map_cons, List.map_cons, found, mapped]

theorem run_operandWithHandles_of_known {encoder : Encoder Sink} {operand : Operand Label}
    (known : ∀ target ∈ operand.targets, encoder.Handles target) :
    ∃ handled, run (operandWithHandles operand) encoder = (.ok handled, encoder) ∧
      operand.mapTargets (fun target => encoder.labels.lookup target.identity) =
        handled.mapTargets some := by
  cases operand with
  | label target =>
      obtain ⟨handle, found⟩ := known target (List.mem_singleton_self target)
      refine ⟨.label handle, ?_, congrArg Operand.label found⟩
      simp only [operandWithHandles, run_bind, run_labelHandle_of_known found, run_pure]
  | switch targets =>
      obtain ⟨handles, ran, mapped⟩ := @run_labelHandles_of_known _ _ _ targets known
      refine ⟨.switch handles, ?_, congrArg Operand.switch mapped⟩
      simp only [operandWithHandles, run_bind, ran, run_pure]
  | _ => exact ⟨_, rfl, rfl⟩

theorem asks_encodeInstruction {instruction : Instruction Label}
    (known : ∀ target ∈ instruction.targets, before.Handles target)
    (done : run (encodeInstruction instruction) before = (.ok (), after)) :
    ∃ opcode operand, Asks before [.emit opcode operand] after ∧
      instruction.Denotes (fun identity => before.slots.lookup identity)
        (fun identity => before.labels.lookup identity) opcode operand := by
  cases instruction with
  | argument access index =>
      exact ⟨_, _, asks_emit done, .argument (access.argumentAccess?_encode index)⟩
  | localSlot access slot =>
      obtain ⟨index, middle, found, emitted⟩ := run_bind_eq_ok.mp done
      obtain ⟨hasSlot, rfl⟩ := run_slotIndex found
      obtain ⟨noArgument, reads⟩ := @Access.localAccess?_encode Nat access index
      exact ⟨_, _, asks_emit emitted, .localSlot hasSlot noArgument reads⟩
  | field place access found =>
      exact ⟨_, _, asks_emit done, .field (Opcode.fieldAccess?_opcode place access)⟩
  | branch condition target =>
      obtain ⟨handle, found⟩ := known target (List.mem_singleton_self target)
      rw [encodeInstruction, run_bind, run_labelHandle_of_known found] at done
      exact ⟨_, _, asks_emit done, .branch found⟩
  | call method => exact ⟨_, _, asks_emit done, .call⟩
  | ret => exact ⟨_, _, asks_emit done, .ret⟩
  | raw opcode operand =>
      obtain ⟨_, start, checked, rest⟩ := run_bind_eq_ok.mp done
      obtain ⟨_, rfl⟩ := Prod.mk.inj checked
      obtain ⟨handled, ran, targets⟩ := run_operandWithHandles_of_known known
      rw [run_bind, ran] at rest
      exact ⟨_, _, asks_emit rest, .raw targets⟩

theorem asks_encodeItem {item : CodeItem}
    (known : ∀ label ∈ item.names, before.Handles label)
    (done : run (encodeItem item) before = (.ok (), after)) :
    ∃ exchange, Asks before [exchange] after ∧
      item.Asks (fun identity => before.slots.lookup identity)
        (fun identity => before.labels.lookup identity) exchange := by
  cases item with
  | mark label =>
      obtain ⟨handle, found⟩ := known label (List.mem_singleton_self label)
      rw [encodeItem, run_bind, run_labelHandle_of_known found] at done
      obtain ⟨_, noted, noting, marking⟩ := run_bind_eq_ok.mp done
      exact ⟨_, (asks_note noting).append (asks_onSink .markLabel marking), .mark found⟩
  | code instruction =>
      obtain ⟨opcode, operand, asks, denotes⟩ := asks_encodeInstruction known done
      exact ⟨_, asks, .code denotes⟩

/-- By induction on the items, each of which is one request. -/
theorem asks_encodeItems {items : List CodeItem}
    (known : ∀ item ∈ items, ∀ label ∈ item.names, before.Handles label)
    (done : run (encodeItems items) before = (.ok (), after)) :
    ∃ asked, Asks before asked after ∧ List.Forall₂
      (CodeItem.Asks (fun identity => before.slots.lookup identity)
        (fun identity => before.labels.lookup identity)) items asked := by
  induction items generalizing before with
  | nil =>
      obtain ⟨_, rfl⟩ := Prod.mk.inj done
      exact ⟨[], .nil _, .nil⟩
  | cons item rest inductionHypothesis =>
      obtain ⟨_, middle, first, others⟩ := run_bind_eq_ok.mp done
      obtain ⟨knownHere, knownLater⟩ := List.forall_mem_cons.mp known
      obtain ⟨exchange, asks, asked⟩ := asks_encodeItem knownHere first
      have handled : ∀ label, middle.Handles label ↔ before.Handles label := by
        intro label
        rw [Handles, Handles, asks.labels]
      obtain ⟨more, asksMore, askedMore⟩ := inductionHypothesis
        (fun item member label named => (handled label).mpr (knownLater item member label named))
        others
      rw [asks.slots, asks.labels] at askedMore
      exact ⟨exchange :: more, asks.append asksMore, .cons asked askedMore⟩

theorem receives_labelHandles {labels : List Label} {handles : List Nat}
    (distinct : (labels.map Label.identity).Nodup)
    (fresh : ∀ label ∈ labels, before.labels.lookup label.identity = none)
    (done : run (labelHandles labels) before = (.ok handles, after)) :
    handles.length = labels.length ∧
      CodeSink.Receives before.sink (handles.map .defineLabel) after.sink ∧
      after.slots = before.slots ∧
      ∀ identity, after.labels.lookup identity =
        ((labels.map Label.identity).zip handles ++ before.labels).lookup identity := by
  induction labels generalizing before handles with
  | nil =>
      obtain ⟨same, rfl⟩ := Prod.mk.inj done
      obtain rfl := Except.ok.inj same
      exact ⟨rfl, .nil _, rfl, fun _ => rfl⟩
  | cons label rest inductionHypothesis =>
      obtain ⟨handle, middle, naming, others⟩ := run_bind_eq_ok.mp done
      obtain ⟨later, last, namingLater, ended⟩ := run_bind_eq_ok.mp others
      obtain ⟨same, rfl⟩ := Prod.mk.inj ended
      obtain rfl := Except.ok.inj same
      obtain ⟨freshHere, freshLater⟩ := List.forall_mem_cons.mp fresh
      obtain ⟨new, distinctLater⟩ := List.nodup_cons.mp distinct
      simp only [labelHandle, run_bind, run_get, freshHere, run_onSink, run_lift, run_modify,
        run_pure] at naming
      obtain ⟨same, rfl⟩ := Prod.mk.inj naming
      have handledBefore : ∀ other ∈ rest, List.lookup other.identity
          ((label.identity, handle) :: before.labels) = none := by
        intro other member
        have different : other.identity ≠ label.identity :=
          fun same => new (same ▸ List.mem_map_of_mem member)
        rw [List.lookup_cons, beq_eq_false_iff_ne.mpr different]
        exact freshLater other member
      obtain rfl := Except.ok.inj same
      obtain ⟨length, receives, slots, known⟩ :=
        inductionHypothesis distinctLater handledBefore namingLater
      refine ⟨congrArg (· + 1) length, .cons (.defineLabel rfl) receives, slots, ?_⟩
      intro identity
      rw [known identity]
      apply lookup_append_cons
      rw [List.map_fst_zip (Nat.le_of_eq (by rw [List.length_map, length]))]
      exact new

theorem receives_declareLocals {locals : List Local}
    (done : run (declareLocals locals) before = (.ok (), after)) :
    ∃ given : List UInt16,
      given.length = (Body.unbound (before.slots.map Prod.fst) locals).length ∧
      CodeSink.Receives before.sink
        ((Body.unbound (before.slots.map Prod.fst) locals).zipWith
          (fun slot index => .declareLocal slot.declaration index) given) after.sink ∧
      after.labels = before.labels ∧
      ∀ identity, after.slots.lookup identity =
        (((Body.unbound (before.slots.map Prod.fst) locals).map Local.identity).zip given ++
          before.slots).lookup identity := by
  induction locals generalizing before with
  | nil =>
      obtain ⟨_, rfl⟩ := Prod.mk.inj done
      exact ⟨[], rfl, .nil _, rfl, fun _ => rfl⟩
  | cons slot rest inductionHypothesis =>
      rw [Body.unbound]
      cases known : before.slots.lookup slot.identity with
      | some index =>
          rw [run_declareLocals_of_known known] at done
          have isKnown : (before.slots.map Prod.fst).contains slot.identity = true :=
            List.contains_iff_mem.mpr (isSome_lookup_iff.mp (Option.isSome_of_eq_some known))
          rw [if_pos isKnown]
          exact inductionHypothesis done
      | none =>
          have isFresh : (before.slots.map Prod.fst).contains slot.identity = false := by
            rw [← Bool.not_eq_true]
            intro isKnown
            have found := isSome_lookup_iff.mpr (List.contains_iff_mem.mp isKnown)
            rw [known] at found
            cases found
          rw [isFresh, if_neg Bool.false_ne_true]
          obtain ⟨index, sink, declaring, others⟩ := declareLocals_eq_ok_of_fresh known done
          obtain ⟨given, length, receives, labels, slots⟩ := inductionHypothesis others
          refine ⟨index :: given, congrArg (· + 1) length,
            .cons (.declareLocal declaring) receives, labels, ?_⟩
          intro identity
          rw [slots identity]
          -- The encoder puts new slots in front, the other way around than they are given.
          apply lookup_append_cons
          have sameLength := length.symm
          rw [← List.length_map Local.identity] at sameLength
          rw [List.map_fst_zip (Nat.le_of_eq sameLength)]
          exact Body.notMem_unbound List.mem_cons_self

end Encoder

namespace Body

variable {known : List Identity} {body : Body}

theorem not_faulty_iff : ¬body.Faulty known ↔ body.Closed ∧ ∀ slot ∈ body.usedLocals,
    slot.identity ∈ known ++ body.locals.map Local.identity := by
  constructor
  · intro faultless
    refine ⟨⟨?_, ?_, ?_⟩, ?_⟩
    · exact Classical.byContradiction fun twice => faultless (.markedTwice twice)
    · intro instruction member target isTarget
      exact Classical.byContradiction fun unmarked =>
        faultless (.unmarkedTarget member isTarget unmarked)
    · intro instruction member
      cases instruction with
      | raw opcode operand =>
          cases meaning : opcode.info? with
          | none => exact absurd (.reservedOpcode member meaning) faultless
          | some info =>
              cases fits : operand.fits info.operand with
              | false => exact absurd (.wrongShape member meaning fits) faultless
              | true =>
                  refine Encoder.checkRaw_eq_ok_iff.mpr ⟨info, meaning, fits, ?_⟩
                  rintro blob rfl
                  exact faultless (.signature member)
      | _ => trivial
    · intro slot used
      apply Classical.byContradiction
      rw [List.mem_append, not_or]
      rintro ⟨unbound, undeclared⟩
      exact faultless (.unknownLocal used unbound undeclared)
  · rintro ⟨closed, isKnown⟩ faulty
    cases faulty with
    | markedTwice twice => exact twice closed.marks
    | unmarkedTarget member isTarget unmarked =>
        exact unmarked (closed.targets _ member _ isTarget)
    | unknownLocal used unbound undeclared =>
        rcases List.mem_append.mp (isKnown _ used) with bound | declared
        · exact unbound bound
        · exact undeclared declared
    | reservedOpcode member reserved =>
        obtain ⟨info, meaning, _⟩ := Encoder.checkRaw_eq_ok_iff.mp (closed.writable _ member)
        rw [reserved] at meaning
        cases meaning
    | wrongShape member meaning misfit =>
        obtain ⟨info, found, fits, _⟩ := Encoder.checkRaw_eq_ok_iff.mp (closed.writable _ member)
        obtain rfl := Option.some.inj (meaning.symm.trans found)
        rw [misfit] at fits
        cases fits
    | signature member =>
        obtain ⟨_, _, _, noSignature⟩ := Encoder.checkRaw_eq_ok_iff.mp (closed.writable _ member)
        exact noSignature _ rfl

end Body

namespace Encoder

variable {Sink : Type} [CodeSink Sink]

theorem validate_eq_ok_iff_not_faulty {slots : List (Identity × UInt16)} {body : Body} :
    validate slots body = .ok () ↔ ¬body.Faulty (slots.map Prod.fst) :=
  validate_eq_ok_iff.trans Body.not_faulty_iff.symm

omit [CodeSink Sink] in
theorem handles_of_closed {body : Body} (closed : body.Closed) {handles : List Nat}
    (length : handles.length = body.labels.length) {encoder : Encoder Sink}
    (named : ∀ identity, encoder.labels.lookup identity = body.handleGiven handles identity) :
    ∀ item ∈ body.items, ∀ label ∈ item.names, encoder.Handles label := by
  have marked : ∀ identity ∈ body.labels.map Label.identity,
      ∃ handle, encoder.labels.lookup identity = some handle := by
    intro identity member
    rw [named, ← Option.isSome_iff_exists]
    refine isSome_lookup_iff.mpr ?_
    rwa [List.map_fst_zip (Nat.le_of_eq (by rw [List.length_map, length]))]
  intro item member label isNamed
  apply marked
  cases item with
  | mark marking =>
      obtain rfl := List.mem_singleton.mp isNamed
      exact List.mem_map_of_mem (List.mem_filterMap.mpr ⟨_, member, rfl⟩)
  | code instruction =>
      exact closed.targets instruction (List.mem_filterMap.mpr ⟨_, member, rfl⟩) label isNamed

theorem drives_of_encodeBody {before after : Encoder Sink} {body : Body}
    (fresh : before.labels = [])
    (done : run (encodeBody body) before = (.ok (), after)) :
    ∃ exchanges, body.Drives before.slots exchanges ∧
      CodeSink.Receives before.sink exchanges after.sink := by
  rw [run_encodeBody] at done
  obtain ⟨_, _, checked, writing⟩ := run_bind_eq_ok.mp done
  obtain ⟨valid, rfl⟩ := Prod.mk.inj checked
  obtain ⟨_, declared, declaring, writing⟩ := run_bind_eq_ok.mp writing
  obtain ⟨handles, named, naming, encoding⟩ := run_bind_eq_ok.mp writing
  obtain ⟨closed, _⟩ := validate_eq_ok_iff.mp valid
  obtain ⟨given, declares, receivesLocals, stillFresh, slots⟩ := receives_declareLocals declaring
  rw [fresh] at stillFresh
  obtain ⟨defines, receivesLabels, sameSlots, labels⟩ :=
    receives_labelHandles closed.marks (fun _ _ => by rw [stillFresh]; rfl) naming
  have hasHandle : ∀ identity,
      named.labels.lookup identity = body.handleGiven handles identity := by
    intro identity
    rw [labels, stillFresh, List.append_nil]
    rfl
  have hasSlot : ∀ identity,
      named.slots.lookup identity = body.slotGiven before.slots given identity := by
    intro identity
    rw [sameSlots]
    exact slots identity
  obtain ⟨asked, asks, items⟩ :=
    asks_encodeItems (handles_of_closed closed defines hasHandle) encoding
  rw [funext hasSlot, funext hasHandle] at items
  exact ⟨_, .intro declares defines items,
    (receivesLocals.append receivesLabels).append asks.receives⟩

/-- A body that is faulty is not written at all. -/
theorem run_encodeBody_of_faulty {encoder : Encoder Sink} {body : Body}
    (faulty : body.Faulty (encoder.slots.map Prod.fst)) :
    ∃ error, run (encodeBody body) encoder = (.error error, encoder) := by
  cases checked : validate encoder.slots body with
  | ok => exact absurd faulty (validate_eq_ok_iff_not_faulty.mp checked)
  | error error =>
      refine ⟨error, ?_⟩
      rw [run_encodeBody, run_bind, run_ofExcept, checked]

/-- A fresh encoder whose locals may be bound drives a sink that meets every
request exactly as the body says.  It fails exactly where something stands in
the way, and then the sink is not asked for anything. -/
theorem encodeBody_drives_sink {trusted : Sink → Prop} (obliges : CodeSink.Obliges trusted)
    {sink : Sink} (held : trusted sink) (options : EncoderOptions)
    (bound : List (Local × UInt16)) (body : Body) :
    let slots := (bound.map fun entry => (entry.1.identity, entry.2)).reverse
    let outcome := run (do
      bound.forM fun entry => bindLocal entry.1 entry.2
      encodeBody body) (onto sink options)
    ((∃ error, outcome.1 = .error error) ↔ body.Faulty (slots.map Prod.fst)) ∧
    (body.Faulty (slots.map Prod.fst) → outcome.2.sink = sink) ∧
    (¬body.Faulty (slots.map Prod.fst) → outcome.1 = .ok () ∧
      ∃ exchanges, body.Drives slots exchanges ∧
        CodeSink.Receives sink exchanges outcome.2.sink) := by
  intro slots outcome
  let start : Encoder Sink := { onto sink options with slots := slots }
  have writes : outcome = run (encodeBody body) start := by
    change run _ _ = _
    rw [run_bind, run_bindLocals]
    exact congrArg (fun slots => run (encodeBody body) { onto sink options with slots := slots })
      (List.append_nil slots)
  have refused : body.Faulty (slots.map Prod.fst) → ∃ error, outcome = (.error error, start) := by
    intro faulty
    rw [writes]
    exact run_encodeBody_of_faulty faulty
  have written : ¬body.Faulty (slots.map Prod.fst) → outcome.1 = .ok () := by
    intro faultless
    rw [writes, run_encodeBody_of_obliges obliges held body]
    exact validate_eq_ok_iff_not_faulty.mpr faultless
  refine ⟨⟨?_, ?_⟩, ?_, ?_⟩
  · rintro ⟨error, failed⟩
    apply Classical.byContradiction
    intro faultless
    rw [written faultless] at failed
    cases failed
  · intro faulty
    obtain ⟨error, same⟩ := refused faulty
    exact ⟨error, congrArg Prod.fst same⟩
  · intro faulty
    obtain ⟨error, same⟩ := refused faulty
    exact congrArg (fun outcome => outcome.2.sink) same
  · intro faultless
    refine ⟨written faultless, ?_⟩
    have done : run (encodeBody body) start = (.ok (), outcome.2) :=
      writes.symm.trans (Prod.ext (written faultless) rfl)
    exact drives_of_encodeBody rfl done

end Encoder
namespace RequestsSample

def int32 : CilType :=
  ⟨⟨0x01000001⟩, "System", "Int32", "System.Runtime", .value, 0⟩

def count : Local := ⟨.handle "count", some "count", ⟨int32, false⟩⟩

def total : Local := ⟨.handle "total", some "total", ⟨int32, true⟩⟩

def top : Label := ⟨.handle "top", "top"⟩

def bottom : Label := ⟨.handle "bottom", "bottom"⟩

def loop : Body :=
  ⟨[count, total, count],
    [.mark top, .code (.localSlot .load count), .code (.branch .isFalse bottom),
      .code (.localSlot .load total), .code (.localSlot .store count),
      .code (.raw Opcode.leave (.label top)), .mark bottom, .code .ret]⟩

def requests : List SinkRequest :=
  [.declareLocal count.declaration, .defineLabel 0, .defineLabel 1, .markLabel 0,
    .emit Opcode.ldloc0 .none, .emit BranchCondition.isFalse.longOpcode (.label 1),
    .emit Opcode.ldlocS (.immediate (.uint8 7)), .emit Opcode.stloc0 .none,
    .emit Opcode.leave (.label 0), .markLabel 1, .emit Opcode.ret .none]

def outcome (bound : List (Local × UInt16)) (body : Body) :
    Except Error Unit × Encoder Transcript :=
  run (do
    bound.forM fun entry => Encoder.bindLocal entry.1 entry.2
    Encoder.encodeBody body) (Encoder.onto (Transcript.empty none) EncoderOptions.standard)

end RequestsSample

open RequestsSample in
theorem encodeBody_drives_sink_of_loop :
    (outcome [(total, 7)] loop).2.sink.requests.toList = requests ∧
    (∃ exchanges, loop.Drives [(total.identity, 7)] exchanges ∧
      exchanges.map SinkExchange.request = requests) ∧
    ∃ error, (outcome [] ⟨[], loop.items⟩).1 = .error error ∧
      (outcome [] ⟨[], loop.items⟩).2.sink = Transcript.empty none := by
  have held : (Transcript.empty none).localLimit = none := rfl
  have drives := Encoder.encodeBody_drives_sink Transcript.obliges held EncoderOptions.standard
  obtain ⟨fails, _, succeeds⟩ := drives [(total, 7)] loop
  obtain ⟨failsUnbound, untouched, _⟩ := drives [] ⟨[], loop.items⟩
  have recorded : (outcome [(total, 7)] loop).2.sink.requests.toList = requests := by
    decide +kernel
  refine ⟨recorded, ?_, ?_⟩
  · have written : (outcome [(total, 7)] loop).1.toOption = some () := by decide +kernel
    have faultless : ¬loop.Faulty [total.identity] := by
      intro faulty
      obtain ⟨error, failed⟩ := fails.mpr faulty
      change (outcome [(total, 7)] loop).1 = .error error at failed
      rw [failed] at written
      cases written
    obtain ⟨_, exchanges, isDriven, receives⟩ := succeeds faultless
    have received := Transcript.requests_of_receives receives
    have nothingBefore : (Transcript.empty none).requests.toList = [] := rfl
    unfold outcome at recorded
    rw [recorded, nothingBefore, List.nil_append] at received
    exact ⟨exchanges, isDriven, received.symm⟩
  · have used : count ∈ Body.usedLocals ⟨[], loop.items⟩ := by decide
    have faulty : Body.Faulty [] ⟨[], loop.items⟩ :=
      .unknownLocal used List.not_mem_nil List.not_mem_nil
    obtain ⟨error, failed⟩ := failsUnbound.mpr faulty
    exact ⟨error, failed, untouched faulty⟩

end CilTemplate
