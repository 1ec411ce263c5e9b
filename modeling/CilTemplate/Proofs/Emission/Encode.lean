import CilTemplate.Code.Encode
import CilTemplate.Proofs.Code.Correspondence
import CilTemplate.Proofs.Emission.Emit

/-
What a body that was written leaves in the emitter: one piece of code for each
instruction, and each mark in front of the piece of its instruction.
-/

namespace CilTemplate

open CilTemplate.Action

/-- The opcode and the operand that an instruction is written as, with the
handles of its labels for targets. -/
def Instruction.encoding? (slots : List (Identity × UInt16)) :
    Instruction Nat → Option (Opcode × Operand Nat)
  | argument access index => some (access.argumentForms.encode index)
  | localSlot access slot => (slots.lookup slot.identity).map access.localForms.encode
  | field place access found => some (place.opcode access, .field found)
  | branch condition target => some (condition.longOpcode, .label target)
  | call method => some (method.callOpcode, .method method)
  | ret => some (Opcode.ret, .none)
  | raw opcode operand => some (opcode, operand)

namespace Emitter

theorem operandEncoding_mono {before after : UserStrings} {operand : Operand Nat}
    {bytes : List UInt8}
    (strings : LookupExtends before.entries.toList after.entries.toList)
    (encoding : operandEncoding before operand = some bytes) :
    operandEncoding after operand = some bytes := by
  cases operand with
  | string text =>
      obtain ⟨token, found, rfl⟩ := Option.map_eq_some_iff.mp encoding
      exact Option.map_eq_some_iff.mpr ⟨token, strings text token found, rfl⟩
  | _ => exact encoding

theorem Writes.mono {before after : UserStrings} {opcode : Opcode} {info : OpcodeInfo}
    {operand : Operand Nat} {piece : Piece}
    (strings : LookupExtends before.entries.toList after.entries.toList)
    (writes : Writes before opcode info operand piece) :
    Writes after opcode info operand piece := by
  cases writes with
  | plain fits encoding => exact .plain fits (operandEncoding_mono strings encoding)
  | branch kind => exact .branch kind
  | narrowBranch kind => exact .narrowBranch kind
  | switch kind small => exact .switch kind small

end Emitter

def MarksKept (before after : Array (Option Nat)) : Prop :=
  ∀ handle place : Nat, before[handle]? = some (some place) → after[handle]? = some (some place)

namespace MarksKept

variable {first second third : Array (Option Nat)}

theorem refl (marks : Array (Option Nat)) : MarksKept marks marks :=
  fun _ _ found => found

theorem trans (left : MarksKept first second) (right : MarksKept second third) :
    MarksKept first third :=
  fun handle place found => right handle place (left handle place found)

theorem push (marks : Array (Option Nat)) (mark : Option Nat) :
    MarksKept marks (marks.push mark) := by
  intro handle place found
  obtain ⟨bound, _⟩ := Array.getElem?_eq_some_iff.mp found
  rw [Array.getElem?_push, if_neg (Nat.ne_of_lt bound)]
  exact found

theorem set {marks : Array (Option Nat)} {label : Nat} (mark : Option Nat)
    (unmarked : marks[label]? = some none) : MarksKept marks (marks.setIfInBounds label mark) := by
  intro handle place found
  have different : label ≠ handle := by
    rintro rfl
    rw [unmarked] at found
    cases found
  rw [Array.getElem?_setIfInBounds_ne different]
  exact found

end MarksKept

def OnlyMarks (before after : Emitter) : Prop :=
  after = { before with marks := after.marks }

namespace OnlyMarks

variable {first second third before after : Emitter}

theorem refl (emitter : Emitter) : OnlyMarks emitter emitter :=
  rfl

theorem trans (left : OnlyMarks first second) (right : OnlyMarks second third) :
    OnlyMarks first third := by
  have moved := congrArg (fun emitter : Emitter => { emitter with marks := third.marks }) left
  exact Eq.trans right moved

theorem pieces (only : OnlyMarks before after) : after.pieces = before.pieces := by
  rw [show after = _ from only]

theorem depth (only : OnlyMarks before after) : after.depth = before.depth := by
  rw [show after = _ from only]

theorem reachable (only : OnlyMarks before after) : after.reachable = before.reachable := by
  rw [show after = _ from only]

end OnlyMarks

namespace Encoder

/-- What was written stays as it is, and so does what is known. -/
structure Extends (before after : Encoder Emitter) : Prop where
  slots : after.slots = before.slots
  labels : LookupExtends before.labels after.labels
  strings : LookupExtends before.sink.strings.entries.toList after.sink.strings.entries.toList
  marks : MarksKept before.sink.marks after.sink.marks
  locals : after.sink.locals = before.sink.locals

theorem Extends.refl (encoder : Encoder Emitter) : Extends encoder encoder :=
  ⟨rfl, LookupExtends.refl _, LookupExtends.refl _, MarksKept.refl _, rfl⟩

theorem Extends.trans {first second third : Encoder Emitter} (left : Extends first second)
    (right : Extends second third) : Extends first third where
  slots := right.slots.trans left.slots
  labels := left.labels.trans right.labels
  strings := left.strings.trans right.strings
  marks := left.marks.trans right.marks
  locals := right.locals.trans left.locals

def handle? (encoder : Encoder Emitter) (label : Label) : Option Nat :=
  encoder.labels.lookup label.identity

/-- The piece of code that an instruction is written as. -/
inductive Encodes (encoder : Encoder Emitter) (instruction : Instruction Label) : Piece → Prop
  | intro {handled : Instruction Nat} {opcode : Opcode} {info : OpcodeInfo}
      {operand : Operand Nat} {piece : Piece}
      (targets : instruction.mapTargets encoder.handle? = handled.mapTargets some)
      (encoding : handled.encoding? encoder.slots = some (opcode, operand))
      (known : opcode.info? = some info)
      (writes : Emitter.Writes encoder.sink.strings opcode info operand piece) :
      Encodes encoder instruction piece

theorem mapTargets_handle?_mono {before after : Encoder Emitter} (extended : Extends before after)
    {instruction : Instruction Label} {handled : Instruction Nat}
    (targets : instruction.mapTargets before.handle? = handled.mapTargets some) :
    instruction.mapTargets after.handle? = handled.mapTargets some := by
  rw [← targets]
  apply Instruction.mapTargets_congr
  intro label member
  have listed := congrArg Instruction.targets targets
  rw [Instruction.targets_mapTargets, Instruction.targets_mapTargets] at listed
  have found : before.handle? label ∈ handled.targets.map some := by
    rw [← listed]
    exact List.mem_map_of_mem member
  obtain ⟨handle, _, same⟩ := List.mem_map.mp found
  rw [← same]
  exact extended.labels _ _ same.symm

theorem Encodes.mono {before after : Encoder Emitter} {instruction : Instruction Label}
    {piece : Piece} (extended : Extends before after)
    (encodes : Encodes before instruction piece) : Encodes after instruction piece := by
  rcases encodes with ⟨targets, encoding, known, writes⟩
  rw [← extended.slots] at encoding
  exact ⟨mapTargets_handle?_mono extended targets, encoding, known,
    writes.mono extended.strings⟩

section Requests

variable {before after : Encoder Emitter}

theorem run_note {Sink : Type} (text : String) (encoder : Encoder Sink) :
    ∃ log, run (note text) encoder = (.ok (), { encoder with log := log }) := by
  simp only [note, run_modify]
  cases encoder.options.logLevel with
  | none => exact ⟨encoder.log, rfl⟩
  | some level => exact ⟨_, rfl⟩

theorem run_onSink {Sink Result : Type} (action : Action Sink Result) (encoder : Encoder Sink) :
    run (onSink action) encoder =
      ((run action encoder.sink).1, { encoder with sink := (run action encoder.sink).2 }) :=
  rfl

theorem run_labelHandle_of_known {Sink : Type} [CodeSink Sink] {encoder : Encoder Sink}
    {label : Label} {handle : Nat}
    (known : encoder.labels.lookup label.identity = some handle) :
    run (labelHandle label) encoder = (.ok handle, encoder) := by
  simp only [labelHandle, run_bind, run_get, known, run_pure]

section Bodies

variable {Sink : Type} [CodeSink Sink] {encoder final : Encoder Sink} {slot : Local}
  {rest : List Local}

theorem run_encodeBody (body : Body) (encoder : Encoder Sink) :
    run (encodeBody body) encoder =
      run (Action.ofExcept (validate encoder.slots body) >>= fun _ =>
        declareLocals body.locals >>= fun _ => writeItems body.items) encoder :=
  rfl

theorem run_declareLocals_of_known {index : UInt16}
    (known : encoder.slots.lookup slot.identity = some index) :
    run (declareLocals (slot :: rest)) encoder = run (declareLocals rest) encoder := by
  rw [declareLocals, run_bind, run_get]
  simp only [known, Option.isNone_some, Bool.false_eq_true, if_false]

theorem run_declareLocals_of_fresh (fresh : encoder.slots.lookup slot.identity = none) :
    run (declareLocals (slot :: rest)) encoder =
      run (onSink (CodeSink.declareLocal slot.declaration) >>= fun index =>
        bindLocal slot index >>= fun _ => declareLocals rest) encoder := by
  rw [declareLocals, run_bind, run_get]
  simp only [fresh, Option.isNone_none, if_true]

theorem declareLocals_eq_ok_of_fresh (fresh : encoder.slots.lookup slot.identity = none)
    (done : run (declareLocals (slot :: rest)) encoder = (.ok (), final)) :
    ∃ index sink, run (CodeSink.declareLocal slot.declaration) encoder.sink = (.ok index, sink) ∧
      run (declareLocals rest)
        { encoder with sink := sink, slots := (slot.identity, index) :: encoder.slots } =
          (.ok (), final) := by
  rw [run_declareLocals_of_fresh fresh] at done
  obtain ⟨index, middle, declaring, binding⟩ := run_bind_eq_ok.mp done
  obtain ⟨declared, rfl⟩ := Prod.mk.inj declaring
  obtain ⟨_, bound, bindsIt, others⟩ := run_bind_eq_ok.mp binding
  obtain ⟨_, rfl⟩ := Prod.mk.inj bindsIt
  exact ⟨index, _, Prod.ext declared rfl, others⟩

end Bodies

theorem run_labelHandle {label : Label} {handle : Nat}
    (done : run (labelHandle label) before = (.ok handle, after)) :
    after.handle? label = some handle ∧ Extends before after ∧
      OnlyMarks before.sink after.sink := by
  simp only [labelHandle, run_bind, run_get] at done
  cases known : before.labels.lookup label.identity with
  | some found =>
      simp only [known, run_pure, Prod.mk.injEq, Except.ok.injEq] at done
      rcases done with ⟨rfl, rfl⟩
      exact ⟨known, Extends.refl _, rfl⟩
  | none =>
      simp only [known, run_bind, run_onSink, run_lift, run_modify, run_pure, Prod.mk.injEq,
        Except.ok.injEq] at done
      rcases done with ⟨rfl, rfl⟩
      exact ⟨List.lookup_cons_self,
        ⟨rfl, LookupExtends.cons _ known, LookupExtends.refl _, MarksKept.push _ _, rfl⟩, rfl⟩

theorem sink_of_emit {opcode : Opcode} {operand : Operand Nat}
    (done : run (emit opcode operand) before = (.ok (), after)) :
    run (Emitter.emit opcode operand) before.sink = (.ok (), after.sink) ∧
      after.slots = before.slots ∧ after.labels = before.labels := by
  simp only [emit, run_bind, run_get] at done
  obtain ⟨log, noted⟩ := run_note ("    " ++ opcode.mnemonic ++
    if operand.isNone then ""
    else " " ++ operand.textWith (CodeSink.labelText before.sink) "[" "]") before
  simp only [noted, run_onSink, Prod.mk.injEq] at done
  rcases done with ⟨emitted, rfl⟩
  exact ⟨Prod.ext emitted rfl, rfl, rfl⟩

theorem run_emit {opcode : Opcode} {operand : Operand Nat}
    (done : run (emit opcode operand) before = (.ok (), after)) :
    ∃ info piece, opcode.info? = some info ∧
      Emitter.Writes after.sink.strings opcode info operand piece ∧
      after.sink.pieces = before.sink.pieces.push piece ∧ Extends before after := by
  obtain ⟨emitted, slots, labels⟩ := sink_of_emit done
  obtain ⟨info, pops, pushes, known, _, emits, _⟩ := Emitter.run_emit emitted
  rcases emits.written with ⟨piece, writes, pieces⟩
  refine ⟨info, piece, known, writes, pieces, slots, ?_, emits.strings, ?_, emits.locals⟩
  · rw [labels]
    exact LookupExtends.refl _
  · rw [emits.marks]
    exact MarksKept.refl _

theorem run_labelHandles {labels : List Label} {handles : List Nat}
    (done : run (labelHandles labels) before = (.ok handles, after)) :
    labels.map after.handle? = handles.map some ∧ Extends before after ∧
      OnlyMarks before.sink after.sink := by
  induction labels generalizing before handles with
  | nil =>
      simp only [labelHandles, run_pure, Prod.mk.injEq, Except.ok.injEq] at done
      rcases done with ⟨rfl, rfl⟩
      exact ⟨rfl, Extends.refl _, rfl⟩
  | cons label rest inductionHypothesis =>
      obtain ⟨handle, middle, first, others⟩ := run_bind_eq_ok.mp done
      obtain ⟨restHandles, last, later, ended⟩ := run_bind_eq_ok.mp others
      simp only [run_pure, Prod.mk.injEq, Except.ok.injEq] at ended
      rcases ended with ⟨rfl, rfl⟩
      obtain ⟨found, firstExtended, firstMarks⟩ := run_labelHandle first
      rcases inductionHypothesis later with ⟨restFound, restExtended, restMarks⟩
      refine ⟨?_, firstExtended.trans restExtended, firstMarks.trans restMarks⟩
      have kept : last.handle? label = some handle := restExtended.labels _ _ found
      rw [List.map_cons, List.map_cons, kept, restFound]

theorem run_operandWithHandles {operand : Operand Label} {handled : Operand Nat}
    (done : run (operandWithHandles operand) before = (.ok handled, after)) :
    operand.mapTargets after.handle? = handled.mapTargets some ∧ Extends before after ∧
      OnlyMarks before.sink after.sink := by
  unfold operandWithHandles at done
  split at done
  · obtain ⟨handle, middle, found, ended⟩ := run_bind_eq_ok.mp done
    simp only [run_pure, Prod.mk.injEq, Except.ok.injEq] at ended
    rcases ended with ⟨rfl, rfl⟩
    obtain ⟨known, extended, onlyMarks⟩ := run_labelHandle found
    exact ⟨congrArg Operand.label known, extended, onlyMarks⟩
  · obtain ⟨handles, middle, found, ended⟩ := run_bind_eq_ok.mp done
    simp only [run_pure, Prod.mk.injEq, Except.ok.injEq] at ended
    rcases ended with ⟨rfl, rfl⟩
    obtain ⟨known, extended, onlyMarks⟩ := run_labelHandles found
    exact ⟨congrArg Operand.switch known, extended, onlyMarks⟩
  · rename_i noLabel noSwitch
    simp only [run_pure, Prod.mk.injEq, Except.ok.injEq] at done
    rcases done with ⟨rfl, rfl⟩
    refine ⟨?_, Extends.refl _, rfl⟩
    rw [Operand.mapTargets_mapTargets]
    apply Operand.mapTargets_congr
    intro label member
    cases operand with
    | label target => exact absurd rfl (noLabel target)
    | switch targets => exact absurd rfl (noSwitch targets)
    | _ => cases member

/-- An instruction is one request to the sink, before which nothing happens but
that its labels get handles. -/
inductive Emission (instruction : Instruction Label) (before after : Encoder Emitter) : Prop
  | intro {middle : Encoder Emitter} {handled : Instruction Nat} {opcode : Opcode}
      {operand : Operand Nat} (extended : Extends before middle)
      (onlyMarks : OnlyMarks before.sink middle.sink)
      (targets : instruction.mapTargets middle.handle? = handled.mapTargets some)
      (encoding : handled.encoding? middle.slots = some (opcode, operand))
      (emitted : run (emit opcode operand) middle = (.ok (), after)) :
      Emission instruction before after

theorem run_slotIndex {Sink : Type} {before after : Encoder Sink} {slot : Local} {index : UInt16}
    (done : run (slotIndex slot) before = (.ok index, after)) :
    before.slots.lookup slot.identity = some index ∧ after = before := by
  simp only [slotIndex, run_bind, run_get] at done
  cases found : before.slots.lookup slot.identity with
  | none => simp [found] at done
  | some known =>
      simp only [found, run_pure, Prod.mk.injEq, Except.ok.injEq] at done
      exact ⟨by rw [done.1], done.2.symm⟩

theorem emission_of_encodeInstruction {instruction : Instruction Label}
    (done : run (encodeInstruction instruction) before = (.ok (), after)) :
    Emission instruction before after := by
  cases instruction with
  | argument access index =>
      exact @Emission.intro (.argument access index) _ _ _ (.argument access index) _ _
        (Extends.refl _) (OnlyMarks.refl _) rfl rfl done
  | localSlot access slot =>
      obtain ⟨index, middle, found, emitted⟩ := run_bind_eq_ok.mp done
      obtain ⟨known, rfl⟩ := run_slotIndex found
      have encoding : (Instruction.localSlot access slot).encoding? middle.slots =
          some (access.localForms.encode index) := by
        simp only [Instruction.encoding?, known, Option.map_some]
      exact ⟨Extends.refl _, OnlyMarks.refl _, rfl, encoding, emitted⟩
  | field place access found =>
      exact @Emission.intro (.field place access found) _ _ _ (.field place access found) _ _
        (Extends.refl _) (OnlyMarks.refl _) rfl rfl done
  | branch condition target =>
      obtain ⟨handle, middle, found, emitted⟩ := run_bind_eq_ok.mp done
      obtain ⟨known, extended, onlyMarks⟩ := run_labelHandle found
      exact @Emission.intro (.branch condition target) _ _ _ (.branch condition handle) _ _
        extended onlyMarks (congrArg (Instruction.branch condition) known) rfl emitted
  | call method =>
      exact @Emission.intro (.call method) _ _ _ (.call method) _ _ (Extends.refl _)
        (OnlyMarks.refl _) rfl rfl done
  | ret =>
      exact @Emission.intro .ret _ _ _ .ret _ _ (Extends.refl _) (OnlyMarks.refl _) rfl rfl done
  | raw opcode operand =>
      obtain ⟨_, start, checked, rest⟩ := run_bind_eq_ok.mp done
      simp only [run_ofExcept, Prod.mk.injEq] at checked
      rcases checked with ⟨_, rfl⟩
      obtain ⟨handled, middle, renamed, emitted⟩ := run_bind_eq_ok.mp rest
      obtain ⟨targets, extended, onlyMarks⟩ := run_operandWithHandles renamed
      exact @Emission.intro (.raw opcode operand) _ _ _ (.raw opcode handled) _ _ extended
        onlyMarks (congrArg (Instruction.raw opcode) targets) rfl emitted

def WritesOne (instruction : Instruction Label) (before after : Encoder Emitter) : Prop :=
  Extends before after ∧ ∃ piece, after.sink.pieces = before.sink.pieces.push piece ∧
    Encodes after instruction piece

theorem run_encodeInstruction {instruction : Instruction Label}
    (done : run (encodeInstruction instruction) before = (.ok (), after)) :
    WritesOne instruction before after := by
  obtain ⟨extended, onlyMarks, targets, encoding, emitted⟩ := emission_of_encodeInstruction done
  obtain ⟨info, piece, known, writes, added, later⟩ := run_emit emitted
  refine ⟨extended.trans later, piece, by rw [added, onlyMarks.pieces], ?_⟩
  rw [← later.slots] at encoding
  exact ⟨mapTargets_handle?_mono later targets, encoding, known, writes⟩

theorem run_encodeMark {label : Label}
    (done : run (encodeItem (.mark label)) before = (.ok (), after)) :
    Extends before after ∧ after.sink.pieces = before.sink.pieces ∧
      ∃ handle, after.handle? label = some handle ∧
        after.sink.marks[handle]? = some (some before.sink.pieces.size) := by
  obtain ⟨handle, middle, found, rest⟩ := run_bind_eq_ok.mp done
  obtain ⟨known, extended, onlyMarks⟩ := run_labelHandle found
  have pieces := onlyMarks.pieces
  obtain ⟨log, noted⟩ := run_note (label.name ++ ":") middle
  simp only [run_bind, noted, run_onSink, Prod.mk.injEq] at rest
  rcases rest with ⟨marked, rfl⟩
  have marks := Emitter.run_markLabel (Prod.ext marked rfl)
  have strings : LookupExtends middle.sink.strings.entries.toList
      (run (Emitter.markLabel handle) middle.sink).2.strings.entries.toList := by
    rw [marks.strings]
    exact LookupExtends.refl _
  have kept : MarksKept middle.sink.marks (run (Emitter.markLabel handle) middle.sink).2.marks := by
    rw [marks.marks]
    exact MarksKept.set _ marks.unmarked
  refine ⟨extended.trans ⟨rfl, LookupExtends.refl _, strings, kept, marks.locals⟩,
    marks.pieces.trans pieces, handle, known, ?_⟩
  obtain ⟨bound, _⟩ := Array.getElem?_eq_some_iff.mp marks.unmarked
  change (run (Emitter.markLabel handle) middle.sink).2.marks[handle]? = _
  rw [marks.marks, Array.getElem?_setIfInBounds_self_of_lt bound, pieces]

structure Written (encoder : Encoder Emitter) (instructions : List (Instruction Label))
    (pieces : List Piece) : Prop where
  length : pieces.length = instructions.length
  each : ∀ {index : Nat} {instruction : Instruction Label} {piece : Piece},
    instructions[index]? = some instruction → pieces[index]? = some piece →
      Encodes encoder instruction piece

theorem Written.cons {encoder : Encoder Emitter} {instruction : Instruction Label}
    {instructions : List (Instruction Label)} {piece : Piece} {pieces : List Piece}
    (first : Encodes encoder instruction piece) (rest : Written encoder instructions pieces) :
    Written encoder (instruction :: instructions) (piece :: pieces) where
  length := congrArg (· + 1) rest.length
  each {index} _ _ here there := by
    cases index with
    | zero =>
        rw [← Option.some.inj here, ← Option.some.inj there]
        exact first
    | succ index => exact rest.each here there

theorem run_encodeItems {items : List CodeItem}
    (done : run (encodeItems items) before = (.ok (), after)) :
    Extends before after ∧
    (∃ pieces, after.sink.pieces.toList = before.sink.pieces.toList ++ pieces ∧
      Written after (items.filterMap CodeItem.instruction?) pieces) ∧
    ∀ identity place, Body.placeIn items identity = some place →
      ∃ handle, after.labels.lookup identity = some handle ∧
        after.sink.marks[handle]? = some (some (before.sink.pieces.size + place)) := by
  induction items generalizing before with
  | nil =>
      simp only [encodeItems, run_pure, Prod.mk.injEq, true_and] at done
      subst done
      exact ⟨Extends.refl _, ⟨[], by simp, rfl, fun here _ => by cases here⟩,
        fun _ _ found => by cases found⟩
  | cons item rest inductionHypothesis =>
      obtain ⟨_, middle, first, others⟩ := run_bind_eq_ok.mp done
      rcases inductionHypothesis others with ⟨extended, ⟨pieces, written, each⟩, places⟩
      cases item with
      | mark label =>
          obtain ⟨firstExtended, samePieces, handle, known, marked⟩ := run_encodeMark first
          rw [samePieces] at written places
          refine ⟨firstExtended.trans extended, ⟨pieces, written, each⟩, ?_⟩
          intro identity place found
          unfold Body.placeIn at found
          split at found
          · rename_i same
            rw [← Option.some.inj found, ← same]
            exact ⟨handle, extended.labels _ _ known, extended.marks _ _ marked⟩
          · exact places identity place found
      | code instruction =>
          obtain ⟨firstExtended, piece, added, encodes⟩ := run_encodeInstruction first
          refine ⟨firstExtended.trans extended, ⟨piece :: pieces, ?_, ?_⟩, ?_⟩
          · rw [written, added, Array.toList_push, List.append_assoc]
            rfl
          · exact each.cons (encodes.mono extended)
          · intro identity place found
            obtain ⟨earlier, foundLater, rfl⟩ := Option.map_eq_some_iff.mp found
            rcases places identity earlier foundLater with ⟨handle, known, marked⟩
            rw [added, Array.size_push] at marked
            exact ⟨handle, known, by rw [marked]; congr 2; omega⟩

/-- The slots of locals are their places among the declared ones. -/
structure Slots (encoder : Encoder Emitter) (declared : List Local) : Prop where
  locals : encoder.sink.locals.toList = declared.map Local.declaration
  slots : ∀ identity, (encoder.slots.lookup identity).map UInt16.toNat =
    declared.findIdx? fun slot => slot.identity == identity

theorem run_declareLocal {declaration : LocalDeclaration} {slot : UInt16}
    {start final : Emitter}
    (done : run (Emitter.declareLocal declaration) start = (.ok slot, final)) :
    slot.toNat = start.locals.size ∧
      final = { start with locals := start.locals.push declaration } := by
  simp only [Emitter.declareLocal, run_bind, run_get, run_ite, run_throw, run_modify,
    run_pure] at done
  split at done
  · cases done
  · rename_i room
    simp only [Prod.mk.injEq, Except.ok.injEq] at done
    rcases done with ⟨rfl, rfl⟩
    refine ⟨?_, rfl⟩
    rw [Nat.toUInt16_eq, UInt16.toNat_ofNat']
    omega

theorem Slots.declare {declared : List Local} {slot : Local} {index : UInt16}
    {encoder next : Encoder Emitter} (slots : Slots encoder declared)
    (fresh : encoder.slots.lookup slot.identity = none)
    (number : index.toNat = encoder.sink.locals.size)
    (locals : next.sink.locals = encoder.sink.locals.push slot.declaration)
    (bound : next.slots = (slot.identity, index) :: encoder.slots) :
    Slots next (declared ++ [slot]) := by
  have size : encoder.sink.locals.size = declared.length := by
    have lengths := congrArg List.length slots.locals
    rw [List.length_map] at lengths
    exact lengths
  refine ⟨?_, ?_⟩
  · rw [locals, Array.toList_push, slots.locals, List.map_append]
    rfl
  · intro identity
    rw [bound, List.findIdx?_append, ← slots.slots identity]
    by_cases same : slot.identity = identity
    · rw [← same, List.lookup_cons_self, fresh]
      simp [number, size]
    · have different : (identity == slot.identity) = false :=
        beq_eq_false_iff_ne.mpr (Ne.symm same)
      rw [List.lookup_cons, different]
      simp [same]

theorem run_declareLocals {locals declared : List Local} (slots : Slots before declared)
    (done : run (declareLocals locals) before = (.ok (), after)) :
    Slots after (Body.declareAll declared locals) ∧ after.sink.pieces = before.sink.pieces ∧
      after.sink.strings = before.sink.strings := by
  induction locals generalizing before declared with
  | nil =>
      simp only [declareLocals, run_pure, Prod.mk.injEq, true_and] at done
      subst done
      exact ⟨slots, rfl, rfl⟩
  | cons slot rest inductionHypothesis =>
      cases known : before.slots.lookup slot.identity with
      | some index =>
          rw [run_declareLocals_of_known known] at done
          have listed : declared.any (fun other => other.identity == slot.identity) = true := by
            rw [← List.findIdx?_isSome, ← slots.slots, known]
            rfl
          rw [Body.declareAll, if_pos listed]
          exact inductionHypothesis slots done
      | none =>
          have absent : declared.any (fun other => other.identity == slot.identity) = false := by
            rw [← List.findIdx?_isSome, ← slots.slots, known]
            rfl
          rw [Body.declareAll, if_neg (by rw [absent]; exact Bool.false_ne_true)]
          obtain ⟨index, sink, declaring, others⟩ := declareLocals_eq_ok_of_fresh known done
          obtain ⟨number, final⟩ := run_declareLocal declaring
          obtain ⟨later, pieces, strings⟩ := inductionHypothesis
            (slots.declare known number (congrArg Emitter.locals final) rfl) others
          have samePieces := congrArg Emitter.pieces final
          have sameStrings := congrArg Emitter.strings final
          exact ⟨later, pieces.trans samePieces, strings.trans sameStrings⟩

theorem slots_onto {emitter : Emitter} (noLocals : emitter.locals = #[])
    (options : EncoderOptions) : Slots (onto emitter options) [] :=
  ⟨congrArg Array.toList noLocals, fun _ => rfl⟩

/-- A body that was written, as the emitter holds it. -/
structure Holds (encoder : Encoder Emitter) (body : Body) : Prop where
  written : Written encoder body.instructions encoder.sink.pieces.toList
  places : ∀ label place, body.place? label = some place →
    ∃ handle, encoder.handle? label = some handle ∧
      encoder.sink.marks[handle]? = some (some place)
  slots : Slots encoder body.declared

theorem holds_of_encodeBody_onto {emitter : Emitter} {body : Body} {options : EncoderOptions}
    {final : Encoder Emitter} (noPieces : emitter.pieces = #[]) (noLocals : emitter.locals = #[])
    (done : run (encodeBody body) (onto emitter options) = (.ok (), final)) :
    Holds final body ∧ validate [] body = .ok () ∧
      LookupExtends emitter.strings.entries.toList final.sink.strings.entries.toList := by
  rw [run_encodeBody] at done
  obtain ⟨_, start, checked, rest⟩ := run_bind_eq_ok.mp done
  simp only [run_ofExcept, Prod.mk.injEq] at checked
  rcases checked with ⟨valid, rfl⟩
  obtain ⟨_, middle, declaring, writing⟩ := run_bind_eq_ok.mp rest
  obtain ⟨slots, samePieces, sameStrings⟩ :=
    run_declareLocals (slots_onto noLocals options) declaring
  obtain ⟨handles, last, naming, encoding⟩ := run_bind_eq_ok.mp writing
  obtain ⟨_, named, onlyMarks⟩ := run_labelHandles naming
  obtain ⟨extended, ⟨pieces, written, each⟩, places⟩ := run_encodeItems encoding
  have empty : last.sink.pieces = #[] := (onlyMarks.pieces.trans samePieces).trans noPieces
  rw [empty] at written places
  have whole := named.trans extended
  refine ⟨⟨?_, ?_, ?_⟩, valid, ?_⟩
  · rw [written]
    exact each
  · intro label place found
    rcases places label.identity place found with ⟨handle, known, marked⟩
    exact ⟨handle, known, by rw [marked]; simp⟩
  · exact ⟨by rw [whole.locals, slots.locals]; rfl, fun identity => by
      rw [whole.slots]
      exact slots.slots identity⟩
  · have kept := whole.strings
    rw [sameStrings] at kept
    exact kept

theorem holds_of_encodeBody {body : Body} {options : EncoderOptions} {final : Encoder Emitter}
    (done : run (encodeBody body) (onto Emitter.empty options) = (.ok (), final)) :
    Holds final body ∧ validate [] body = .ok () := by
  obtain ⟨holds, valid, _⟩ := holds_of_encodeBody_onto rfl rfl done
  exact ⟨holds, valid⟩

end Requests

end Encoder
end CilTemplate
