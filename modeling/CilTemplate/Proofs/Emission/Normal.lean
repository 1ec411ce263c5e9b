import CilTemplate.Proofs.Decoding.Decoded
import CilTemplate.Proofs.Emission.Relocation
import CilTemplate.Proofs.Emission.RoundTrip

/-
Code in its normal form: decoded, encoded and laid out again.  Doing so once
more changes nothing.  The second time the same instructions are written, apart
from a `leave` that is short from the start, so the layout lies between the
first one and its fixed point.
-/

namespace CilTemplate

open CilTemplate.Action

open Piece (startOf)

theorem Operand.mapTargets_id {Target : Type} (operand : Operand Target) :
    operand.mapTargets (fun target => target) = operand := by
  cases operand with
  | switch targets => exact congrArg Operand.switch (List.map_id' targets)
  | _ => rfl

theorem Instruction.mapTargets_id {Target : Type} (instruction : Instruction Target) :
    instruction.mapTargets (fun target => target) = instruction := by
  cases instruction with
  | raw opcode operand => exact congrArg (Instruction.raw opcode) operand.mapTargets_id
  | _ => rfl

theorem Instruction.mapTargets_some_inj {left right : Instruction Nat}
    (same : left.mapTargets some = right.mapTargets some) : left = right := by
  have back := congrArg (fun instruction => instruction.mapTargets fun target => target.getD 0) same
  simp only [Instruction.mapTargets_mapTargets, Option.getD_some] at back
  rw [Instruction.mapTargets_id, Instruction.mapTargets_id] at back
  exact back

theorem Emitter.Writes.unique {strings : UserStrings} {opcode : Opcode} {info : OpcodeInfo}
    {operand : Operand Nat} {left right : Piece} (first : Writes strings opcode info operand left)
    (second : Writes strings opcode info operand right) : left = right := by
  cases first with
  | plain fits encoding =>
      cases second with
      | plain _ other => rw [Option.some.inj (encoding.symm.trans other)]
      | _ => cases encoding
  | branch kind =>
      cases second with
      | plain _ encoding => cases encoding
      | branch => rfl
      | narrowBranch other => rw [kind] at other; cases other
  | narrowBranch kind =>
      cases second with
      | plain _ encoding => cases encoding
      | branch other => rw [kind] at other; cases other
      | narrowBranch => rfl
  | switch kind =>
      cases second with
      | plain _ encoding => cases encoding
      | switch => rfl

namespace Encoder

variable {encoder left right : Encoder Emitter} {instruction : Instruction Label}
  {piece other : Piece}

theorem Encodes.unique (first : Encodes encoder instruction piece)
    (second : Encodes encoder instruction other) : piece = other := by
  rcases first with ⟨targets, encoding, known, writes⟩
  rcases second with ⟨otherTargets, otherEncoding, otherKnown, otherWrites⟩
  have same := Instruction.mapTargets_some_inj (targets.symm.trans otherTargets)
  subst same
  obtain ⟨rfl, rfl⟩ := Prod.mk.inj (Option.some.inj (encoding.symm.trans otherEncoding))
  rw [Option.some.inj (known.symm.trans otherKnown)] at writes
  exact writes.unique otherWrites

theorem Encodes.of_mirrors (mirrors : Mirrors left right)
    (encodes : Encodes right instruction piece) : Encodes left instruction piece := by
  rcases encodes with ⟨targets, encoding, known, writes⟩
  have handles : right.handle? = left.handle? := by
    funext label
    rw [handle?, handle?, mirrors.labels]
  have strings : right.sink.strings = left.sink.strings := by
    rw [mirrors.sink.same]
    rfl
  rw [handles] at targets
  rw [mirrors.slots] at encoding
  rw [strings] at writes
  exact ⟨targets, encoding, known, writes⟩

theorem Encodes.of_label {opcode : Opcode} {info : OpcodeInfo} {target : Label}
    (known : opcode.info? = some info)
    (encodes : Encodes encoder (.raw opcode (.label target)) piece) :
    ∃ handle, encoder.handle? target = some handle ∧
      (info.operand = .branch ∧ piece = .branch opcode handle ∨
        info.operand = .shortBranch ∧ piece = .narrowBranch opcode handle) := by
  rcases encodes with @⟨handled, _, other, operand, _, targets, encoding, otherKnown, writes⟩
  obtain ⟨rest, rfl⟩ := eq_raw_of_mapTargets targets.symm
  obtain ⟨rfl, rfl⟩ := Prod.mk.inj (Option.some.inj encoding)
  rw [Option.some.inj (known.symm.trans otherKnown)]
  have named := (Instruction.raw.inj targets).2
  cases rest with
  | label handle =>
      refine ⟨handle, Operand.label.inj named, ?_⟩
      cases writes with
      | plain _ encoding => cases encoding
      | branch kind => exact Or.inl ⟨kind, rfl⟩
      | narrowBranch kind => exact Or.inr ⟨kind, rfl⟩
  | _ => cases named

/-- A piece, the piece that is written for it when its `leave` is short from the
start, and the piece that it is narrowed to. -/
theorem narrows_between {before after : Instruction Label} {narrow final : Piece}
    (narrows : Instruction.Narrows before after) (encodes : Encodes encoder before piece)
    (narrowEncodes : Encodes encoder after narrow) (below : Piece.Narrows piece final)
    (short : ∀ label target, after = .raw Opcode.leaveS (.label target) →
      final ≠ Piece.branch Opcode.leave label) :
    Piece.Narrows piece narrow ∧ Piece.Narrows narrow final := by
  cases narrows with
  | same =>
      rw [← encodes.unique narrowEncodes]
      exact ⟨.same _, below⟩
  | leave target =>
      obtain ⟨_, _, longKnown, shortKnown⟩ := Emitter.info?_leave
      have narrowed : Opcode.leave.narrowed? = some Opcode.leaveS := by decide
      obtain ⟨handle, found, ⟨_, rfl⟩ | ⟨kind, _⟩⟩ := encodes.of_label longKnown
      · obtain ⟨other, again, ⟨kind, _⟩ | ⟨_, rfl⟩⟩ := narrowEncodes.of_label shortKnown
        · cases kind
        · rw [Option.some.inj (again.symm.trans found)]
          refine ⟨.branch narrowed, ?_⟩
          cases below with
          | same => exact absurd rfl (short handle target rfl)
          | branch other =>
              rw [Option.some.inj (other.symm.trans narrowed)]
              exact .same _
      · cases kind

theorem narrowsTo_between {before after : Body} {layout : Layout} (mirrors : Mirrors left right)
    (holds : Holds left before) (narrowHolds : Holds right after)
    (narrows : List.Forall₂ Instruction.Narrows before.instructions after.instructions)
    (below : Layout.NarrowsTo left.sink.layout layout)
    (short : ∀ (index label : Nat) (target : Label),
      after.instructions[index]? = some (Instruction.raw Opcode.leaveS (.label target)) →
        layout.pieces[index]? ≠ some (Piece.branch Opcode.leave label)) :
    Layout.NarrowsTo left.sink.layout right.sink.layout ∧
      Layout.NarrowsTo right.sink.layout layout := by
  have marks : right.sink.marks = left.sink.marks := by
    rw [mirrors.sink.same]
    rfl
  have count : right.sink.layout.pieces.length = left.sink.layout.pieces.length :=
    mirrors.sink.count
  have each : ∀ {index : Nat} {piece narrow final : Piece},
      left.sink.layout.pieces[index]? = some piece →
      right.sink.layout.pieces[index]? = some narrow → layout.pieces[index]? = some final →
        Piece.Narrows piece narrow ∧ Piece.Narrows narrow final := by
    intro index piece narrow final here there last
    obtain ⟨bound, _⟩ := List.getElem?_eq_some_iff.mp here
    have written := List.getElem?_eq_getElem (holds.written.length ▸ bound)
    have narrowWritten := List.getElem?_eq_getElem
      (narrows.length_eq ▸ holds.written.length ▸ bound)
    refine narrows_between (narrows.get _ _) (holds.written.each written here)
      (Encodes.of_mirrors mirrors (narrowHolds.written.each narrowWritten there))
      (below.each here last) ?_
    intro label target isLeave isBranch
    rw [List.get_eq_getElem] at isLeave
    rw [isLeave] at narrowWritten
    rw [isBranch] at last
    exact short index label target narrowWritten last
  refine ⟨⟨marks, count, ?_⟩, ⟨below.marks.trans marks.symm, below.length.trans count.symm, ?_⟩⟩
  · intro index piece narrow here there
    obtain ⟨bound, _⟩ := List.getElem?_eq_some_iff.mp here
    have last := List.getElem?_eq_getElem (below.length.symm ▸ bound)
    exact (each here there last).1
  · intro index narrow final there last
    obtain ⟨bound, _⟩ := List.getElem?_eq_some_iff.mp there
    have here := List.getElem?_eq_getElem (count ▸ bound)
    exact (each here there last).2

end Encoder

section Reading

variable {body : Body} {encoder : Encoder Emitter} {layout : Layout} {code : List UInt8}
  {parts : List (List UInt8)} {resolver : Resolver} {context : GenericContext}

theorem decode_of_written (holds : Encoder.Holds encoder body)
    (narrows : Layout.NarrowsTo encoder.sink.layout layout)
    (split : Layout.Parts layout code parts)
    (untyped : ∀ opcode operand, .raw opcode operand ∈ body.instructions → opcode ∉ Opcode.typed)
    (answers : ∀ instruction ∈ body.instructions,
      resolver.AnswersFor context encoder.sink.strings.entries.toList instruction.named) :
    let locals := BodyReader.localsOf encoder.sink.locals.toList
    ∃ entries,
      (run (BodyReader.readInstructions ⟨resolver, context, locals⟩ code.length)
        (Cursor.ofList code)).1 = .ok entries ∧
      Body.decode code encoder.sink.locals.toList resolver context =
        .ok ⟨locals, AddressedCode.items ⟨entries, code.length⟩⟩ ∧
      entries.length = body.instructions.length ∧
      ∀ (index : Nat) (entry : Nat × Instruction Nat), entries[index]? = some entry →
        entry.1 = startOf layout.pieces index ∧
        ∃ written, body.instructions[index]? = some written ∧
          ReadAs encoder layout (readLocal encoder.slots locals) written entry.2 := by
  intro locals
  have readLocals : ∀ slot index, encoder.slots.lookup slot.identity = some index →
      locals[index.toNat]? = some (readLocal encoder.slots locals slot) := by
    intro slot index known
    obtain ⟨_, _, _, _, there⟩ := getElem?_readLocal holds.slots known
    exact there
  obtain ⟨entries, reading, length, each⟩ := @run_readInstructions_of_written body encoder layout
    code parts ⟨resolver, context, locals⟩ _ holds narrows split untyped answers readLocals
  have count : entries.length = layout.pieces.length :=
    length.trans (narrows.length.trans holds.written.length).symm
  have addresses := addresses_of_entries count split.length_code.symm
    fun index entry found => (each index entry found).1
  have inside := @find?_inside encoder layout code _ entries addresses fun entry member => by
    obtain ⟨index, found⟩ := List.getElem?_of_mem member
    obtain ⟨_, written, _, readAs⟩ := each index entry found
    exact ⟨written, readAs⟩
  have readAll := congrArg Prod.fst reading
  refine ⟨entries, readAll, bind_eq_ok.mpr ⟨entries, readAll, ?_⟩, length, each⟩
  simp only [inside]
  rfl

variable {declarations : List LocalDeclaration} {read entries : List (Nat × Instruction Nat)}
  {length : Nat}

theorem readLocal_localsOf {items : List CodeItem}
    (slots : Encoder.Slots encoder (Body.declared ⟨BodyReader.localsOf declarations, items⟩))
    {slot : Local} {place : Nat}
    (found : (BodyReader.localsOf declarations)[place]? = some slot) :
    readLocal encoder.slots (BodyReader.localsOf declarations) slot = slot := by
  have declared : Body.declared ⟨BodyReader.localsOf declarations, items⟩ =
      BodyReader.localsOf declarations := Body.declareAll_localsOf _
  obtain ⟨bound, _⟩ := List.getElem?_eq_some_iff.mp found
  have isDeclared : place < declarations.length := by
    simpa [BodyReader.localsOf] using bound
  have declaration := List.getElem?_eq_getElem isDeclared
  obtain rfl := Option.some.inj (found.symm.trans (Body.getElem?_localsOf declaration))
  have known := slots.slots (.index place)
  rw [declared, List.findIdx?_eq_some_iff_findIdx_eq.mpr
    ⟨bound, Body.findIdx_localsOf declaration⟩] at known
  obtain ⟨index, lookup, number⟩ := Option.map_eq_some_iff.mp known
  rw [readLocal, lookup, Option.bind_some, number, found]
  rfl

theorem mapTargets_addressOf {instruction handled : Instruction Nat} {label : Nat → Label}
    {move : Nat → Nat}
    (targets : (instruction.mapTargets label).mapTargets encoder.handle? = handled.mapTargets some)
    (places : ∀ target ∈ instruction.targets, ∃ handle,
      encoder.handle? (label target) = some handle ∧ layout.addressOf handle = move target) :
    handled.mapTargets layout.addressOf = instruction.mapTargets move := by
  apply Instruction.mapTargets_some_inj
  have moved := congrArg (fun found => found.mapTargets (Option.map layout.addressOf)) targets
  simp only [Instruction.mapTargets_mapTargets, Option.map_some] at moved ⊢
  rw [← moved]
  apply Instruction.mapTargets_congr
  intro target member
  obtain ⟨handle, found, same⟩ := places target member
  rw [found, Option.map_some, same]

theorem slot_of_lift {reader : BodyReader} {opcode : Opcode} {operand : Operand Nat}
    {access : Access} {slot : Local}
    (lifted : reader.lift opcode operand = .ok (.localSlot access slot)) :
    ∃ number : Nat, reader.locals[number]? = some slot := by
  unfold BodyReader.lift at lifted
  split at lifted
  · cases lifted
  · rename_i other index _ _
    unfold BodyReader.local? at lifted
    split at lifted
    · rename_i found known
      cases lifted
      exact ⟨_, known⟩
    · cases lifted
  · split at lifted <;> (try split at lifted) <;> cases lifted

theorem mapLocal_readLocal {items : List CodeItem} {opcode : Opcode} {operand : Operand Nat}
    {instruction handled : Instruction Nat} {label : Nat → Label}
    (slots : Encoder.Slots encoder (Body.declared ⟨BodyReader.localsOf declarations, items⟩))
    (targets : (instruction.mapTargets label).mapTargets encoder.handle? = handled.mapTargets some)
    (lifted : BodyReader.lift ⟨resolver, context, BodyReader.localsOf declarations⟩ opcode operand =
      .ok instruction) :
    handled.mapLocal (readLocal encoder.slots (BodyReader.localsOf declarations)) = handled := by
  cases handled with
  | localSlot access slot =>
      cases instruction with
      | localSlot other found =>
          obtain ⟨rfl, rfl⟩ := Instruction.localSlot.inj targets
          obtain ⟨place, known⟩ := slot_of_lift lifted
          exact congrArg (Instruction.localSlot _) (readLocal_localsOf slots known)
      | _ => cases targets
  | _ => rfl

section Moving

open AddressedCode (labelOf)

variable {source : List UInt8} {found : List BodyReader.Entry}

def startsOf (read : List (Nat × Instruction Nat)) (length : Nat) : List Nat :=
  read.map Prod.fst ++ [length]

/-- From an address in the code that was read to the one in the laid out code. -/
def moveTo (layout : Layout) (starts : List Nat) (address : Nat) : Nat :=
  startOf layout.pieces (starts.idxOf address)

theorem addresses_of_readFrom {reader : BodyReader}
    (each : List.Forall₂ (BodyReader.ReadFrom reader) found read) :
    read.map Prod.fst = found.map BodyReader.Entry.address := by
  induction each with
  | nil => rfl
  | cons first _ inductionHypothesis =>
      rw [List.map_cons, List.map_cons, inductionHypothesis, first.1]

theorem ascending_startsOf {reader : BodyReader} (accepts : reader.Accepts source found)
    (each : List.Forall₂ (BodyReader.ReadFrom reader) found read) :
    (startsOf read source.length).Pairwise (· < ·) := by
  have ascending := BodyReader.ascending_of_splits accepts.splits
  rw [Nat.zero_add, ← addresses_of_readFrom each] at ascending
  exact ascending

theorem moveTo_getElem {starts : List Nat} (ascending : starts.Pairwise (· < ·))
    {index address : Nat}
    (there : starts[index]? = some address) : moveTo layout starts address =
      startOf layout.pieces index := by
  obtain ⟨bound, rfl⟩ := List.getElem?_eq_some_iff.mp there
  have nodup : starts.Nodup := ascending.imp Nat.ne_of_lt
  rw [moveTo, nodup.idxOf_getElem]

theorem target_mem_startsOf {reader : BodyReader} (accepts : reader.Accepts source found)
    (each : List.Forall₂ (BodyReader.ReadFrom reader) found read) :
    ∀ entry ∈ read, ∀ target ∈ entry.2.targets, target ∈ startsOf read source.length := by
  intro entry member target isTarget
  obtain ⟨index, bound, rfl⟩ := List.getElem_of_mem member
  have readFrom := each.get (each.length_eq ▸ bound) bound
  rw [List.get_eq_getElem, List.get_eq_getElem] at readFrom
  rw [BodyReader.targets_of_lift readFrom.2] at isTarget
  rw [startsOf, addresses_of_readFrom each]
  rcases accepts.landing _ (List.getElem_mem _) target isTarget with rfl | ⟨other, isEntry, rfl⟩
  · exact List.mem_append_right _ (List.mem_singleton_self _)
  · exact List.mem_append_left _ (List.mem_map_of_mem isEntry)

theorem moved_of_readAs
    (accepts : BodyReader.Accepts ⟨resolver, context, BodyReader.localsOf declarations⟩ source
      found)
    (each : List.Forall₂
      (BodyReader.ReadFrom ⟨resolver, context, BodyReader.localsOf declarations⟩) found read)
    (holds : Encoder.Holds encoder
      ⟨BodyReader.localsOf declarations, AddressedCode.items ⟨read, source.length⟩⟩)
    (narrows : Layout.NarrowsTo encoder.sink.layout layout) (length : entries.length = read.length)
    (later : ∀ (index : Nat) (entry : Nat × Instruction Nat), entries[index]? = some entry →
      entry.1 = startOf layout.pieces index ∧ ∃ written,
        (Body.instructions ⟨BodyReader.localsOf declarations,
          AddressedCode.items ⟨read, source.length⟩⟩)[index]? = some written ∧
        ReadAs encoder layout (readLocal encoder.slots (BodyReader.localsOf declarations)) written
          entry.2) :
    List.Forall₂ (AddressedCode.Moved (moveTo layout (startsOf read source.length))) read
      entries := by
  have ascending := ascending_startsOf accepts each
  rw [List.forall₂_iff_get]
  refine ⟨length.symm, ?_⟩
  intro index bound otherBound
  rw [List.get_eq_getElem, List.get_eq_getElem]
  have here := List.getElem?_eq_getElem bound
  obtain ⟨address, written, isWritten, readAs⟩ :=
    later index _ (List.getElem?_eq_getElem otherBound)
  have start : (startsOf read source.length)[index]? = some read[index].1 := by
    rw [startsOf, List.getElem?_append_left (by rw [List.length_map]; exact bound),
      List.getElem?_map, here]
    rfl
  refine ⟨address.trans (moveTo_getElem ascending start).symm, ?_⟩
  rw [Body.instructions, AddressedCode.instructions_items, List.getElem?_map, here] at isWritten
  have same := Option.some.inj isWritten
  rcases readAs with @⟨handled, handles, narrowed, _, _⟩
  rw [← same] at handles
  have noMove := mapLocal_readLocal holds.slots handles
    (each.get (each.length_eq ▸ bound) bound).2
  have places : handled.mapTargets layout.addressOf =
      read[index].2.mapTargets (moveTo layout (startsOf read source.length)) := by
    apply mapTargets_addressOf handles
    intro target isTarget
    have member := target_mem_startsOf accepts each _ (List.getElem_mem bound) target isTarget
    obtain ⟨place, there⟩ := List.getElem?_of_mem member
    have named : target ∈ (AddressedCode.mk read source.length).targets :=
      AddressedCode.mem_targets.mpr ⟨_, List.getElem_mem bound, isTarget⟩
    obtain ⟨handle, known, marked⟩ := holds.places _ place
      (AddressedCode.placeIn_items named ascending there)
    refine ⟨handle, known, ?_⟩
    have sameMark : layout.marks[handle]? = some (some place) := by
      rw [narrows.marks]
      exact marked
    rw [moveTo_getElem ascending there, Layout.addressOf, sameMark]
    rfl
  rw [noMove, places] at narrowed
  exact narrowed

theorem separate_moveTo {starts : List Nat} (holds : Encoder.Holds encoder body)
    (narrows : Layout.NarrowsTo encoder.sink.layout layout)
    (count : starts.length = layout.pieces.length + 1) :
    ∀ left ∈ starts, ∀ right ∈ starts,
      moveTo layout starts left = moveTo layout starts right → left = right := by
  intro left leftMember right rightMember same
  have leftBound := List.idxOf_lt_length_of_mem leftMember
  have rightBound := List.idxOf_lt_length_of_mem rightMember
  have order : starts.idxOf left = starts.idxOf right := by
    rcases Nat.lt_trichotomy (starts.idxOf left) (starts.idxOf right) with less | equal | more
    · have strict := startOf_lt_startOf holds narrows less (by omega)
      exact absurd same (Nat.ne_of_lt strict)
    · exact equal
    · have strict := startOf_lt_startOf holds narrows more (by omega)
      exact absurd same (Nat.ne_of_gt strict)
  exact (List.idxOf_inj leftMember).mp order

theorem short_of_read {reader : BodyReader} (split : Layout.Parts layout code parts)
    (reading : (run (reader.readInstructions code.length) (Cursor.ofList code)).1 = .ok entries)
    {index : Nat} {operand : Operand Nat}
    (found : entries[index]? = some (startOf layout.pieces index, .raw Opcode.leaveS operand))
    (label : Nat) : layout.pieces[index]? ≠ some (Piece.branch Opcode.leave label) := by
  intro isLong
  obtain ⟨there, splits, each⟩ := BodyReader.readInstructions_eq_ok (Nat.zero_le _) (by omega)
    (Prod.ext reading rfl)
  obtain ⟨bound, same⟩ := List.getElem?_eq_some_iff.mp found
  have thereBound : index < there.length := each.length_eq ▸ bound
  have readFrom := each.get thereBound bound
  rw [List.get_eq_getElem, List.get_eq_getElem, same] at readFrom
  obtain ⟨address, lifted⟩ : startOf layout.pieces index = there[index].address ∧ _ := readFrom
  obtain ⟨isShort, _⟩ := BodyReader.lift_eq_raw lifted
  obtain ⟨part, form, stands⟩ := BodyReader.stands_of_splits splits (Nat.zero_le _) rfl _
    (List.getElem_mem thereBound)
  obtain ⟨longPart, known, resolves⟩ := split.each isLong
  have long := split.stands known
  rw [← address] at stands
  cases resolves with
  | branch =>
      cases form with
      | intro =>
          have opcodes := long.append_left.take_drop
          have shortOpcodes := stands.append_left.take_drop
          dsimp only at isShort
          rw [← isShort] at shortOpcodes
          have different : Opcode.leave.bytes = Opcode.leaveS.bytes :=
            opcodes.symm.trans shortOpcodes
          exact absurd different (by decide)

end Moving

end Reading

section Again

variable {code emittedCode : List UInt8} {declarations : List LocalDeclaration}
  {resolver : Resolver} {context : GenericContext} {body : Body} {encoder : Encoder Emitter}
  {layout : Layout} {parts : List (List UInt8)}

theorem locals_of_decode (decoded : Body.decode code declarations resolver context = .ok body)
    (slots : Encoder.Slots encoder body.declared) :
    encoder.sink.locals.toList = declarations := by
  obtain ⟨_, read, _, _, _, rfl⟩ := Body.readFrom_of_decode decoded
  have declared : Body.declared ⟨BodyReader.localsOf declarations,
      AddressedCode.items ⟨read, code.length⟩⟩ = BodyReader.localsOf declarations :=
    Body.declareAll_localsOf declarations
  rw [slots.locals, declared, Body.declaration_localsOf]

theorem decode_of_decode (decoded : Body.decode code declarations resolver context = .ok body)
    (holds : Encoder.Holds encoder body) (narrows : Layout.NarrowsTo encoder.sink.layout layout)
    (split : Layout.Parts layout emittedCode parts)
    (answers : ∀ instruction ∈ body.instructions,
      resolver.AnswersFor context encoder.sink.strings.entries.toList instruction.named) :
    ∃ again, Body.decode emittedCode declarations resolver context = .ok again ∧
      again.locals = body.locals ∧ List.Forall₂ CodeItem.Narrows body.items again.items ∧
      ∀ (index label : Nat) (target : Label),
        again.instructions[index]? = some (Instruction.raw Opcode.leaveS (.label target)) →
          layout.pieces[index]? ≠ some (Piece.branch Opcode.leave label) := by
  obtain ⟨entries, reading, again, length, each⟩ := decode_of_written holds narrows split
    (fun _ _ => Body.untyped_of_decode decoded) answers
  rw [locals_of_decode decoded holds.slots] at reading again each
  obtain ⟨found, read, accepts, readFrom, _, rfl⟩ := Body.readFrom_of_decode decoded
  have instructions : (Body.instructions ⟨BodyReader.localsOf declarations,
      AddressedCode.items ⟨read, code.length⟩⟩).length = read.length := by
    rw [Body.instructions, AddressedCode.instructions_items, List.length_map]
  have pieces := narrows.length.trans (holds.written.length.trans instructions)
  rw [instructions] at length
  refine ⟨_, again, rfl, ?_, ?_⟩
  · have moved := moved_of_readAs accepts readFrom holds narrows length each
    have count : (startsOf read code.length).length = layout.pieces.length + 1 := by
      rw [startsOf, List.length_append, List.length_map, pieces]
      rfl
    have atEnd : (startsOf read code.length)[layout.pieces.length]? = some code.length := by
      rw [startsOf, pieces, ← List.length_map Prod.fst, List.getElem?_concat_length]
    have newLength : moveTo layout (startsOf read code.length) code.length = emittedCode.length :=
      (moveTo_getElem (ascending_startsOf accepts readFrom) atEnd).trans split.length_code.symm
    rw [← newLength]
    exact AddressedCode.items_of_moved (separate_moveTo holds narrows count) moved
      (fun entry member => List.mem_append_left _ (List.mem_map_of_mem member))
      (List.mem_append_right _ (List.mem_singleton_self _))
      (target_mem_startsOf accepts readFrom)
  · intro index label target isShort
    rw [Body.instructions, AddressedCode.instructions_items, List.getElem?_map] at isShort
    obtain ⟨⟨address, instruction⟩, known, renamed⟩ := Option.map_eq_some_iff.mp isShort
    obtain ⟨operand, rfl⟩ := eq_raw_of_mapTargets renamed
    obtain ⟨rfl, _⟩ := each index _ known
    exact short_of_read split reading known label

end Again

/-- Code that is decoded and written again by an emitter that knows some
strings. -/
def normalize (code : List UInt8) (declarations : List LocalDeclaration) (resolver : Resolver)
    (context : GenericContext) (seed : List (String × Token)) (options : EncoderOptions) :
    Except Error EmittedBody := do
  let body ← Body.decode code declarations resolver context
  let (result, encoder) :=
    run (Encoder.encodeBody body) (Encoder.onto (Emitter.empty.withStrings seed) options)
  result
  encoder.sink.finish

theorem normalize_eq_ok {code : List UInt8} {declarations : List LocalDeclaration}
    {resolver : Resolver} {context : GenericContext} {seed : List (String × Token)}
    {options : EncoderOptions} {emitted : EmittedBody} :
    normalize code declarations resolver context seed options = .ok emitted ↔
      ∃ body encoder, Body.decode code declarations resolver context = .ok body ∧
        run (Encoder.encodeBody body) (Encoder.onto (Emitter.empty.withStrings seed) options) =
          (.ok (), encoder) ∧
        encoder.sink.finish = .ok emitted := by
  rw [normalize, bind_eq_ok]
  constructor
  · rintro ⟨body, decoded, rest⟩
    obtain ⟨_, encoded, finished⟩ := bind_eq_ok.mp rest
    exact ⟨body, _, decoded, Prod.ext encoded rfl, finished⟩
  · rintro ⟨body, encoder, decoded, encoded, finished⟩
    refine ⟨body, decoded, ?_⟩
    rw [encoded]
    exact bind_eq_ok.mpr ⟨(), rfl, finished⟩

theorem Emitter.Mirrors.finish {left right : Emitter} {emitted : EmittedBody} {layout : Layout}
    (mirrors : Mirrors left right) (written : layout.code = .ok emitted.code)
    (finished : left.finish = .ok emitted) (narrowed : right.layout.narrowed = .ok layout) :
    right.finish = .ok emitted := by
  obtain ⟨_, _, rest⟩ := bind_eq_ok.mp finished
  obtain ⟨code, _, together⟩ := bind_eq_ok.mp rest
  have parts := Except.ok.inj together
  refine bind_eq_ok.mpr ⟨layout, narrowed, bind_eq_ok.mpr ⟨emitted.code, written, ?_⟩⟩
  rw [mirrors.same, ← parts]
  rfl

/-- Code in its normal form is normal, if the resolver gives what it gave for a
token for the token of the result, and the emitter knows the strings by tokens
that the resolver gives them for. -/
theorem normalize_normalize {code : List UInt8} {declarations : List LocalDeclaration}
    {resolver : Resolver} {context : GenericContext} {seed : List (String × Token)}
    {options : EncoderOptions} {emitted : EmittedBody} (stable : resolver.IsStable context)
    (seeded : ∀ entry ∈ seed, resolver.string entry.2 = .ok entry.1)
    (covered : ∀ body, Body.decode code declarations resolver context = .ok body →
      ∀ opcode text, .raw opcode (.string text) ∈ body.instructions → text ∈ seed.map Prod.fst)
    (done : normalize code declarations resolver context seed options = .ok emitted) :
    normalize emitted.code emitted.locals resolver context seed options = .ok emitted := by
  obtain ⟨body, left, decoded, encoded, finished⟩ := normalize_eq_ok.mp done
  obtain ⟨holds, _, keeps⟩ := Encoder.holds_of_encodeBody_onto rfl rfl encoded
  obtain ⟨layout, narrowed, rest⟩ := bind_eq_ok.mp finished
  obtain ⟨code, written, together⟩ := bind_eq_ok.mp rest
  obtain rfl := Except.ok.inj together
  obtain ⟨parts, split⟩ := Layout.parts_of_code written
  have below := Layout.narrowsTo_of_narrow narrowed
  have texts : ∀ opcode text token, .raw opcode (.string text) ∈ body.instructions →
      left.sink.strings.entries.toList.lookup text = some token →
        resolver.string token = .ok text := by
    intro opcode text token member found
    obtain ⟨known, lookup, isSeed⟩ :=
      @Emitter.token?_withStrings Emitter.empty _ _ (covered body decoded opcode text member)
    rw [Option.some.inj (found.symm.trans (keeps _ _ lookup))]
    exact seeded _ isSeed
  obtain ⟨again, decodedAgain, sameLocals, narrows, short⟩ := decode_of_decode decoded holds below
    split (Body.answersFor_of_decode decoded stable texts)
  -- The second run keeps in step with the first one.
  obtain ⟨right, encodedAgain, mirrors⟩ := Encoder.parallels_encodeBody sameLocals narrows _ _ _ _
    ⟨Emitter.Mirrors.refl _, rfl, rfl⟩ encoded
  obtain ⟨holdsAgain, _, _⟩ := Encoder.holds_of_encodeBody_onto rfl rfl encodedAgain
  obtain ⟨above, stillBelow⟩ := Encoder.narrowsTo_between mirrors holds holdsAgain
    (Encoder.instructions_of_narrows narrows) below short
  have narrowedAgain := Layout.narrowed_of_between narrowed above stillBelow
  rw [locals_of_decode decoded holds.slots] at finished ⊢
  exact normalize_eq_ok.mpr ⟨again, right, decodedAgain, encodedAgain,
    mirrors.sink.finish written finished narrowedAgain⟩

namespace NormalSample

def int32 : CilType :=
  ⟨⟨0x01000001⟩, "System", "Int32", "System.Runtime", .value, 0x101⟩

def table : SymbolTable :=
  ⟨[(⟨0x70000001⟩, .string "text"), (⟨0x70000007⟩, .string "text"), (int32.token, .type int32)]⟩

def context : GenericContext := ⟨[], []⟩

def code : List UInt8 :=
  [0x72, 1, 0, 0, 0x70, 0x8C, 1, 0, 0, 1, 0x26, 0xDD, 1, 0, 0, 0, 0, 0x2A]

def body : Body :=
  let out : Label := ⟨.index 0, "Label_0"⟩
  ⟨[], [.code (.raw Opcode.ldstr (.string "text")), .code (.raw ⟨0x8C⟩ (.type int32)),
    .code (.raw Opcode.pop .none), .code (.raw Opcode.leave (.label out)),
    .code (.raw ⟨0x00⟩ .none), .mark out, .code .ret]⟩

def emitted : EmittedBody where
  code := [0x72, 7, 0, 0, 0x70, 0x8C, 1, 0, 0, 1, 0x26, 0xDE, 1, 0, 0x2A]
  maxStack := 1
  locals := []
  strings := [("text", ⟨0x70000007⟩)]

theorem find?_table {token : Token} {entry : SymbolTable.Entry}
    (found : table.find? token = some entry) :
    entry = .string "text" ∨ token = int32.token ∧ entry = .type int32 := by
  simp only [SymbolTable.find?, table, List.lookup_cons, List.lookup_nil] at found
  split at found
  · exact Or.inl (Option.some.inj found).symm
  · split at found
    · exact Or.inl (Option.some.inj found).symm
    · split at found
      · rename_i same
        exact Or.inr ⟨beq_iff_eq.mp same, (Option.some.inj found).symm⟩
      · cases found

theorem select_eq_ok {Result : Type} {token : Token}
    {wanted : SymbolTable.Entry → Option Result} {result : Result}
    (found : table.select token wanted = .ok result)
    (noString : wanted (.string "text") = none) :
    token = int32.token ∧ wanted (.type int32) = some result := by
  unfold SymbolTable.select at found
  split at found
  · rename_i selected
    obtain ⟨entry, known, isWanted⟩ := Option.bind_eq_some_iff.mp selected
    rw [Except.ok.inj found] at isWanted
    rcases find?_table known with rfl | ⟨rfl, rfl⟩
    · rw [noString] at isWanted
      cases isWanted
    · exact ⟨rfl, isWanted⟩
  · cases found

theorem type_eq_ok {token : Token} {type : CilType}
    (found : table.resolver.type token context = .ok type) :
    token = int32.token ∧ type = int32 := by
  obtain ⟨isToken, same⟩ := select_eq_ok found rfl
  exact ⟨isToken, (Option.some.inj same).symm⟩

theorem field_ne_ok (token : Token) (field : Field) :
    table.resolver.field token context ≠ .ok field :=
  fun found => by cases (select_eq_ok found rfl).2

theorem method_ne_ok (token : Token) (method : Method) :
    table.resolver.method token context ≠ .ok method :=
  fun found => by cases (select_eq_ok found rfl).2

theorem symbol_eq_ok {token : Token} {symbol : Symbol}
    (found : table.resolver.symbol token context = .ok symbol) :
    token = int32.token ∧ symbol = .type int32 := by
  have mapped : ∀ {Result : Type} {result : Except Error Result} {rename : Result → Symbol},
      result.map rename = .ok symbol → ∃ value, result = .ok value ∧ symbol = rename value := by
    intro Result result rename same
    cases result with
    | error => cases same
    | ok value => exact ⟨value, rfl, (Except.ok.inj same).symm⟩
  change Symbol.ofToken table.resolver.type table.resolver.field table.resolver.method token context =
    _ at found
  unfold Symbol.ofToken at found
  split at found
  case h_7 =>
    split at found
    · rename_i resolved
      exact absurd resolved (field_ne_ok _ _)
    · obtain ⟨_, resolved, _⟩ := mapped found
      exact absurd resolved (method_ne_ok _ _)
  case h_4 =>
    obtain ⟨_, resolved, _⟩ := mapped found
    exact absurd resolved (field_ne_ok _ _)
  case h_5 | h_6 =>
    obtain ⟨_, resolved, _⟩ := mapped found
    exact absurd resolved (method_ne_ok _ _)
  case h_1 | h_2 | h_3 =>
    obtain ⟨_, resolved, rfl⟩ := mapped found
    obtain ⟨isToken, rfl⟩ := type_eq_ok resolved
    exact ⟨isToken, rfl⟩
  all_goals cases found

theorem isStable : table.resolver.IsStable context where
  type found := by
    obtain ⟨rfl, rfl⟩ := type_eq_ok found
    exact found
  field found := absurd found (field_ne_ok _ _)
  method found := absurd found (method_ne_ok _ _)
  symbol found := by
    obtain ⟨rfl, rfl⟩ := symbol_eq_ok found
    exact found

end NormalSample

open NormalSample in
/-- The long `leave` is short and the string has the token that was known. -/
theorem normalize_normalize_of_leave :
    normalize code [] table.resolver context emitted.strings EncoderOptions.standard =
      .ok emitted ∧
    normalize emitted.code emitted.locals table.resolver context emitted.strings
      EncoderOptions.standard = .ok emitted := by
  have done : normalize code [] table.resolver context emitted.strings EncoderOptions.standard =
      .ok emitted := eq_ok_of_toOption (by decide +kernel)
  have decoded : Body.decode code [] table.resolver context = .ok body :=
    eq_ok_of_toOption (by decide +kernel)
  refine ⟨done, normalize_normalize isStable ?_ ?_ done⟩
  · intro entry member
    rw [List.mem_singleton.mp member]
    exact eq_ok_of_toOption (by decide +kernel)
  · intro other same opcode text member
    rw [← Except.ok.inj (decoded.symm.trans same)] at member
    simp [Body.instructions, body, CodeItem.instruction?] at member
    rw [member.2]
    decide

end CilTemplate
