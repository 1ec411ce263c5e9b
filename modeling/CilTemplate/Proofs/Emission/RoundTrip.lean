import CilTemplate.Proofs.Code.Addresses
import CilTemplate.Proofs.Emission.ReadBody
import CilTemplate.Proofs.Emission.Validation

/-
A body that was written and laid out is read again as the same code.
-/

namespace CilTemplate

open CilTemplate.Action

open Piece (startOf)

namespace Body

theorem declareAll_of_nodup {known rest : List Local}
    (distinct : ((known ++ rest).map Local.identity).Nodup) :
    declareAll known rest = known ++ rest := by
  induction rest generalizing known with
  | nil => simp [declareAll]
  | cons slot rest inductionHypothesis =>
      have fresh : known.any (fun declared => declared.identity == slot.identity) = false := by
        rw [List.any_eq_false]
        intro declared member same
        rw [List.map_append, List.nodup_append] at distinct
        exact distinct.2.2 _ (List.mem_map_of_mem member) _ (List.mem_map_of_mem List.mem_cons_self)
          (beq_iff_eq.mp same)
      rw [declareAll, if_neg (by rw [fresh]; exact Bool.false_ne_true), inductionHypothesis]
      · rw [List.append_assoc]
        rfl
      · rw [List.append_assoc]
        exact distinct

theorem getElem?_localsOf {declarations : List LocalDeclaration} {number : Nat}
    {declaration : LocalDeclaration} (found : declarations[number]? = some declaration) :
    (BodyReader.localsOf declarations)[number]? =
      some ⟨.index number, some ("Local_" ++ toString number), declaration⟩ := by
  simp [BodyReader.localsOf, found]

theorem declaration_localsOf (declarations : List LocalDeclaration) :
    (BodyReader.localsOf declarations).map Local.declaration = declarations := by
  apply List.ext_getElem?
  intro number
  cases found : declarations[number]? with
  | none => simp [BodyReader.localsOf, found]
  | some declaration => rw [List.getElem?_map, getElem?_localsOf found]; rfl

theorem identity_localsOf (declarations : List LocalDeclaration) :
    (BodyReader.localsOf declarations).map Local.identity =
      (List.range declarations.length).map Identity.index := by
  apply List.ext_getElem?
  intro number
  cases found : declarations[number]? with
  | none =>
      have beyond := List.getElem?_eq_none_iff.mp found
      simp [BodyReader.localsOf, beyond]
  | some declaration =>
      obtain ⟨bound, _⟩ := List.getElem?_eq_some_iff.mp found
      rw [List.getElem?_map, getElem?_localsOf found]
      simp [bound]

theorem declareAll_localsOf (declarations : List LocalDeclaration) :
    declareAll [] (BodyReader.localsOf declarations) = BodyReader.localsOf declarations := by
  apply declareAll_of_nodup
  rw [List.nil_append, identity_localsOf]
  unfold List.Nodup
  rw [List.pairwise_map]
  exact List.nodup_range.imp fun different same => different (Identity.index.inj same)

theorem findIdx_localsOf {declarations : List LocalDeclaration} {number : Nat}
    {declaration : LocalDeclaration} (found : declarations[number]? = some declaration) :
    (BodyReader.localsOf declarations).findIdx (fun slot => slot.identity == .index number) =
      number := by
  have here := getElem?_localsOf found
  obtain ⟨bound, same⟩ := List.getElem?_eq_some_iff.mp here
  rw [List.findIdx_eq bound, same]
  refine ⟨beq_self_eq_true _, ?_⟩
  intro earlier before
  have different : Identity.index earlier ≠ .index number :=
    fun equal => Nat.ne_of_lt before (Identity.index.inj equal)
  simpa [BodyReader.localsOf] using different

theorem isSome_placeIn {items : List CodeItem} {identity : Identity}
    (marked : identity ∈ (items.filterMap CodeItem.label?).map Label.identity) :
    ∃ place, placeIn items identity = some place := by
  induction items with
  | nil => cases marked
  | cons item rest inductionHypothesis =>
      cases item with
      | mark label =>
          unfold placeIn
          by_cases same : label.identity = identity
          · exact ⟨0, if_pos same⟩
          · rw [if_neg same]
            rcases List.mem_cons.mp marked with here | later
            · exact absurd here.symm same
            · exact inductionHypothesis later
      | code instruction =>
          rcases inductionHypothesis marked with ⟨place, found⟩
          exact ⟨place + 1, Option.map_eq_some_iff.mpr ⟨place, found, rfl⟩⟩

end Body

namespace Encoder

theorem place?_of_validate {slots : List (Identity × UInt16)} {body : Body}
    (valid : validate slots body = .ok ()) {instruction : Instruction Label}
    (member : instruction ∈ body.instructions) {target : Label}
    (isTarget : target ∈ instruction.targets) : ∃ place, body.place? target = some place := by
  obtain ⟨_, _, checked⟩ := bind_eq_ok.mp valid
  obtain ⟨marked, _⟩ :=
    checkInstruction_eq_ok (forall_of_checkInstructions checked instruction member)
  exact Body.isSome_placeIn (marked target isTarget)

end Encoder

theorem size_pos_of_writes {strings : UserStrings} {opcode : Opcode} {info : OpcodeInfo}
    {operand : Operand Nat} {piece narrow : Piece}
    (writes : Emitter.Writes strings opcode info operand piece)
    (narrows : Piece.Narrows piece narrow) : 0 < narrow.size := by
  have positive : ∀ opcode : Opcode, 0 < opcode.size := by
    intro opcode
    unfold Opcode.size
    split <;> decide
  have plainSize := positive opcode
  cases narrows with
  | same =>
      cases writes with
      | plain _ _ =>
          rw [Piece.size, List.length_append, Layout.length_bytes]
          omega
      | branch _ => exact Nat.add_pos_left plainSize 4
      | narrowBranch _ => exact Nat.add_pos_left plainSize 1
      | switch _ _ =>
          have tableSize := positive Opcode.switch
          simp only [Piece.size]
          omega
  | @branch _ short => exact Nat.add_pos_left (positive short) 1

theorem layout_of_finish {emitter : Emitter} {emitted : EmittedBody}
    (finished : emitter.finish = .ok emitted) :
    ∃ layout parts, Layout.NarrowsTo emitter.layout layout ∧
      Layout.Parts layout emitted.code parts ∧ emitted.locals = emitter.locals.toList ∧
      emitted.strings = emitter.strings.entries.toList := by
  obtain ⟨layout, narrowed, rest⟩ := bind_eq_ok.mp finished
  obtain ⟨code, written, together⟩ := bind_eq_ok.mp rest
  obtain ⟨parts, split⟩ := Layout.parts_of_code written
  rw [← Except.ok.inj together]
  exact ⟨layout, parts, Layout.narrowsTo_of_narrow narrowed, split, rfl, rfl⟩

section RoundTrip

variable {body : Body} {encoder : Encoder Emitter} {layout : Layout} {code : List UInt8}
  {parts : List (List UInt8)} {reader : BodyReader} {ofLocal : Local → Local}

theorem startOf_lt_startOf (holds : Encoder.Holds encoder body)
    (narrows : Layout.NarrowsTo encoder.sink.layout layout) {left right : Nat}
    (order : left < right) (bound : right ≤ layout.pieces.length) :
    startOf layout.pieces left < startOf layout.pieces right := by
  apply Layout.startOf_lt _ order bound
  intro narrow member
  obtain ⟨index, narrowBound, same⟩ := List.getElem_of_mem member
  have there : layout.pieces[index]? = some narrow :=
    List.getElem?_eq_some_iff.mpr ⟨narrowBound, same⟩
  have pieceBound : index < encoder.sink.pieces.toList.length :=
    Nat.lt_of_lt_of_eq narrowBound narrows.length
  have here := List.getElem?_eq_getElem pieceBound
  have written := List.getElem?_eq_getElem (holds.written.length ▸ pieceBound)
  rcases holds.written.each written here with ⟨_, _, _, writes⟩
  exact size_pos_of_writes writes (narrows.each here there)

/-- No instruction is empty, so there are at least as many bytes as instructions. -/
theorem le_startOf (holds : Encoder.Holds encoder body)
    (narrows : Layout.NarrowsTo encoder.sink.layout layout) {index : Nat}
    (bound : index ≤ layout.pieces.length) : index ≤ startOf layout.pieces index := by
  induction index with
  | zero => exact Nat.zero_le _
  | succ index inductionHypothesis =>
      have grows := startOf_lt_startOf holds narrows (Nat.lt_add_one index) bound
      have earlier := inductionHypothesis (Nat.le_of_succ_le bound)
      omega

theorem run_readInstructions_of_written (holds : Encoder.Holds encoder body)
    (narrows : Layout.NarrowsTo encoder.sink.layout layout)
    (split : Layout.Parts layout code parts)
    (untyped : ∀ opcode operand, .raw opcode operand ∈ body.instructions → opcode ∉ Opcode.typed)
    (answers : ∀ instruction ∈ body.instructions,
      reader.resolver.AnswersFor reader.context encoder.sink.strings.entries.toList
        instruction.named)
    (locals : ∀ slot index, encoder.slots.lookup slot.identity = some index →
      reader.locals[index.toNat]? = some (ofLocal slot)) :
    ∃ entries, run (reader.readInstructions code.length) (Cursor.ofList code) =
        (.ok entries, Cursor.within code code.length) ∧
      entries.length = body.instructions.length ∧
      ∀ (index : Nat) (entry : Nat × Instruction Nat), entries[index]? = some entry →
        entry.1 = startOf layout.pieces index ∧
        ∃ written, body.instructions[index]? = some written ∧
          ReadAs encoder layout ofLocal written entry.2 := by
  have count : layout.pieces.length = body.instructions.length :=
    narrows.length.trans holds.written.length
  have final : startOf layout.pieces body.instructions.length = code.length := by
    rw [← count, split.length_code]
  have before : ∀ index, index < body.instructions.length →
      startOf layout.pieces index < code.length := by
    intro index bound
    rw [← final]
    exact startOf_lt_startOf holds narrows bound (Nat.le_of_eq count.symm)
  have enough := le_startOf holds narrows (Nat.le_of_eq count.symm)
  rw [final] at enough
  have each : ∀ index, index < body.instructions.length → ∃ read,
      run reader.readInstruction (Cursor.within code (startOf layout.pieces index)) =
        (.ok read, Cursor.within code (startOf layout.pieces (index + 1))) ∧
      ∃ written, body.instructions[index]? = some written ∧
        ReadAs encoder layout ofLocal written read := by
    intro index bound
    have found := List.getElem?_eq_getElem bound
    have member := List.mem_of_getElem? found
    obtain ⟨read, reading, readAs⟩ := readAs_of_written holds narrows split
      (fun opcode operand isRaw => untyped opcode operand (isRaw ▸ member))
      (answers _ member) locals found
    exact ⟨read, reading, _, found, readAs⟩
  obtain ⟨entries, reading, length, related⟩ :=
    run_readInstructions final before each code.length 0 (Nat.zero_le _) (by omega)
  refine ⟨entries, reading, length, ?_⟩
  intro index entry found
  have here := related index entry found
  rw [Nat.zero_add] at here
  exact here

def markOf (layout : Layout) (handle : Nat) : Option Nat :=
  layout.marks[handle]?.join

theorem mapTargets_place? (holds : Encoder.Holds encoder body)
    (narrows : Layout.NarrowsTo encoder.sink.layout layout)
    {written : Instruction Label} {handled : Instruction Nat}
    (places : ∀ target ∈ written.targets, ∃ place, body.place? target = some place)
    (targets : written.mapTargets encoder.handle? = handled.mapTargets some) :
    written.mapTargets body.place? = handled.mapTargets (markOf layout) := by
  have marked : written.mapTargets body.place? =
      (written.mapTargets encoder.handle?).mapTargets fun handle => handle.bind (markOf layout) := by
    rw [Instruction.mapTargets_mapTargets]
    apply Instruction.mapTargets_congr
    intro target member
    rcases places target member with ⟨place, found⟩
    rcases holds.places target place found with ⟨handle, known, mark⟩
    rw [found, known, Option.bind_some, markOf, narrows.marks]
    exact (Option.join_eq_some_iff.mpr mark).symm
  rw [marked, targets, Instruction.mapTargets_mapTargets]
  rfl

def readLocal (slots : List (Identity × UInt16)) (locals : List Local) (slot : Local) : Local :=
  ((slots.lookup slot.identity).bind fun index => locals[index.toNat]?).getD slot

section Locals

variable {slot : Local} {index : UInt16}

theorem getElem?_declared (slots : Encoder.Slots encoder body.declared)
    (known : encoder.slots.lookup slot.identity = some index) :
    ∃ declared, body.declared[index.toNat]? = some declared ∧
      body.declared.findIdx (fun other => other.identity == slot.identity) = index.toNat := by
  have place := slots.slots slot.identity
  rw [known] at place
  obtain ⟨bound, same⟩ := List.findIdx?_eq_some_iff_findIdx_eq.mp place.symm
  exact ⟨_, List.getElem?_eq_getElem bound, same⟩

theorem getElem?_readLocal (slots : Encoder.Slots encoder body.declared)
    (known : encoder.slots.lookup slot.identity = some index) :
    ∃ declared name, body.declared[index.toNat]? = some declared ∧
      readLocal encoder.slots (BodyReader.localsOf encoder.sink.locals.toList) slot =
        ⟨.index index.toNat, name, declared.declaration⟩ ∧
      (BodyReader.localsOf encoder.sink.locals.toList)[index.toNat]? =
        some (readLocal encoder.slots (BodyReader.localsOf encoder.sink.locals.toList) slot) := by
  rcases getElem?_declared slots known with ⟨declared, found, _⟩
  have declaration : encoder.sink.locals.toList[index.toNat]? = some declared.declaration := by
    rw [slots.locals, List.getElem?_map, found]
    rfl
  have there := Body.getElem?_localsOf declaration
  have chosen : readLocal encoder.slots (BodyReader.localsOf encoder.sink.locals.toList) slot =
      ⟨.index index.toNat, some ("Local_" ++ toString index.toNat), declared.declaration⟩ := by
    rw [readLocal, known, Option.bind_some, there]
    rfl
  exact ⟨declared, _, found, chosen, by rw [there, chosen]⟩

theorem inSlot_readLocal {items : List CodeItem} (slots : Encoder.Slots encoder body.declared)
    (known : encoder.slots.lookup slot.identity = some index) :
    let locals := BodyReader.localsOf encoder.sink.locals.toList
    Body.inSlot ⟨locals, items⟩ (readLocal encoder.slots locals slot) = body.inSlot slot := by
  rcases getElem?_declared slots known with ⟨_, _, place⟩
  rcases getElem?_readLocal slots known with ⟨declared, name, found, chosen, there⟩
  have declaration : encoder.sink.locals.toList[index.toNat]? = some declared.declaration := by
    rw [slots.locals, List.getElem?_map, found]
    rfl
  have declaredEq : Body.declared ⟨BodyReader.localsOf encoder.sink.locals.toList, items⟩ =
      BodyReader.localsOf encoder.sink.locals.toList := Body.declareAll_localsOf _
  simp only [Body.inSlot, declaredEq, chosen, Body.findIdx_localsOf declaration,
    Body.getElem?_localsOf declaration, place, found, Option.getD_some]

end Locals

section Places

variable {entries : List (Nat × Instruction Nat)}

theorem addresses_of_entries (length : entries.length = layout.pieces.length)
    (final : startOf layout.pieces layout.pieces.length = code.length)
    (each : ∀ (index : Nat) (entry : Nat × Instruction Nat), entries[index]? = some entry →
      entry.1 = startOf layout.pieces index) :
    entries.map Prod.fst ++ [code.length] =
      (List.range (layout.pieces.length + 1)).map (startOf layout.pieces) := by
  rw [List.range_succ, List.map_append, List.map_singleton, final]
  congr 1
  apply List.ext_getElem?
  intro index
  rw [List.getElem?_map]
  cases found : entries[index]? with
  | none =>
      have beyond := List.getElem?_eq_none_iff.mp found
      rw [length] at beyond
      simp [beyond]
  | some entry =>
      obtain ⟨bound, _⟩ := List.getElem?_eq_some_iff.mp found
      rw [length] at bound
      rw [Option.map_some, each index entry found]
      simp [bound]

theorem place?_labelOf {locals : List Local} {place : Nat}
    (ascending : ∀ left right, left < right → right ≤ layout.pieces.length →
      startOf layout.pieces left < startOf layout.pieces right)
    (addresses : entries.map Prod.fst ++ [code.length] =
      (List.range (layout.pieces.length + 1)).map (startOf layout.pieces))
    (bound : place ≤ layout.pieces.length)
    (member : startOf layout.pieces place ∈ (AddressedCode.mk entries code.length).targets) :
    let addressed : AddressedCode := ⟨entries, code.length⟩
    Body.place? ⟨locals, addressed.items⟩
      (AddressedCode.labelOf addressed.targets (startOf layout.pieces place)) = some place := by
  apply AddressedCode.placeIn_items member
  · rw [addresses, List.pairwise_map]
    apply List.pairwise_lt_range.imp_of_mem
    intro left right _ rightMember order
    exact ascending left right order (Nat.le_of_lt_succ (List.mem_range.mp rightMember))
  · rw [addresses, List.getElem?_map, List.getElem?_range (Nat.lt_succ_of_le bound)]
    rfl

end Places

theorem targets_of_readAs {written : Instruction Label} {read : Instruction Nat}
    (readAs : ReadAs encoder layout ofLocal written read) {address : Nat}
    (member : address ∈ read.targets) :
    ∃ place, place ≤ layout.pieces.length ∧ address = startOf layout.pieces place := by
  rcases readAs with @⟨handled, _, narrowed, marked, _⟩
  rw [narrowed.targets_eq, Instruction.targets_mapTargets, Instruction.targets_mapLocal] at member
  obtain ⟨handle, isTarget, rfl⟩ := List.mem_map.mp member
  rcases marked handle isTarget with ⟨place, mark, bound⟩
  refine ⟨place, bound, ?_⟩
  rw [Layout.addressOf, mark]
  rfl

theorem isBoundary_of_target {entries : List (Nat × Instruction Nat)} {place : Nat}
    (addresses : entries.map Prod.fst ++ [code.length] =
      (List.range (layout.pieces.length + 1)).map (startOf layout.pieces))
    (bound : place ≤ layout.pieces.length) :
    (AddressedCode.mk entries code.length).isBoundary (startOf layout.pieces place) = true := by
  have member : startOf layout.pieces place ∈ entries.map Prod.fst ++ [code.length] := by
    rw [addresses]
    exact List.mem_map_of_mem (List.mem_range.mpr (Nat.lt_succ_of_le bound))
  unfold AddressedCode.isBoundary
  rcases List.mem_append.mp member with inside | atEnd
  · obtain ⟨entry, isEntry, same⟩ := List.mem_map.mp inside
    have starts : entries.any (fun entry => entry.1 == startOf layout.pieces place) = true :=
      List.any_eq_true.mpr ⟨entry, isEntry, beq_iff_eq.mpr same⟩
    exact Bool.or_eq_true_iff.mpr (Or.inr starts)
  · rw [List.mem_singleton.mp atEnd]
    simp

theorem find?_inside {entries : List (Nat × Instruction Nat)}
    (addresses : entries.map Prod.fst ++ [code.length] =
      (List.range (layout.pieces.length + 1)).map (startOf layout.pieces))
    (each : ∀ entry ∈ entries, ∃ written, ReadAs encoder layout ofLocal written entry.2) :
    let addressed : AddressedCode := ⟨entries, code.length⟩
    addressed.targets.find? (fun address => !addressed.isBoundary address) = none := by
  intro addressed
  rw [List.find?_eq_none]
  intro address member
  obtain ⟨entry, isEntry, isTarget⟩ := AddressedCode.mem_targets.mp member
  rcases each entry isEntry with ⟨written, readAs⟩
  obtain ⟨place, bound, rfl⟩ := targets_of_readAs readAs isTarget
  rw [isBoundary_of_target addresses bound]
  exact Bool.false_ne_true

theorem narrows_view {written : Instruction Label} {read : Instruction Nat} {decoded : Body}
    {targets : List Nat} (holds : Encoder.Holds encoder body)
    (narrows : Layout.NarrowsTo encoder.sink.layout layout)
    (places : ∀ target ∈ written.targets, ∃ place, body.place? target = some place)
    (readAs : ReadAs encoder layout ofLocal written read)
    (sameLocal : ∀ slot index, encoder.slots.lookup slot.identity = some index →
      decoded.inSlot (ofLocal slot) = body.inSlot slot)
    (samePlace : ∀ place, place ≤ layout.pieces.length →
      startOf layout.pieces place ∈ read.targets →
        decoded.place? (AddressedCode.labelOf targets (startOf layout.pieces place)) =
          some place) :
    Instruction.Narrows (body.view written)
      (decoded.view (read.mapTargets (AddressedCode.labelOf targets))) := by
  rcases readAs with @⟨handled, handles, narrowed, marked, known⟩
  have listed : read.targets = handled.targets.map layout.addressOf := by
    rw [narrowed.targets_eq, Instruction.targets_mapTargets, Instruction.targets_mapLocal]
  have seen := (narrowed.mapTargets fun address =>
    decoded.place? (AddressedCode.labelOf targets address)).mapLocal decoded.inSlot
  have sameTargets : (handled.mapTargets layout.addressOf).mapTargets (fun address =>
      decoded.place? (AddressedCode.labelOf targets address)) =
        written.mapTargets body.place? := by
    rw [mapTargets_place? holds narrows places handles, Instruction.mapTargets_mapTargets]
    apply Instruction.mapTargets_congr
    intro handle member
    rcases marked handle member with ⟨place, mark, bound⟩
    have address : layout.addressOf handle = startOf layout.pieces place := by
      rw [Layout.addressOf, mark]
      rfl
    have isTarget : startOf layout.pieces place ∈ read.targets := by
      rw [listed, ← address]
      exact List.mem_map_of_mem member
    rw [address, samePlace place bound isTarget, markOf, mark]
    rfl
  have sameLocals : (handled.mapLocal fun slot => decoded.inSlot (ofLocal slot)) =
      handled.mapLocal body.inSlot := by
    cases handled with
    | localSlot access slot =>
        rcases known access slot rfl with ⟨index, found⟩
        exact congrArg (Instruction.localSlot access) (sameLocal slot index found)
    | _ => rfl
  have right : decoded.view (read.mapTargets (AddressedCode.labelOf targets)) =
      (read.mapTargets fun address =>
        decoded.place? (AddressedCode.labelOf targets address)).mapLocal decoded.inSlot := by
    rw [Body.view, Instruction.mapTargets_mapTargets]
  rw [right, Body.view, ← sameTargets]
  rw [Instruction.mapLocal_mapTargets, Instruction.mapLocal_mapTargets,
    Instruction.mapLocal_mapLocal, sameLocals] at seen
  rw [Instruction.mapLocal_mapTargets, Instruction.mapLocal_mapTargets]
  exact seen

end RoundTrip

/-- What the encoder writes of a body is read again as the same code, if the
resolver answers for what the body names and no instruction without a type of
its own stands for a typed one. -/
theorem decode_encodeBody {body : Body} {options : EncoderOptions} {encoder : Encoder Emitter}
    {emitted : EmittedBody} {resolver : Resolver} {context : GenericContext}
    (encoded : run (Encoder.encodeBody body) (Encoder.onto Emitter.empty options) =
      (.ok (), encoder))
    (finished : encoder.sink.finish = .ok emitted)
    (untyped : ∀ opcode operand, .raw opcode operand ∈ body.instructions → opcode ∉ Opcode.typed)
    (answers : ∀ instruction ∈ body.instructions,
      resolver.AnswersFor context emitted.strings instruction.named) :
    ∃ decoded, Body.decode emitted.code emitted.locals resolver context = .ok decoded ∧
      decoded.locals.map Local.declaration = body.declared.map Local.declaration ∧
      decoded.instructions.length = body.instructions.length ∧
      ∀ (index : Nat) (written read : Instruction Label),
        body.instructions[index]? = some written → decoded.instructions[index]? = some read →
          Instruction.Narrows (body.view written) (decoded.view read) ∧
          ∀ target ∈ written.targets, (body.place? target).isSome = true := by
  obtain ⟨holds, valid⟩ := Encoder.holds_of_encodeBody encoded
  obtain ⟨layout, parts, narrows, split, locals, strings⟩ := layout_of_finish finished
  rw [strings] at answers
  let reader : BodyReader := ⟨resolver, context, BodyReader.localsOf emitted.locals⟩
  let ofLocal := readLocal encoder.slots (BodyReader.localsOf encoder.sink.locals.toList)
  have readLocals : ∀ slot index, encoder.slots.lookup slot.identity = some index →
      reader.locals[index.toNat]? = some (ofLocal slot) := by
    intro slot index known
    rcases getElem?_readLocal holds.slots known with ⟨_, _, _, _, there⟩
    simp only [reader, locals]
    exact there
  obtain ⟨entries, reading, length, each⟩ := @run_readInstructions_of_written body encoder layout
    emitted.code parts reader ofLocal holds narrows split untyped answers readLocals
  have count : entries.length = layout.pieces.length :=
    length.trans (narrows.length.trans holds.written.length).symm
  have addresses := addresses_of_entries count split.length_code.symm
    fun index entry found => (each index entry found).1
  let addressed : AddressedCode := ⟨entries, emitted.code.length⟩
  have samePlace : ∀ place, place ≤ layout.pieces.length →
      startOf layout.pieces place ∈ addressed.targets →
        Body.place? ⟨BodyReader.localsOf emitted.locals, addressed.items⟩
          (AddressedCode.labelOf addressed.targets (startOf layout.pieces place)) = some place :=
    fun place bound member => place?_labelOf
      (fun left right => startOf_lt_startOf holds narrows) addresses bound member
  have inside := @find?_inside encoder layout emitted.code ofLocal entries addresses
    fun entry member => by
      obtain ⟨index, found⟩ := List.getElem?_of_mem member
      rcases each index entry found with ⟨_, written, _, readAs⟩
      exact ⟨written, readAs⟩
  have instructions : Body.instructions ⟨reader.locals, addressed.items⟩ =
      entries.map fun entry => entry.2.mapTargets (AddressedCode.labelOf addressed.targets) :=
    addressed.instructions_items
  refine ⟨⟨reader.locals, addressed.items⟩, ?_, ?_, ?_, ?_⟩
  · have readAll : (run (reader.readInstructions emitted.code.length)
        (Cursor.ofList emitted.code)).1 = .ok entries := by rw [reading]
    refine bind_eq_ok.mpr ⟨entries, readAll, ?_⟩
    simp only [inside]
    rfl
  · rw [← holds.slots.locals, ← locals]
    exact Body.declaration_localsOf emitted.locals
  · rw [instructions, List.length_map, length]
  · intro index written read here there
    rw [instructions, List.getElem?_map] at there
    obtain ⟨entry, found, rfl⟩ := Option.map_eq_some_iff.mp there
    rcases each index entry found with ⟨_, other, known, readAs⟩
    rw [Option.some.inj (known.symm.trans here)] at readAs
    have places : ∀ target ∈ written.targets, ∃ place, body.place? target = some place :=
      fun _ isTarget => Encoder.place?_of_validate valid (List.mem_of_getElem? here) isTarget
    refine ⟨narrows_view holds narrows places readAs ?_ ?_, ?_⟩
    · intro slot index known
      have same := @inSlot_readLocal body encoder slot index addressed.items holds.slots known
      simp only [reader, locals]
      exact same
    · intro place bound member
      exact samePlace place bound
        (AddressedCode.mem_targets.mpr ⟨entry, List.mem_of_getElem? found, member⟩)
    · intro target isTarget
      rcases places target isTarget with ⟨place, found⟩
      rw [found]
      rfl

namespace RoundTripSample

def counter : Local := ⟨.handle "counter", some "counter", ⟨⟨⟨0x01000001⟩, "System", "Int32",
  "System.Runtime", .value, 0x101⟩, false⟩⟩

def again : Label := ⟨.handle "again", "again"⟩

def out : Label := ⟨.handle "out", "out"⟩

/-- A table that leads back or out, and a long way out. -/
def body : Body :=
  ⟨[counter],
    [.code (.argument .load 0), .code (.localSlot .store counter), .mark again,
      .code (.localSlot .load counter), .code (.raw Opcode.switch (.switch [again, out])),
      .code (.raw Opcode.ldstr (.string "text")), .code (.raw Opcode.pop .none),
      .code (.raw Opcode.leave (.label out)), .mark out, .code .ret]⟩

def resolver : Resolver :=
  (SymbolTable.empty.insert ⟨0x70000001⟩ (.string "text")).resolver

def encoder : Encoder Emitter :=
  (run (Encoder.encodeBody body) (Encoder.onto Emitter.empty EncoderOptions.standard)).2

def emitted : EmittedBody where
  code :=
    [0x02, 0x0A, 0x06, 0x45, 2, 0, 0, 0, 0xF2, 0xFF, 0xFF, 0xFF, 8, 0, 0, 0, 0x72, 1, 0, 0, 0x70,
      0x26, 0xDE, 0, 0x2A]
  maxStack := 1
  locals := [counter.declaration]
  strings := [("text", ⟨0x70000001⟩)]

end RoundTripSample

open RoundTripSample in
theorem decode_encodeBody_of_table :
    run (Encoder.encodeBody body) (Encoder.onto Emitter.empty EncoderOptions.standard) =
      (.ok (), encoder) ∧
    encoder.sink.finish = .ok emitted ∧
    ∃ decoded, Body.decode emitted.code emitted.locals resolver ⟨[], []⟩ = .ok decoded ∧
      decoded.instructions.length = 8 ∧
      ∀ (index : Nat) (written read : Instruction Label),
        body.instructions[index]? = some written → decoded.instructions[index]? = some read →
          Instruction.Narrows (body.view written) (decoded.view read) := by
  have encoded : run (Encoder.encodeBody body)
      (Encoder.onto Emitter.empty EncoderOptions.standard) = (.ok (), encoder) :=
    run_eq_ok_of_toOption (by decide +kernel)
  have finished : encoder.sink.finish = .ok emitted := eq_ok_of_toOption (by decide +kernel)
  have listed : body.instructions = [.argument .load 0, .localSlot .store counter,
      .localSlot .load counter, .raw Opcode.switch (.switch [again, out]),
      .raw Opcode.ldstr (.string "text"), .raw Opcode.pop .none, .raw Opcode.leave (.label out),
      .ret] := rfl
  have untyped : ∀ opcode operand, .raw opcode operand ∈ body.instructions →
      opcode ∉ Opcode.typed := by
    intro opcode operand member
    simp only [listed, List.mem_cons, List.not_mem_nil, Instruction.raw.injEq, reduceCtorEq,
      or_false, false_or] at member
    rcases member with ⟨rfl, _⟩ | ⟨rfl, _⟩ | ⟨rfl, _⟩ | ⟨rfl, _⟩ <;> decide +kernel
  have answers : ∀ instruction ∈ body.instructions,
      resolver.AnswersFor ⟨[], []⟩ emitted.strings instruction.named := by
    intro instruction member
    simp only [listed, List.mem_cons, List.not_mem_nil, or_false] at member
    rcases member with rfl | rfl | rfl | rfl | rfl | rfl | rfl | rfl
    case inr.inr.inr.inr.inl =>
      intro token known
      rw [← (Option.some.inj known : Token.mk 0x70000001 = token)]
      exact eq_ok_of_toOption (by decide +kernel)
    all_goals trivial
  obtain ⟨decoded, read, _, length, each⟩ := decode_encodeBody encoded finished untyped answers
  exact ⟨encoded, finished, decoded, read, length.trans (by decide), fun index written read here there =>
    (each index written read here there).1⟩

end CilTemplate
