import CilTemplate.Proofs.Code.Literals
import CilTemplate.Proofs.Decoding.Decoded
import CilTemplate.Proofs.Emission.FailedRequests
import CilTemplate.Proofs.Entries

/-
Literals in bytes.  The instruction for a captured value is one piece of code,
which is read again as the same instruction, a string by the token that the
emitter gave it.  No shorter code loads the same number of four bytes.
-/

namespace CilTemplate

open CilTemplate.Action

namespace Emitter

variable {opcode : Opcode} {operand : Operand Nat} {kind : OperandKind}

theorem emitPiece_of_isLiteral (isLiteral : operand.IsLiteral kind) (info : OpcodeInfo)
    (asks : info.operand = kind) (pops pushes : Int) :
    emitPiece opcode info operand pops pushes = (do
      let bytes ← operandBytes info operand
      pushPiece (.plain (opcode.bytes ++ bytes))
      updateDepth info.mnemonic pops pushes) := by
  unfold emitPiece
  rw [asks]
  cases isLiteral with
  | immediate value => cases value <;> rfl
  | none | string => rfl

theorem run_operandBytes_of_isLiteral (isLiteral : operand.IsLiteral kind) (info : OpcodeInfo)
    (asks : info.operand = kind) (emitter : Emitter) :
    ∃ bytes, operandEncoding (stringsAfter emitter.strings operand) operand = some bytes ∧
      run (operandBytes info operand) emitter =
        (.ok bytes, { emitter with strings := stringsAfter emitter.strings operand }) := by
  unfold operandBytes
  rw [asks]
  cases isLiteral with
  | none => exact ⟨[], rfl, rfl⟩
  | immediate value => exact ⟨value.bytes, rfl, by cases value <;> rfl⟩
  | string text =>
      have known := (intern_spec emitter.strings text).1
      exact ⟨_, congrArg (Option.map tokenBytes) known, rfl⟩

theorem run_updateDepth_of_one (mnemonic : String) (emitter : Emitter) (empty : emitter.depth = 0) :
    run (updateDepth mnemonic 0 1) emitter =
      (.ok (), { emitter with depth := 1, maxDepth := max emitter.maxDepth 1 }) := by
  unfold updateDepth
  simp only [run_bind, run_get, run_ite, run_set, run_throw, run_modify, empty]
  rfl

theorem run_emit_of_isLiteral (brings : opcode.Brings kind) (isLiteral : operand.IsLiteral kind)
    {emitter : Emitter} (empty : emitter.depth = 0) :
    ∃ after bytes, run (emit opcode operand) emitter = (.ok (), after) ∧
      operandEncoding after.strings operand = some bytes ∧
      after.strings = stringsAfter emitter.strings operand ∧
      after.pieces = emitter.pieces.push (.plain (opcode.bytes ++ bytes)) := by
  obtain ⟨mnemonic, known⟩ := brings.info
  obtain ⟨bytes, encoding, written⟩ := run_operandBytes_of_isLiteral isLiteral
    ⟨mnemonic, kind, .fixed 0, .fixed 1, .sequential⟩ rfl emitter
  have effect : stackEffect opcode ⟨mnemonic, kind, .fixed 0, .fixed 1, .sequential⟩ operand
      emitter.depth = .ok (0, 1) :=
    stackEffect_of_fixed rfl rfl
  have emitted : run (emit opcode operand) emitter = (.ok (), { emitter with
      strings := stringsAfter emitter.strings operand
      pieces := emitter.pieces.push (.plain (opcode.bytes ++ bytes))
      depth := 1
      maxDepth := max emitter.maxDepth 1 }) := by
    simp only [emit, known, run_bind, run_get, run_ofExcept, effect]
    rw [emitPiece_of_isLiteral isLiteral _ rfl]
    simp only [run_bind, written, pushPiece, run_modify]
    rw [run_updateDepth_of_one]
    · rfl
    · exact empty
  exact ⟨_, bytes, emitted, encoding, rfl, rfl⟩

/-- At most one string has a token where there was none. -/
theorem nodup_stringsAfter {strings : UserStrings} (none : strings.entries = #[])
    (operand : Operand Nat) :
    ((stringsAfter strings operand).entries.toList.map Prod.snd).Nodup := by
  cases operand with
  | string text => simp [stringsAfter, UserStrings.intern, UserStrings.token?, none]
  | _ => simp [stringsAfter, none]

theorem finish_of_single {emitter : Emitter} {bytes : List UInt8}
    (single : emitter.pieces = #[.plain bytes]) :
    emitter.finish = .ok ⟨bytes, emitter.maxDepth, emitter.locals.toList,
      emitter.strings.entries.toList⟩ := by
  have laidOut : emitter.layout = ⟨[.plain bytes], emitter.marks⟩ := by
    rw [layout, single]
  have narrowed : emitter.layout.narrowed = .ok ⟨[.plain bytes], emitter.marks⟩ := by
    rw [laidOut]
    rfl
  have code : Layout.code ⟨[.plain bytes], emitter.marks⟩ = .ok (bytes ++ []) := rfl
  rw [List.append_nil] at code
  simp only [finish, narrowed, code, bind, Except.bind]
  rfl

end Emitter

namespace Encoder

theorem run_encodeInstruction_of_isLiteral {opcode : Opcode} {operand : Operand Label}
    {kind : OperandKind} (brings : opcode.Brings kind) (isLiteral : operand.IsLiteral kind)
    {encoder : Encoder Emitter} (empty : encoder.sink.depth = 0) :
    ∃ after bytes, run (encodeInstruction (.raw opcode operand)) encoder = (.ok (), after) ∧
      Emitter.operandEncoding after.sink.strings (operand.mapTargets fun _ => 0) = some bytes ∧
      after.sink.strings =
        Emitter.stringsAfter encoder.sink.strings (operand.mapTargets fun _ => 0) ∧
      after.sink.pieces = encoder.sink.pieces.push (.plain (opcode.bytes ++ bytes)) := by
  have handled : operandWithHandles operand =
      (pure (operand.mapTargets fun _ => 0) : Action (Encoder Emitter) (Operand Nat)) := by
    cases isLiteral <;> rfl
  obtain ⟨log, noted⟩ := run_note ("    " ++ opcode.mnemonic ++
    if (operand.mapTargets fun _ => 0).isNone then ""
    else " " ++ (operand.mapTargets fun _ => 0).textWith (CodeSink.labelText encoder.sink) "[" "]")
      encoder
  obtain ⟨sink, bytes, emitted, encoding, interned, pieces⟩ := Emitter.run_emit_of_isLiteral brings
    (isLiteral.mapTargets fun _ => 0) empty
  have request : run (CodeSink.emit opcode (operand.mapTargets fun _ => 0)) encoder.sink =
    (.ok (), sink) := emitted
  refine ⟨{ encoder with log := log, sink := sink }, bytes, ?_, encoding, interned, pieces⟩
  simp only [encodeInstruction, checkRaw_of_isLiteral brings isLiteral, handled, emit, run_bind,
    run_ofExcept, run_pure, run_get, noted, run_onSink, request]

end Encoder

namespace EmittedBody

/-- The strings of finished code under their tokens. -/
def symbols (body : EmittedBody) : SymbolTable :=
  ⟨body.strings.map fun (text, token) => (token, .string text)⟩

theorem string_symbols {body : EmittedBody} (distinct : (body.strings.map Prod.snd).Nodup)
    {text : String} {token : Token} (known : body.strings.lookup text = some token) :
    body.symbols.resolver.string token = .ok text := by
  obtain ⟨front, back, split, _⟩ := List.lookup_eq_some_iff.mp known
  have member : (text, token) ∈ body.strings := by
    rw [split]
    exact List.mem_append_right _ List.mem_cons_self
  have tokens : (body.symbols.entries.map Prod.fst).Nodup := by
    rw [symbols, List.map_map]
    exact distinct
  have found : body.symbols.find? token = some (.string text) :=
    lookup_of_mem tokens (List.mem_map_of_mem member)
  change body.symbols.select token _ = _
  rw [SymbolTable.select, found]
  rfl

theorem answersFor_symbols {body : EmittedBody} (distinct : (body.strings.map Prod.snd).Nodup)
    {Target : Type} {operand : Operand Target} {kind : OperandKind}
    (isLiteral : operand.IsLiteral kind) (context : GenericContext) :
    body.symbols.resolver.AnswersFor context body.strings operand := by
  cases isLiteral with
  | none | immediate => trivial
  | string text => exact fun token known => string_symbols distinct known

end EmittedBody

namespace BodyReader

variable {reader : BodyReader}

theorem form_of_isLiteral {opcode : Opcode} {operand : Operand Nat} {kind : OperandKind}
    {strings : UserStrings} {bytes : List UInt8} (brings : opcode.Brings kind)
    (isLiteral : operand.IsLiteral kind)
    (encoding : Emitter.operandEncoding strings operand = some bytes)
    (answers : reader.resolver.AnswersFor reader.context strings.entries.toList operand) :
    InstructionForm reader ⟨0, opcode, operand⟩ (opcode.bytes ++ bytes) := by
  obtain ⟨mnemonic, known⟩ := brings.info
  have lifted := @lift_of_untyped reader opcode brings.untyped operand
  refine .intro known brings.ne_calli ?_ (lift_isOk_iff.mp ⟨_, lifted⟩)
  cases isLiteral with
  | none =>
      cases encoding
      exact .none
  | immediate value =>
      cases encoding
      exact .immediate value
  | string text =>
      obtain ⟨token, found, rfl⟩ := Option.map_eq_some_iff.mp encoding
      exact .string (answers token found)

theorem OperandForm.bytes_of_none {next : Nat} {kind : OperandKind} {bytes : List UInt8}
    (form : OperandForm reader next kind .none bytes) : bytes = [] := by
  cases form
  rfl

theorem OperandForm.bytes_of_immediate {next : Nat} {kind : OperandKind} {value : Immediate}
    {bytes : List UInt8} (form : OperandForm reader next kind (.immediate value) bytes) :
    bytes = value.bytes := by
  cases form
  rfl

theorem length_of_constantForm {entry : Entry} {bytes : List UInt8}
    (form : InstructionForm reader entry bytes) {constant : ConstantForm}
    (sameOpcode : entry.opcode = constant.opcode)
    (sameOperand : entry.operand = constant.operand) : bytes.length = constant.size := by
  cases form with
  | intro known noCall form declared =>
      rw [List.length_append, sameOpcode, constant.length_bytes_opcode]
      rw [sameOperand] at form
      cases constant with
      | minusOne | digit => rw [form.bytes_of_none]; rfl
      | short | long =>
          rw [form.bytes_of_immediate, Immediate.bytes, LittleEndian.length_toBytes]
          rfl

end BodyReader

theorem Instruction.int32Constant?_mapTargets {Target Renamed : Type}
    (instruction : Instruction Target) (rename : Target → Renamed) :
    (instruction.mapTargets rename).int32Constant? = instruction.int32Constant? := by
  cases instruction with
  | raw opcode operand =>
      cases operand with
      | immediate value => cases value <;> rfl
      | _ => rfl
  | _ => rfl

namespace Body

variable {code : List UInt8} {declarations : List LocalDeclaration} {resolver : Resolver}
  {context : GenericContext} {body : Body}

theorem exists_form_of_decode (done : decode code declarations resolver context = .ok body)
    {read : Instruction Label} (member : read ∈ body.instructions) {number : Int32}
    (loads : read.int32Constant? = some number) :
    ∃ form : ConstantForm, form.value = number ∧ form.size ≤ code.length := by
  obtain ⟨entry, part, lifted, label, form, stands, lifts, rfl⟩ := stands_of_decode done member
  rw [Instruction.int32Constant?_mapTargets] at loads
  obtain ⟨constant, rfl, same⟩ := ConstantForm.exists_form loads
  obtain ⟨sameOpcode, sameOperand, _⟩ := BodyReader.lift_eq_raw lifts
  have length := BodyReader.length_of_constantForm form sameOpcode.symm sameOperand.symm
  have bound := stands.le_length
  exact ⟨constant, same, by omega⟩

end Body

section Survival

variable {opcode : Opcode} {operand : Operand Label} {kind : OperandKind} {strings : UserStrings}
  {bytes : List UInt8}

theorem decode_of_isLiteral (brings : opcode.Brings kind) (isLiteral : operand.IsLiteral kind)
    (encoding : Emitter.operandEncoding strings (operand.mapTargets fun _ => 0) = some bytes)
    {resolver : Resolver} {context : GenericContext}
    (answers : resolver.AnswersFor context strings.entries.toList operand)
    (declarations : List LocalDeclaration) :
    Body.decode (opcode.bytes ++ bytes) declarations resolver context =
      .ok ⟨BodyReader.localsOf declarations, [.code (.raw opcode operand)]⟩ := by
  rw [← answersFor_mapTargets operand fun _ => 0] at answers
  have form := @BodyReader.form_of_isLiteral
    ⟨resolver, context, BodyReader.localsOf declarations⟩ _ _ _ _ _ brings
    (isLiteral.mapTargets fun _ => 0) encoding answers
  obtain ⟨label, done⟩ := Body.decode_single form (BodyReader.lift_of_untyped brings.untyped _)
    (isLiteral.mapTargets fun _ => 0).targets
  have same : (operand.mapTargets fun _ => 0).mapTargets label = operand := by
    cases isLiteral <;> rfl
  rw [done, Instruction.mapTargets, same]

theorem length_le_of_loads {form : ConstantForm}
    (encoding : Emitter.operandEncoding strings
      ((form.operand : Operand Label).mapTargets fun _ => 0) = some bytes)
    (smallest : ∀ other : ConstantForm, other.value = form.value → form.size ≤ other.size)
    {code : List UInt8} {declarations : List LocalDeclaration} {resolver : Resolver}
    {context : GenericContext} {body : Body}
    (done : Body.decode code declarations resolver context = .ok body)
    {read : Instruction Label} (member : read ∈ body.instructions)
    (loads : read.int32Constant? = some form.value) :
    (form.opcode.bytes ++ bytes).length ≤ code.length := by
  have same : (form.operand : Operand Label).mapTargets (fun _ => 0) =
      (form.operand : Operand Nat) := by
    cases form <;> rfl
  rw [same] at encoding
  have answers : resolver.AnswersFor context strings.entries.toList
      (form.operand : Operand Nat) := by
    cases form <;> trivial
  have written := @BodyReader.form_of_isLiteral
    ⟨resolver, context, BodyReader.localsOf declarations⟩ _ _ _ _ _ form.brings form.isLiteral
    encoding answers
  rw [BodyReader.length_of_constantForm written rfl rfl]
  obtain ⟨other, value, room⟩ := Body.exists_form_of_decode done member loads
  exact Nat.le_trans (smallest other value) room

end Survival

/-- A captured value that has a literal gets into code and out of it again.  The
resolver has to know the string by the token that the emitter gave it, as the
strings of the finished code do when the emitter had none before.  Any code in
which the number of a small value is loaded is at least as long. -/
theorem literal_reads_back_in_smallest_form {value : CapturedValue}
    {instruction : Instruction Label} (literal : value.literal? = some instruction)
    {encoder : Encoder Emitter} (noCode : encoder.sink.pieces = #[])
    (emptyStack : encoder.sink.depth = 0) :
    instruction.LoadsValue value ∧
      ∃ after emitted, run (Encoder.encodeInstruction instruction) encoder = (.ok (), after) ∧
        after.sink.finish = .ok emitted ∧
        (∀ declarations resolver context,
          resolver.AnswersFor context emitted.strings instruction.named →
            Body.decode emitted.code declarations resolver context =
              .ok ⟨BodyReader.localsOf declarations, [.code instruction]⟩) ∧
        (encoder.sink.strings.entries = #[] → ∀ declarations context,
          Body.decode emitted.code declarations emitted.symbols.resolver context =
            .ok ⟨BodyReader.localsOf declarations, [.code instruction]⟩) ∧
        ∀ number, value.number? = some number →
          ∀ code declarations resolver context body,
            Body.decode code declarations resolver context = .ok body →
              (∃ read ∈ body.instructions, read.int32Constant?.map Int32.toInt = some number) →
                emitted.code.length ≤ code.length := by
  have loadsValue := Instruction.loadsValue_of_literal literal
  obtain ⟨opcode, operand, kind, rfl, brings, isLiteral⟩ := CapturedValue.exists_operand literal
  obtain ⟨after, bytes, encoded, encoding, interned, pieces⟩ :=
    Encoder.run_encodeInstruction_of_isLiteral brings isLiteral emptyStack
  rw [noCode] at pieces
  refine ⟨loadsValue, after, _, encoded, Emitter.finish_of_single pieces, ?_, ?_, ?_⟩
  · intro declarations resolver context answers
    exact decode_of_isLiteral brings isLiteral encoding answers declarations
  · intro unseeded declarations context
    have distinct : (after.sink.strings.entries.toList.map Prod.snd).Nodup := by
      rw [interned]
      exact Emitter.nodup_stringsAfter unseeded _
    exact decode_of_isLiteral brings isLiteral encoding
      (EmittedBody.answersFor_symbols distinct isLiteral context) declarations
  · rintro number isNumber code declarations resolver context body done ⟨read, member, loads⟩
    obtain ⟨constant, isConstant, counted⟩ := CapturedValue.exists_constant literal isNumber
    obtain ⟨form, chosen, rfl, smallest⟩ := @ConstantForm.exists_smallest Label constant
    obtain ⟨rfl, rfl⟩ := Instruction.raw.inj (isConstant.trans chosen)
    obtain ⟨found, isFound, foundNumber⟩ := Option.map_eq_some_iff.mp loads
    rw [Int32.toInt_inj.mp (foundNumber.trans counted.symm)] at isFound
    exact length_le_of_loads encoding smallest done member isFound

namespace LiteralsSample

def encoder : Encoder Emitter :=
  Encoder.onto Emitter.empty EncoderOptions.standard

/-- An unsigned number that is loaded as -200. -/
def number : CapturedValue := .uint32 0xFFFFFF38

def text : CapturedValue := .string "text"

def loadNumber : Instruction Label := .raw Opcode.ldcI4 (.immediate (.int32 (-200)))

def loadText : Instruction Label := .raw Opcode.ldstr (.string "text")

end LiteralsSample

open LiteralsSample in
theorem literal_reads_back_in_smallest_form_of_number_and_text :
    number.literal? = some loadNumber ∧ text.literal? = some loadText ∧
      encoder.sink.pieces = #[] ∧ encoder.sink.depth = 0 ∧ encoder.sink.strings.entries = #[] ∧
      (∃ after emitted, run (Encoder.encodeInstruction loadText) encoder = (.ok (), after) ∧
        after.sink.finish = .ok emitted ∧
        Body.decode emitted.code [] emitted.symbols.resolver ⟨[], []⟩ =
          .ok ⟨[], [.code loadText]⟩) ∧
      ∃ after emitted, run (Encoder.encodeInstruction loadNumber) encoder = (.ok (), after) ∧
        after.sink.finish = .ok emitted ∧
        ∀ code body, Body.decode code [] SymbolTable.empty.resolver ⟨[], []⟩ = .ok body →
          (∃ read ∈ body.instructions, read.int32Constant?.map Int32.toInt = some (-200)) →
            emitted.code.length ≤ code.length := by
  have isNumber : number.literal? = some loadNumber := by decide
  have isText : text.literal? = some loadText := by decide
  obtain ⟨_, after, emitted, encoded, finished, _, reads, _⟩ :=
    literal_reads_back_in_smallest_form isText (rfl : encoder.sink.pieces = #[]) rfl
  obtain ⟨_, afterNumber, short, encodedNumber, finishedNumber, _, _, smallest⟩ :=
    literal_reads_back_in_smallest_form isNumber (rfl : encoder.sink.pieces = #[]) rfl
  exact ⟨isNumber, isText, rfl, rfl, rfl, ⟨after, emitted, encoded, finished, reads rfl [] _⟩,
    afterNumber, short, encodedNumber, finishedNumber,
    fun code body => smallest (-200) (by decide) code [] _ _ body⟩

end CilTemplate
