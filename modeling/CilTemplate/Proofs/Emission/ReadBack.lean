import CilTemplate.Proofs.Bytes.Reading
import CilTemplate.Proofs.Code.KnownOpcodes
import CilTemplate.Proofs.Code.TypedForms
import CilTemplate.Proofs.Emission.Encode
import CilTemplate.Proofs.Emission.Layout

/-
Laid out code read again, piece by piece.
-/

namespace CilTemplate

open CilTemplate.Action

/-- The resolver answers for what an operand names with just that, and it is no
open generic parameter. -/
def Resolver.AnswersFor {Target : Type} (resolver : Resolver) (context : GenericContext)
    (strings : List (String × Token)) : Operand Target → Prop
  | .type type =>
      resolver.type type.token context = .ok type ∧ type.genericParameter? = none
  | .field field =>
      resolver.field field.token context = .ok field ∧ field.owner.genericParameter? = none ∧
        field.type.genericParameter? = none
  | .method method =>
      resolver.method method.token context = .ok method ∧ method.owner.genericParameter? = none
  | .string text => ∀ token, strings.lookup text = some token → resolver.string token = .ok text
  | .symbol symbol => resolver.symbol symbol.token context = .ok symbol
  | _ => True

namespace Opcode

variable {opcode : Opcode} {info : OpcodeInfo} {code : List UInt8} {position : Nat}

theorem run_readByte {byte : UInt8} (stands : StandsAt code position [byte]) :
    run (Cursor.readNumber 1) (Cursor.within code position) =
      (.ok byte.toNat, Cursor.within code (position + 1)) := by
  apply Cursor.run_readNumber
  · simp only [LittleEndian.toBytes, UInt8.ofNat_toNat]
    exact stands
  · have bound := byte.toNat_lt
    simp only [LittleEndian.capacity]
    omega

theorem run_read (found : opcode.info? = some info)
    (stands : StandsAt code position opcode.bytes) :
    run read (Cursor.within code position) =
      (.ok (opcode, info), Cursor.within code (position + opcode.bytes.length)) := by
  have reserved : (ofByte extensionByte).info? = none := by decide +kernel
  rcases eq_ofByte_or_eq_ofExtended found with ⟨same, bytes⟩ | ⟨same, bytes⟩
  · rw [bytes] at stands ⊢
    have first := run_readByte stands
    have noExtension : ¬ opcode.code.toNat = extensionByte.toNat := by
      intro extension
      have codeEq : opcode.code = extensionByte := UInt8.toNat_inj.mp extension
      rw [same, codeEq, reserved] at found
      cases found
    have whole : ofByte opcode.code.toNat.toUInt8 = opcode := by
      rw [Nat.toUInt8_eq, UInt8.ofNat_toNat, ← same]
    simp only [read, run_bind, first, if_neg noExtension, run_pure, whole, found]
    rfl
  · rw [bytes] at stands ⊢
    have first := run_readByte (@StandsAt.append_left _ [extensionByte] [opcode.code] _ stands)
    have second := run_readByte (@StandsAt.append_right _ [extensionByte] [opcode.code] _ stands)
    have whole : ofExtended opcode.code.toNat.toUInt8 = opcode := by
      rw [Nat.toUInt8_eq, UInt8.ofNat_toNat, ← same]
    simp only [List.length_cons, List.length_nil] at second
    simp only [read, run_bind, first, if_true, second, run_pure, whole, found]
    rfl

end Opcode
namespace BodyReader

variable {reader : BodyReader} {opcode : Opcode} {info : OpcodeInfo} {operand : Operand Nat}
  {strings : UserStrings} {code bytes : List UInt8} {position : Nat}

theorem run_readToken {token : Token}
    (stands : StandsAt code position (Emitter.tokenBytes token)) :
    run readToken (Cursor.within code position) =
      (.ok token, Cursor.within code (position + 4)) := by
  have read := Cursor.run_readNumber stands token.value.toNat_lt
  simp only [readToken, run_bind, read, run_pure, Nat.toUInt32_eq, UInt32.ofNat_toNat]

theorem rejectOpenGeneric_ok {type : CilType} (closed : type.genericParameter? = none)
    (token : Token) : rejectOpenGeneric type token = .ok () := by
  rw [rejectOpenGeneric, closed]

theorem rejectOpenGeneric_eq_ok {type : CilType} {token : Token} {result : Unit}
    (done : rejectOpenGeneric type token = .ok result) : type.genericParameter? = none := by
  unfold rejectOpenGeneric at done
  split at done
  · cases done
  · assumption

theorem resolveType_eq_ok {token : Token} {type : CilType} :
    reader.resolveType token = .ok type ↔
      reader.resolver.type token reader.context = .ok type ∧ type.genericParameter? = none := by
  constructor
  · intro done
    obtain ⟨found, resolves, rest⟩ := bind_eq_ok.mp done
    obtain ⟨_, closed, same⟩ := bind_eq_ok.mp rest
    rw [← Except.ok.inj same]
    exact ⟨resolves, rejectOpenGeneric_eq_ok closed⟩
  · rintro ⟨resolves, closed⟩
    simp only [resolveType, resolves, bind, Except.bind, rejectOpenGeneric_ok closed]
    rfl

theorem resolveField_eq_ok {token : Token} {field : Field} :
    reader.resolveField token = .ok field ↔
      reader.resolver.field token reader.context = .ok field ∧
        field.owner.genericParameter? = none ∧ field.type.genericParameter? = none := by
  constructor
  · intro done
    obtain ⟨found, resolves, rest⟩ := bind_eq_ok.mp done
    obtain ⟨_, ownerClosed, rest⟩ := bind_eq_ok.mp rest
    obtain ⟨_, typeClosed, same⟩ := bind_eq_ok.mp rest
    rw [← Except.ok.inj same]
    exact ⟨resolves, rejectOpenGeneric_eq_ok ownerClosed, rejectOpenGeneric_eq_ok typeClosed⟩
  · rintro ⟨resolves, ownerClosed, typeClosed⟩
    simp only [resolveField, resolves, bind, Except.bind, rejectOpenGeneric_ok ownerClosed,
      rejectOpenGeneric_ok typeClosed]
    rfl

theorem resolveMethod_eq_ok {token : Token} {method : Method} :
    reader.resolveMethod token = .ok method ↔
      reader.resolver.method token reader.context = .ok method ∧
        method.owner.genericParameter? = none := by
  constructor
  · intro done
    obtain ⟨found, resolves, rest⟩ := bind_eq_ok.mp done
    obtain ⟨_, closed, same⟩ := bind_eq_ok.mp rest
    rw [← Except.ok.inj same]
    exact ⟨resolves, rejectOpenGeneric_eq_ok closed⟩
  · rintro ⟨resolves, closed⟩
    simp only [resolveMethod, resolves, bind, Except.bind, rejectOpenGeneric_ok closed]
    rfl

/-- What a token stands for behind an opcode that asks for an operand of a
kind. -/
inductive Denotes (reader : BodyReader) (token : Token) : OperandKind → Operand Nat → Prop
  | type {type : CilType} (resolved : reader.resolveType token = .ok type) :
      Denotes reader token .type (.type type)
  | field {field : Field} (resolved : reader.resolveField token = .ok field) :
      Denotes reader token .field (.field field)
  | method {method : Method} (resolved : reader.resolveMethod token = .ok method) :
      Denotes reader token .method (.method method)
  | string {text : String} (resolved : reader.resolver.string token = .ok text) :
      Denotes reader token .string (.string text)
  | symbol {symbol : Symbol}
      (resolved : reader.resolver.symbol token reader.context = .ok symbol) :
      Denotes reader token .token (.symbol symbol)

theorem run_readOperand_of_denotes {token : Token} (noCall : opcode ≠ Opcode.calli)
    (denotes : Denotes reader token info.operand operand)
    (stands : StandsAt code position (Emitter.tokenBytes token)) :
    run (reader.readOperand opcode info) (Cursor.within code position) =
      (.ok operand, Cursor.within code (position + (Emitter.tokenBytes token).length)) := by
  generalize kind : info.operand = expected at denotes
  cases denotes with
  | type resolved | field resolved | method resolved | string resolved | symbol resolved =>
      simp only [readOperand, if_neg noCall, run_bind, run_pure, kind, run_readToken stands,
        run_ofExcept, resolved]
      rfl

theorem run_readImmediate {value : Immediate} (noCall : opcode ≠ Opcode.calli)
    (kind : info.operand = value.kind) (stands : StandsAt code position value.bytes) :
    run (reader.readOperand opcode info) (Cursor.within code position) =
      (.ok (.immediate value), Cursor.within code (position + value.bytes.length)) := by
  cases value with
  | int8 value =>
      have read := Cursor.run_readNumber stands value.toUInt8.toNat_lt
      simp only [readOperand, if_neg noCall, run_bind, run_pure, kind, Immediate.kind, read,
        Immediate.bytes, LittleEndian.length_toBytes]
      simp
  | uint8 value =>
      have read := Cursor.run_readNumber stands value.toNat_lt
      simp only [readOperand, if_neg noCall, run_bind, run_pure, kind, Immediate.kind, read,
        Immediate.bytes, LittleEndian.length_toBytes]
      simp
  | uint16 value =>
      have read := Cursor.run_readNumber stands value.toNat_lt
      simp only [readOperand, if_neg noCall, run_bind, run_pure, kind, Immediate.kind, read,
        Immediate.bytes, LittleEndian.length_toBytes]
      simp
  | int32 value =>
      have read := Cursor.run_readNumber stands value.toUInt32.toNat_lt
      simp only [readOperand, if_neg noCall, run_bind, run_pure, kind, Immediate.kind, read,
        Immediate.bytes, LittleEndian.length_toBytes]
      simp
  | int64 value =>
      have read := Cursor.run_readNumber stands value.toUInt64.toNat_lt
      simp only [readOperand, if_neg noCall, run_bind, run_pure, kind, Immediate.kind, read,
        Immediate.bytes, LittleEndian.length_toBytes]
      simp
  | float32 bits =>
      have read := Cursor.run_readNumber stands bits.toNat_lt
      simp only [readOperand, if_neg noCall, run_bind, run_pure, kind, Immediate.kind, read,
        Immediate.bytes, LittleEndian.length_toBytes]
      simp
  | float64 bits =>
      have read := Cursor.run_readNumber stands bits.toNat_lt
      simp only [readOperand, if_neg noCall, run_bind, run_pure, kind, Immediate.kind, read,
        Immediate.bytes, LittleEndian.length_toBytes]
      simp

theorem run_readPlain (noCall : opcode ≠ Opcode.calli) (fits : operand.fits info.operand = true)
    (encoding : Emitter.operandEncoding strings operand = some bytes)
    (answers : reader.resolver.AnswersFor reader.context strings.entries.toList operand)
    (stands : StandsAt code position bytes) :
    run (reader.readOperand opcode info) (Cursor.within code position) =
      (.ok operand, Cursor.within code (position + bytes.length)) := by
  cases operand with
  | none =>
      have kind : info.operand = .none := by simpa [Operand.fits] using fits
      have empty : bytes = [] := (Option.some.inj encoding).symm
      simp only [readOperand, if_neg noCall, run_pure, kind, empty]
      rfl
  | immediate value =>
      have kind : info.operand = value.kind := by simpa [Operand.fits] using fits
      rw [← Option.some.inj encoding] at stands ⊢
      exact run_readImmediate noCall kind stands
  | type type =>
      have kind : info.operand = .type := by simpa [Operand.fits] using fits
      rw [← Option.some.inj encoding] at stands ⊢
      have denotes : Denotes reader type.token .type (.type type) :=
        .type (resolveType_eq_ok.mpr answers)
      exact run_readOperand_of_denotes noCall (kind ▸ denotes) stands
  | field field =>
      have kind : info.operand = .field := by simpa [Operand.fits] using fits
      rw [← Option.some.inj encoding] at stands ⊢
      have denotes : Denotes reader field.token .field (.field field) :=
        .field (resolveField_eq_ok.mpr answers)
      exact run_readOperand_of_denotes noCall (kind ▸ denotes) stands
  | method method =>
      have kind : info.operand = .method := by simpa [Operand.fits] using fits
      rw [← Option.some.inj encoding] at stands ⊢
      have denotes : Denotes reader method.token .method (.method method) :=
        .method (resolveMethod_eq_ok.mpr answers)
      exact run_readOperand_of_denotes noCall (kind ▸ denotes) stands
  | string text =>
      have kind : info.operand = .string := by simpa [Operand.fits] using fits
      obtain ⟨token, interned, rfl⟩ := Option.map_eq_some_iff.mp encoding
      have denotes : Denotes reader token .string (.string text) :=
        .string (answers token interned)
      exact run_readOperand_of_denotes noCall (kind ▸ denotes) stands
  | symbol symbol =>
      have kind : info.operand = .token := by simpa [Operand.fits] using fits
      rw [← Option.some.inj encoding] at stands ⊢
      have denotes : Denotes reader symbol.token .token (.symbol symbol) := .symbol answers
      exact run_readOperand_of_denotes noCall (kind ▸ denotes) stands
  | signature blob => cases encoding
  | label target => cases encoding
  | switch targets => cases encoding

theorem branchTarget_eq {address : Nat} {distance : Int}
    (there : (address : Int) = position + distance) (bound : address ≤ code.length) :
    branchTarget (Cursor.within code position) distance = .ok address := by
  have inside : ¬ ((address : Int) < 0 ∨ (code.length : Int) < address) := by omega
  have length : (Cursor.within code position).length = code.length := List.size_toArray
  have place : (Cursor.within code position).position = position := rfl
  simp only [branchTarget, length, place, ← there, if_neg inside, Int.toNat_natCast]

theorem run_readTarget {width address : Nat} {distance : Int}
    (stands : StandsAt code position (Layout.offsetBytes width distance))
    (low : -(LittleEndian.capacity width : Int) ≤ 2 * distance)
    (high : 2 * distance < LittleEndian.capacity width)
    (there : (address : Int) = (position + width : Nat) + distance)
    (bound : address ≤ code.length) :
    run (readTarget width) (Cursor.within code position) =
      (.ok address, Cursor.within code (position + width)) := by
  have read := Cursor.run_readScalar stands low high
  simp only [readTarget, readOffset, run_bind, read, run_get, run_ofExcept,
    branchTarget_eq there bound]

theorem run_readOffsets {distances : List Int}
    (stands : StandsAt code position (distances.flatMap (Layout.offsetBytes 4)))
    (inRange : ∀ distance ∈ distances, -0x80000000 ≤ distance ∧ distance < 0x80000000) :
    run (readOffsets distances.length) (Cursor.within code position) =
      (.ok distances, Cursor.within code (position + 4 * distances.length)) := by
  induction distances generalizing position with
  | nil => rfl
  | cons distance rest inductionHypothesis =>
      rw [List.flatMap_cons] at stands
      have capacity : LittleEndian.capacity 4 = 0x100000000 := rfl
      obtain ⟨low, high⟩ := inRange distance List.mem_cons_self
      have first := @Cursor.run_readScalar code position 4 distance stands.append_left
        (by rw [capacity]; omega) (by rw [capacity]; omega)
      have behind := stands.append_right
      rw [Layout.length_offsetBytes] at behind
      have others := inductionHypothesis behind
        fun other member => inRange other (List.mem_cons_of_mem _ member)
      simp only [List.length_cons, readOffsets, readOffset, run_bind, first, others, run_pure]
      congr 2
      omega

theorem run_readSwitch {targets : List Nat} {distances : List Int}
    (stands : StandsAt code position (LittleEndian.toBytes 4 distances.length ++
      distances.flatMap (Layout.offsetBytes 4)))
    (small : distances.length ≤ 0xFFFFFFFF)
    (inRange : ∀ distance ∈ distances, -0x80000000 ≤ distance ∧ distance < 0x80000000)
    (resolved : distances.mapM (branchTarget
      (Cursor.within code (position + 4 + 4 * distances.length))) = .ok targets) :
    run readSwitch (Cursor.within code position) =
      (.ok targets, Cursor.within code (position + 4 + 4 * distances.length)) := by
  have count := Cursor.run_readNumber stands.append_left
    (Nat.lt_of_le_of_lt small (by decide : 0xFFFFFFFF < LittleEndian.capacity 4))
  have behind := stands.append_right
  rw [LittleEndian.length_toBytes] at behind
  have offsets := run_readOffsets behind inRange
  have enough : ¬ (Cursor.within code (position + 4)).remaining < 4 * distances.length := by
    have fits := behind.le_length
    have length : (distances.flatMap (Layout.offsetBytes 4)).length = 4 * distances.length :=
      Layout.length_table distances
    have size : (Cursor.within code (position + 4)).length = code.length := List.size_toArray
    rw [length] at fits
    simp only [Cursor.remaining, size]
    have place : (Cursor.within code (position + 4)).position = position + 4 := rfl
    omega
  simp only [readSwitch, Cursor.ensureRemaining, run_bind, run_get, run_pure, count,
    if_neg enough, offsets, run_ofExcept, resolved]

theorem run_readInstruction {length : Nat} (found : opcode.info? = some info)
    (stands : StandsAt code position opcode.bytes)
    (read : run (reader.readOperand opcode info)
      (Cursor.within code (position + opcode.bytes.length)) =
        (.ok operand, Cursor.within code (position + opcode.bytes.length + length))) :
    run reader.readInstruction (Cursor.within code position) =
      (reader.lift opcode operand,
        Cursor.within code (position + (opcode.bytes.length + length))) := by
  simp only [readInstruction, run_bind, Opcode.run_read found stands, read, run_ofExcept,
    Nat.add_assoc]

end BodyReader
namespace Layout

open Piece (startOf)

variable {layout : Layout} {code : List UInt8} {parts : List (List UInt8)}

theorem Parts.length_take (split : Parts layout code parts) {index : Nat}
    (bound : index ≤ layout.pieces.length) :
    (parts.take index).flatten.length = startOf layout.pieces index := by
  induction index with
  | zero => simp [startOf]
  | succ index inductionHypothesis =>
      have here := List.getElem?_eq_getElem (Nat.lt_of_succ_le bound)
      rcases split.each here with ⟨part, known, resolves⟩
      rw [Piece.startOf_succ here, ← inductionHypothesis (Nat.le_of_succ_le bound),
        List.take_add_one, known, List.flatten_append, List.length_append, ← resolves.length]
      simp

theorem Parts.length_code (split : Parts layout code parts) :
    code.length = startOf layout.pieces layout.pieces.length := by
  rw [← split.length_take (Nat.le_refl _), ← split.length, List.take_length, split.code_eq]

theorem Parts.stands (split : Parts layout code parts) {index : Nat} {part : List UInt8}
    (found : parts[index]? = some part) :
    StandsAt code (startOf layout.pieces index) part := by
  obtain ⟨bound, same⟩ := List.getElem?_eq_some_iff.mp found
  have whole : parts = parts.take index ++ part :: parts.drop (index + 1) := by
    rw [← same, ← List.drop_eq_getElem_cons bound, List.take_append_drop]
  refine ⟨(parts.take index).flatten, (parts.drop (index + 1)).flatten, ?_, ?_⟩
  · have flat := congrArg List.flatten whole
    rw [List.flatten_append, List.flatten_cons] at flat
    rw [split.code_eq, List.append_assoc]
    exact flat
  · exact split.length_take (by rw [← split.length]; exact Nat.le_of_lt bound)

theorem startOf_lt {pieces : List Piece} (nonempty : ∀ piece ∈ pieces, 0 < piece.size)
    {left right : Nat} (order : left < right) (bound : right ≤ pieces.length) :
    startOf pieces left < startOf pieces right := by
  have here := List.getElem?_eq_getElem (Nat.lt_of_lt_of_le order bound)
  have grows := nonempty _ (List.mem_of_getElem? here)
  have next := @startOf_le pieces _ _ (Nat.succ_le_of_lt order)
  rw [Piece.startOf_succ here] at next
  omega

def addressOf (layout : Layout) (label : Nat) : Nat :=
  (layout.marks[label]?.join.map (startOf layout.pieces)).getD 0

theorem Reaches.addressOf_eq {next label place : Nat} {distance : Int}
    (reaches : layout.Reaches next label place distance) :
    layout.addressOf label = startOf layout.pieces place := by
  rw [addressOf, reaches.marked]
  rfl

theorem Reaches.marked_label {next label place : Nat} {distance : Int}
    (reaches : layout.Reaches next label place distance) :
    ∀ target ∈ (Operand.label label).targets, ∃ place,
      layout.marks[target]? = some (some place) ∧ place ≤ layout.pieces.length := by
  intro target member
  rw [List.mem_singleton.mp member]
  exact ⟨place, reaches.marked, reaches.bound⟩

theorem Reaches.there {next label place : Nat} {distance : Int}
    (reaches : layout.Reaches next label place distance) (split : Parts layout code parts) :
    (layout.addressOf label : Int) = next + distance ∧ layout.addressOf label ≤ code.length := by
  have range := @startOf_le layout.pieces _ _ reaches.bound
  rw [reaches.addressOf_eq, split.length_code, reaches.distance_eq]
  exact ⟨by omega, range⟩

end Layout

section Pieces

variable {reader : BodyReader} {strings : UserStrings} {layout : Layout} {code : List UInt8}
  {parts : List (List UInt8)} {index : Nat} {opcode : Opcode} {info : OpcodeInfo}
  {operand : Operand Nat} {piece narrow : Piece}

theorem no_calli_of_known : ∀ entry ∈ Opcode.known, entry.1 = Opcode.calli →
    entry.2.operand = .signature := by
  decide +kernel

theorem switch_of_known : ∀ entry ∈ Opcode.known, entry.2.operand = .switch →
    entry.1 = Opcode.switch := by
  decide +kernel

theorem info?_of_narrowed? {short : Opcode} (narrowing : opcode.narrowed? = some short) :
    ∃ info, short.info? = some info ∧ info.operand = .shortBranch := by
  have leaves : Opcode.leaveS.info?.map OpcodeInfo.operand = some .shortBranch := by
    decide +kernel
  have branches : ∀ condition ∈ BranchCondition.all,
      condition.shortOpcode.info?.map OpcodeInfo.operand = some .shortBranch := by
    decide +kernel
  have narrow : short.info?.map OpcodeInfo.operand = some .shortBranch := by
    unfold Opcode.narrowed? at narrowing
    split at narrowing
    · rw [← Option.some.inj narrowing]
      exact leaves
    · obtain ⟨condition, _, chosen⟩ := Option.bind_eq_some_iff.mp narrowing
      split at chosen
      · rw [← Option.some.inj chosen]
        exact branches condition condition.mem_all
      · cases chosen
  exact Option.map_eq_some_iff.mp narrow

/-- A distance has the width of the operand that a branch writes it in. -/
inductive WrittenIn (distance : Int) : OperandKind → Nat → Prop
  | long : WrittenIn distance .branch 4
  | short (fits : Layout.fitsByte distance = true) : WrittenIn distance .shortBranch 1

theorem WrittenIn.within {distance : Int} {kind : OperandKind} {width next target place : Nat}
    (writtenIn : WrittenIn distance kind width)
    (reaches : layout.Reaches next target place distance) :
    -(LittleEndian.capacity width : Int) ≤ 2 * distance ∧
      2 * distance < LittleEndian.capacity width := by
  cases writtenIn with
  | long =>
      have low := reaches.low
      have high := reaches.high
      have capacity : LittleEndian.capacity 4 = 0x100000000 := rfl
      rw [capacity]
      omega
  | short fits =>
      have range := of_decide_eq_true fits
      have capacity : LittleEndian.capacity 1 = 256 := rfl
      rw [capacity]
      omega

theorem run_readBranch {width target place position : Nat} {distance : Int}
    (known : opcode.info? = some info) (writtenIn : WrittenIn distance info.operand width)
    (split : Layout.Parts layout code parts)
    (stands : StandsAt code position (opcode.bytes ++ Layout.offsetBytes width distance))
    (reaches : layout.Reaches
      (position + (opcode.bytes ++ Layout.offsetBytes width distance).length) target place
        distance) :
    run reader.readInstruction (Cursor.within code position) =
      (reader.lift opcode (.label (layout.addressOf target)),
        Cursor.within code
          (position + (opcode.bytes ++ Layout.offsetBytes width distance).length)) := by
  have noCall : opcode ≠ Opcode.calli := by
    intro isCall
    have signature := no_calli_of_known _ (Opcode.mem_known_of_info? known) isCall
    simp only at signature
    rw [signature] at writtenIn
    cases writtenIn
  rcases writtenIn.within reaches with ⟨low, high⟩
  rcases reaches.there split with ⟨there, bound⟩
  rw [List.length_append, Layout.length_offsetBytes, ← Nat.add_assoc] at there
  have target := BodyReader.run_readTarget stands.append_right low high there bound
  rw [List.length_append, Layout.length_offsetBytes]
  apply BodyReader.run_readInstruction known stands.append_left
  cases kind : info.operand with
  | branch =>
      rw [kind] at writtenIn
      cases writtenIn
      simp only [BodyReader.readOperand, if_neg noCall, run_bind, run_pure, kind, target]
  | shortBranch =>
      rw [kind] at writtenIn
      cases writtenIn
      simp only [BodyReader.readOperand, if_neg noCall, run_bind, run_pure, kind, target]
  | _ =>
      rw [kind] at writtenIn
      cases writtenIn

theorem run_readTable {targets : List Nat} {distances : List Int} {position : Nat}
    (known : Opcode.switch.info? = some info) (kind : info.operand = .switch)
    (small : targets.length ≤ 0xFFFFFFFF) (split : Layout.Parts layout code parts)
    (length : distances.length = targets.length)
    (stands : StandsAt code position (Opcode.switch.bytes ++
      LittleEndian.toBytes 4 targets.length ++ distances.flatMap (Layout.offsetBytes 4)))
    (each : ∀ {index target : Nat} {distance : Int}, targets[index]? = some target →
      distances[index]? = some distance → ∃ place, layout.Reaches (position +
        (Opcode.switch.bytes ++ LittleEndian.toBytes 4 targets.length ++
          distances.flatMap (Layout.offsetBytes 4)).length) target place distance) :
    run reader.readInstruction (Cursor.within code position) =
      (reader.lift Opcode.switch (.switch (targets.map layout.addressOf)),
        Cursor.within code (position + (Opcode.switch.bytes ++
          LittleEndian.toBytes 4 targets.length ++
            distances.flatMap (Layout.offsetBytes 4)).length)) := by
  have size : (Opcode.switch.bytes ++ LittleEndian.toBytes 4 targets.length ++
      distances.flatMap (Layout.offsetBytes 4)).length =
        Opcode.switch.bytes.length + (4 + 4 * distances.length) := by
    rw [List.length_append, List.length_append, LittleEndian.length_toBytes, Layout.length_table,
      Nat.add_assoc]
  rw [size] at each ⊢
  rw [List.append_assoc, ← length] at stands
  have inRange : ∀ distance ∈ distances, -0x80000000 ≤ distance ∧ distance < 0x80000000 := by
    intro distance member
    obtain ⟨index, bound, same⟩ := List.getElem_of_mem member
    have here := List.getElem?_eq_getElem (length ▸ bound)
    have there : distances[index]? = some distance := List.getElem?_eq_some_iff.mpr ⟨bound, same⟩
    rcases each here there with ⟨place, reaches⟩
    exact ⟨reaches.low, reaches.high⟩
  have resolved : distances.mapM (BodyReader.branchTarget (Cursor.within code
      (position + Opcode.switch.bytes.length + 4 + 4 * distances.length))) =
        .ok (targets.map layout.addressOf) := by
    apply mapM_of_each (by rw [List.length_map, length])
    intro index distance address there here
    rw [List.getElem?_map] at here
    obtain ⟨target, found, rfl⟩ := Option.map_eq_some_iff.mp here
    rcases each found there with ⟨place, reaches⟩
    rcases reaches.there split with ⟨reached, bound⟩
    exact BodyReader.branchTarget_eq (by rw [reached]; omega) bound
  apply BodyReader.run_readInstruction known stands.append_left
  have table := BodyReader.run_readSwitch stands.append_right (by rw [length]; exact small)
    inRange resolved
  have noCall : ¬ Opcode.switch = Opcode.calli := by decide
  simp only [BodyReader.readOperand, if_neg noCall, run_bind, run_pure, kind, table,
    Nat.add_assoc]

theorem run_readInstruction_of_piece (known : opcode.info? = some info)
    (writes : Emitter.Writes strings opcode info operand piece)
    (narrows : Piece.Narrows piece narrow)
    (answers : reader.resolver.AnswersFor reader.context strings.entries.toList operand)
    (split : Layout.Parts layout code parts) (found : layout.pieces[index]? = some narrow) :
    ∃ actual, (actual = opcode ∨
        opcode.narrowed? = some actual ∧ ∃ target, operand = .label target) ∧
      (∀ target ∈ operand.targets, ∃ place,
        layout.marks[target]? = some (some place) ∧ place ≤ layout.pieces.length) ∧
      run reader.readInstruction (Cursor.within code (Piece.startOf layout.pieces index)) =
        (reader.lift actual (operand.mapTargets layout.addressOf),
          Cursor.within code (Piece.startOf layout.pieces (index + 1))) := by
  rcases split.each found with ⟨part, there, resolves⟩
  have stands := split.stands there
  have next : Piece.startOf layout.pieces (index + 1) =
      Piece.startOf layout.pieces index + part.length := by
    rw [Piece.startOf_succ found, resolves.length]
  have entry := Opcode.mem_known_of_info? known
  have fitted := writes.fits
  rw [next] at resolves ⊢
  cases writes with
  | @plain _ bytes fits encoding =>
      cases narrows
      cases resolves
      have noTargets := Emitter.targets_of_operandEncoding encoding
      have noCall : opcode ≠ Opcode.calli :=
        fun isCall => fitted.2 (no_calli_of_known _ entry isCall)
      refine ⟨opcode, Or.inl rfl, by simp [noTargets], ?_⟩
      rw [Operand.mapTargets_of_targets_eq_nil noTargets, List.length_append]
      apply BodyReader.run_readInstruction known stands.append_left
      exact BodyReader.run_readPlain noCall fits encoding answers stands.append_right
  | @branch target kind =>
      cases narrows with
      | same =>
          cases resolves with
          | branch reaches =>
              exact ⟨opcode, Or.inl rfl, reaches.marked_label,
                run_readBranch known (kind ▸ .long) split stands reaches⟩
      | @branch _ short _ narrowing =>
          cases resolves with
          | narrowBranch reaches fits =>
              obtain ⟨shortInfo, shortKnown, shortKind⟩ := info?_of_narrowed? narrowing
              exact ⟨short, Or.inr ⟨narrowing, target, rfl⟩, reaches.marked_label,
                run_readBranch shortKnown (shortKind ▸ .short fits) split stands reaches⟩
  | @narrowBranch target kind =>
      cases narrows
      cases resolves with
      | narrowBranch reaches fits =>
          exact ⟨opcode, Or.inl rfl, reaches.marked_label,
            run_readBranch known (kind ▸ .short fits) split stands reaches⟩
  | @switch targets kind small =>
      cases narrows
      cases resolves with
      | @switch _ distances length each =>
          have isSwitch := switch_of_known _ entry kind
          simp only at isSwitch
          subst isSwitch
          refine ⟨Opcode.switch, Or.inl rfl, ?_,
            run_readTable known kind small split length stands each⟩
          intro target member
          obtain ⟨place, bound, same⟩ := List.getElem_of_mem member
          have here : targets[place]? = some target := List.getElem?_eq_some_iff.mpr ⟨bound, same⟩
          have there := List.getElem?_eq_getElem (length.symm ▸ bound)
          rcases each here there with ⟨mark, reaches⟩
          exact ⟨mark, reaches.marked, reaches.bound⟩

end Pieces
end CilTemplate
