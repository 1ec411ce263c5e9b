import CilTemplate.Proofs.Emission.ReadBack
import Mathlib.Data.List.Forall2

/-
The language of method bodies.  A body is a sequence of instructions up to its
end, each an opcode and behind it the operand that the opcode asks for.  A
token resolves, a local is declared and an offset leads to the start of an
instruction or to the end of the body.  The reader takes an instruction
exactly where one of this language stands.
-/

namespace CilTemplate

open CilTemplate.Action

namespace BodyReader

/-- A signed offset of some bytes that leads from an address to a target. -/
structure LeadsTo (next width : Nat) (offset : Int) (target : Nat) : Prop where
  target_eq : (target : Int) = next + offset
  low : -(LittleEndian.capacity width : Int) ≤ 2 * offset
  high : 2 * offset < LittleEndian.capacity width

/-- An operand of a kind as bytes.  Offsets count from the instruction behind
it. -/
inductive OperandForm (reader : BodyReader) (next : Nat) :
    OperandKind → Operand Nat → List UInt8 → Prop
  | none : OperandForm reader next .none .none []
  | immediate (value : Immediate) :
      OperandForm reader next value.kind (.immediate value) value.bytes
  | type {token : Token} {type : CilType}
      (resolves : reader.resolver.type token reader.context = .ok type)
      (closed : type.genericParameter? = Option.none) :
      OperandForm reader next .type (.type type) (Emitter.tokenBytes token)
  | field {token : Token} {field : Field}
      (resolves : reader.resolver.field token reader.context = .ok field)
      (ownerClosed : field.owner.genericParameter? = Option.none)
      (typeClosed : field.type.genericParameter? = Option.none) :
      OperandForm reader next .field (.field field) (Emitter.tokenBytes token)
  | method {token : Token} {method : Method}
      (resolves : reader.resolver.method token reader.context = .ok method)
      (closed : method.owner.genericParameter? = Option.none) :
      OperandForm reader next .method (.method method) (Emitter.tokenBytes token)
  | string {token : Token} {text : String} (resolves : reader.resolver.string token = .ok text) :
      OperandForm reader next .string (.string text) (Emitter.tokenBytes token)
  | symbol {token : Token} {symbol : Symbol}
      (resolves : reader.resolver.symbol token reader.context = .ok symbol) :
      OperandForm reader next .token (.symbol symbol) (Emitter.tokenBytes token)
  | shortBranch {offset : Int} {target : Nat} (leads : LeadsTo next 1 offset target) :
      OperandForm reader next .shortBranch (.label target) (Layout.offsetBytes 1 offset)
  | branch {offset : Int} {target : Nat} (leads : LeadsTo next 4 offset target) :
      OperandForm reader next .branch (.label target) (Layout.offsetBytes 4 offset)
  | switch {offsets : List Int} {targets : List Nat}
      (small : offsets.length < LittleEndian.capacity 4)
      (leads : List.Forall₂ (LeadsTo next 4) offsets targets) :
      OperandForm reader next .switch (.switch targets)
        (LittleEndian.toBytes 4 offsets.length ++ offsets.flatMap (Layout.offsetBytes 4))

structure Entry where
  address : Nat
  opcode : Opcode
  operand : Operand Nat

inductive InstructionForm (reader : BodyReader) (entry : Entry) : List UInt8 → Prop
  | intro {info : OpcodeInfo} {bytes : List UInt8} (known : entry.opcode.info? = some info)
      (noCall : entry.opcode ≠ Opcode.calli)
      (form : OperandForm reader (entry.address + (entry.opcode.bytes.length + bytes.length))
        info.operand entry.operand bytes)
      (declared : ∀ access index, entry.opcode.localAccess? entry.operand = some (access, index) →
        index.toNat < reader.locals.length) :
      InstructionForm reader entry (entry.opcode.bytes ++ bytes)

/-- The bytes from an address on are instructions without anything between
them or behind the last. -/
inductive Splits (reader : BodyReader) : Nat → List UInt8 → List Entry → Prop
  | nil (address : Nat) : Splits reader address [] []
  | cons {entry : Entry} {bytes rest : List UInt8} {entries : List Entry}
      (first : InstructionForm reader entry bytes)
      (others : Splits reader (entry.address + bytes.length) rest entries) :
      Splits reader entry.address (bytes ++ rest) (entry :: entries)

structure Accepts (reader : BodyReader) (code : List UInt8) (entries : List Entry) : Prop where
  splits : Splits reader 0 code entries
  landing : ∀ entry ∈ entries, ∀ target ∈ entry.operand.targets,
    target = code.length ∨ ∃ other ∈ entries, other.address = target

end BodyReader

namespace StandsAt

variable {code left right : List UInt8} {position : Nat}

theorem drop_eq (stands : StandsAt code position left) :
    code.drop position = left ++ code.drop (position + left.length) := by
  rcases stands with ⟨front, back, rfl, rfl⟩
  rw [← List.length_append, List.drop_left, List.append_assoc, List.drop_left]

theorem of_drop_eq (bound : position ≤ code.length) (same : code.drop position = left ++ right) :
    StandsAt code position left := by
  refine ⟨code.take position, right, ?_, ?_⟩
  · rw [List.append_assoc, ← same, List.take_append_drop]
  · rw [List.length_take]
    exact Nat.min_eq_left bound

theorem append (stands : StandsAt code position left)
    (behind : StandsAt code (position + left.length) right) :
    StandsAt code position (left ++ right) := by
  have bound := stands.le_length
  apply of_drop_eq (by omega)
  rw [stands.drop_eq, behind.drop_eq, List.append_assoc]

theorem nil (bound : position ≤ code.length) : StandsAt code position [] :=
  of_drop_eq bound rfl

end StandsAt

namespace Opcode

variable {code : List UInt8} {position : Nat}

theorem bytes_ofByte (byte : UInt8) : (ofByte byte).bytes = [byte] := by
  have bound := byte.toNat_lt
  have short : ¬ (0xFF : UInt16) < byte.toUInt16 := by
    rw [UInt16.lt_iff_toNat_lt, UInt8.toNat_toUInt16]
    change ¬ 255 < byte.toNat
    omega
  simp [bytes, isExtended, Opcode.code, ofByte, short]

theorem bytes_ofExtended (byte : UInt8) : (ofExtended byte).bytes = [extensionByte, byte] := by
  have long : (0xFF : UInt16) < 0xFE00 ||| byte.toUInt16 := by
    have high : 0xFE00 ≤ 0xFE00 ||| byte.toNat := Nat.left_le_or
    rw [UInt16.lt_iff_toNat_lt, UInt16.toNat_or, UInt8.toNat_toUInt16]
    change 255 < 0xFE00 ||| byte.toNat
    omega
  have low : (0xFE00 ||| byte.toUInt16).toUInt8 = byte := by
    rw [UInt16.toUInt8_or, UInt8.toUInt8_toUInt16]
    exact UInt8.zero_or
  simp only [bytes, isExtended, Opcode.code, ofExtended, long, low, decide_true, if_true]

theorem readByte_eq_ok {number : Nat} {after : Cursor UInt8}
    (done : run (Cursor.readNumber 1) (Cursor.within code position) = (.ok number, after)) :
    StandsAt code position [number.toUInt8] ∧ number.toUInt8.toNat = number ∧
      after = Cursor.within code (position + 1) := by
  rcases Cursor.readNumber_eq_ok done with ⟨stands, small, behind⟩
  exact ⟨stands, UInt8.toNat_ofNat_of_lt small, behind⟩

theorem withInfo_eq_ok {read opcode : Opcode} {info : OpcodeInfo} {cursor after : Cursor UInt8}
    (done : run (match read.info? with
      | some info => pure (read, info)
      | none => do
          let cursor ← get
          throw (.malformed (.reservedOpcode read (cursor.position - read.size)))) cursor =
        (.ok (opcode, info), after)) :
    opcode.info? = some info ∧ read = opcode ∧ cursor = after := by
  split at done
  · rename_i found known
    obtain ⟨same, rfl⟩ := Prod.mk.inj done
    obtain ⟨rfl, rfl⟩ := Prod.mk.inj (Except.ok.inj same)
    exact ⟨known, rfl, rfl⟩
  · obtain ⟨_, _, _, failed⟩ := run_bind_eq_ok.mp done
    cases failed

theorem read_eq_ok {opcode : Opcode} {info : OpcodeInfo} {after : Cursor UInt8}
    (done : run read (Cursor.within code position) = (.ok (opcode, info), after)) :
    opcode.info? = some info ∧ StandsAt code position opcode.bytes ∧
      after = Cursor.within code (position + opcode.bytes.length) := by
  obtain ⟨first, afterFirst, readFirst, rest⟩ := run_bind_eq_ok.mp done
  rcases readByte_eq_ok readFirst with ⟨stands, small, rfl⟩
  rw [run_ite] at rest
  split at rest
  · rename_i extended
    obtain ⟨second, afterSecond, readSecond, chosen⟩ := run_bind_eq_ok.mp rest
    rcases readByte_eq_ok readSecond with ⟨standsBehind, _, rfl⟩
    obtain ⟨entry, rfl, rfl⟩ := withInfo_eq_ok chosen
    have prefixByte : first.toUInt8 = extensionByte := by
      rw [extended, Nat.toUInt8_eq, UInt8.ofNat_toNat]
    rw [bytes_ofExtended]
    rw [prefixByte] at stands
    exact ⟨entry, stands.append standsBehind, rfl⟩
  · obtain ⟨entry, rfl, rfl⟩ := withInfo_eq_ok rest
    rw [bytes_ofByte]
    exact ⟨entry, stands, rfl⟩

end Opcode

namespace BodyReader

variable {reader : BodyReader} {opcode : Opcode} {info : OpcodeInfo} {operand : Operand Nat}
  {code bytes : List UInt8} {position next : Nat} {after : Cursor UInt8}

section Offsets

theorem branchTarget_eq_ok {offset : Int} {target : Nat} :
    branchTarget (Cursor.within code next) offset = .ok target ↔
      (target : Int) = next + offset ∧ target ≤ code.length := by
  constructor
  · intro done
    have length : (Cursor.within code next).length = code.length := List.size_toArray
    have place : (Cursor.within code next).position = next := rfl
    simp only [branchTarget, length, place] at done
    split at done
    · cases done
    · rw [← Except.ok.inj done]
      omega
  · rintro ⟨there, bound⟩
    exact branchTarget_eq there bound

theorem readToken_eq_ok {token : Token}
    (done : run readToken (Cursor.within code position) = (.ok token, after)) :
    StandsAt code position (Emitter.tokenBytes token) ∧
      after = Cursor.within code (position + 4) := by
  obtain ⟨value, behind, reading, rest⟩ := run_bind_eq_ok.mp done
  obtain ⟨same, rfl⟩ := Prod.mk.inj rest
  rcases Cursor.readNumber_eq_ok reading with ⟨stands, small, there⟩
  have whole : value.toUInt32.toNat = value := UInt32.toNat_ofNat_of_lt' small
  rw [← Except.ok.inj same, Emitter.tokenBytes, whole]
  exact ⟨stands, there⟩

theorem readTarget_eq_ok {width target : Nat} (positive : 0 < width)
    (done : run (readTarget width) (Cursor.within code position) = (.ok target, after)) :
    ∃ offset, StandsAt code position (Layout.offsetBytes width offset) ∧
      LeadsTo (position + width) width offset target ∧
      after = Cursor.within code (position + width) := by
  obtain ⟨offset, behind, reading, rest⟩ := run_bind_eq_ok.mp done
  obtain ⟨stands, low, high, rfl⟩ := Cursor.readScalar_eq_ok positive reading
  obtain ⟨cursor, _, unchanged, rest⟩ := run_bind_eq_ok.mp rest
  obtain ⟨⟨⟩, ⟨⟩⟩ := Prod.mk.inj unchanged
  obtain ⟨lands, rfl⟩ := Prod.mk.inj rest
  exact ⟨offset, stands, ⟨(branchTarget_eq_ok.mp lands).1, low, high⟩, rfl⟩

theorem run_readTarget_of_leadsTo {width target : Nat} {offset : Int}
    (stands : StandsAt code position (Layout.offsetBytes width offset))
    (leads : LeadsTo (position + width) width offset target) (bound : target ≤ code.length) :
    run (readTarget width) (Cursor.within code position) =
      (.ok target, Cursor.within code (position + width)) :=
  run_readTarget stands leads.low leads.high leads.target_eq bound

theorem readOffsets_eq_ok {count : Nat} {offsets : List Int} (bound : position ≤ code.length)
    (done : run (readOffsets count) (Cursor.within code position) = (.ok offsets, after)) :
    offsets.length = count ∧ StandsAt code position (offsets.flatMap (Layout.offsetBytes 4)) ∧
      (∀ offset ∈ offsets, -0x80000000 ≤ offset ∧ offset < 0x80000000) ∧
      after = Cursor.within code (position + 4 * count) := by
  induction count generalizing position offsets with
  | zero =>
      obtain ⟨same, rfl⟩ := Prod.mk.inj done
      rw [← Except.ok.inj same]
      exact ⟨rfl, .nil bound, by simp, rfl⟩
  | succ count inductionHypothesis =>
      obtain ⟨offset, behind, reading, rest⟩ := run_bind_eq_ok.mp done
      obtain ⟨others, last, readOthers, rest⟩ := run_bind_eq_ok.mp rest
      obtain ⟨same, rfl⟩ := Prod.mk.inj rest
      obtain ⟨stands, low, high, rfl⟩ := Cursor.readScalar_eq_ok (by decide) reading
      change StandsAt code position (Layout.offsetBytes 4 offset) at stands
      have length := @Layout.length_offsetBytes 4 offset
      have room := stands.le_length
      rw [length] at room
      obtain ⟨count, standsBehind, ranges, rfl⟩ := inductionHypothesis room readOthers
      rw [← Except.ok.inj same]
      refine ⟨congrArg (· + 1) count, ?_, ?_, ?_⟩
      · rw [List.flatMap_cons]
        exact StandsAt.append stands (by rw [length]; exact standsBehind)
      · have capacity : LittleEndian.capacity 4 = 0x100000000 := rfl
        rw [capacity] at low high
        rintro other (_ | ⟨_, member⟩)
        · omega
        · exact ranges other member
      · congr 1
        omega

theorem leadsTo_four {offset : Int} {target : Nat} :
    LeadsTo next 4 offset target ↔
      (-0x80000000 ≤ offset ∧ offset < 0x80000000) ∧ (target : Int) = next + offset := by
  have capacity : LittleEndian.capacity 4 = 0x100000000 := rfl
  constructor
  · rintro ⟨there, low, high⟩
    rw [capacity] at low high
    omega
  · rintro ⟨range, there⟩
    refine ⟨there, ?_, ?_⟩ <;> rw [capacity] <;> omega

theorem mapM_branchTarget_eq_ok {offsets : List Int} {targets : List Nat}
    (inRange : ∀ offset ∈ offsets, -0x80000000 ≤ offset ∧ offset < 0x80000000) :
    offsets.mapM (branchTarget (Cursor.within code next)) = .ok targets ↔
      List.Forall₂ (LeadsTo next 4) offsets targets ∧ ∀ target ∈ targets, target ≤ code.length := by
  induction offsets generalizing targets with
  | nil =>
      rw [List.mapM_nil, List.forall₂_nil_left_iff]
      constructor
      · rintro ⟨⟩
        simp
      · rintro ⟨rfl, _⟩
        rfl
  | cons offset rest inductionHypothesis =>
      have range := inRange offset List.mem_cons_self
      have later (restTargets : List Nat) := @inductionHypothesis restTargets
        fun other member => inRange other (List.mem_cons_of_mem _ member)
      rw [List.mapM_cons]
      constructor
      · intro done
        obtain ⟨target, lands, others⟩ := bind_eq_ok.mp done
        obtain ⟨restTargets, restLand, together⟩ := bind_eq_ok.mp others
        rw [← Except.ok.inj together]
        rcases branchTarget_eq_ok.mp lands with ⟨there, bound⟩
        rcases (later restTargets).mp restLand with ⟨leads, bounds⟩
        exact ⟨.cons (leadsTo_four.mpr ⟨range, there⟩) leads,
          List.forall_mem_cons.mpr ⟨bound, bounds⟩⟩
      · rintro ⟨leads, bounds⟩
        obtain ⟨target, restTargets, first, others, rfl⟩ := List.forall₂_cons_left_iff.mp leads
        obtain ⟨bound, restBounds⟩ := List.forall_mem_cons.mp bounds
        have lands := branchTarget_eq_ok.mpr ⟨first.target_eq, bound⟩
        have restLand := (later restTargets).mpr ⟨others, restBounds⟩
        simp only [lands, restLand, bind, Except.bind, pure, Except.pure]

theorem readSwitch_eq_ok {targets : List Nat}
    (done : run readSwitch (Cursor.within code position) = (.ok targets, after)) :
    ∃ offsets : List Int, StandsAt code position (LittleEndian.toBytes 4 offsets.length ++
        offsets.flatMap (Layout.offsetBytes 4)) ∧
      offsets.length < LittleEndian.capacity 4 ∧
      List.Forall₂ (LeadsTo (position + (4 + 4 * offsets.length)) 4) offsets targets ∧
      after = Cursor.within code (position + (4 + 4 * offsets.length)) := by
  obtain ⟨count, _, readCount, rest⟩ := run_bind_eq_ok.mp done
  obtain ⟨stands, small, rfl⟩ := Cursor.readNumber_eq_ok readCount
  have room := stands.le_length
  rw [LittleEndian.length_toBytes] at room
  obtain ⟨⟨⟩, unchanged, enough, rest⟩ := run_bind_eq_ok.mp rest
  have same : unchanged = Cursor.within code (position + 4) := by
    simp only [Cursor.ensureRemaining, run_bind, run_get, run_ite, run_throw, run_pure] at enough
    split at enough
    · cases enough
    · exact (Prod.mk.inj enough).2.symm
  subst same
  obtain ⟨offsets, _, readAll, rest⟩ := run_bind_eq_ok.mp rest
  obtain ⟨rfl, standsBehind, inRange, rfl⟩ := readOffsets_eq_ok room readAll
  obtain ⟨cursor, _, unchanged, rest⟩ := run_bind_eq_ok.mp rest
  obtain ⟨⟨⟩, ⟨⟩⟩ := Prod.mk.inj unchanged
  obtain ⟨lands, rfl⟩ := Prod.mk.inj rest
  rw [Nat.add_assoc] at lands
  refine ⟨offsets, ?_, small, ((mapM_branchTarget_eq_ok inRange).mp lands).1, ?_⟩
  · exact stands.append (by rw [LittleEndian.length_toBytes]; exact standsBehind)
  · rw [Nat.add_assoc]

theorem run_readSwitch_of_leadsTo {offsets : List Int} {targets : List Nat}
    (stands : StandsAt code position (LittleEndian.toBytes 4 offsets.length ++
      offsets.flatMap (Layout.offsetBytes 4)))
    (small : offsets.length < LittleEndian.capacity 4)
    (leads : List.Forall₂ (LeadsTo (position + (4 + 4 * offsets.length)) 4) offsets targets)
    (bound : ∀ target ∈ targets, target ≤ code.length) :
    run readSwitch (Cursor.within code position) =
      (.ok targets, Cursor.within code (position + (4 + 4 * offsets.length))) := by
  have capacity : LittleEndian.capacity 4 = 0x100000000 := rfl
  have inRange : ∀ offset ∈ offsets, -0x80000000 ≤ offset ∧ offset < 0x80000000 :=
    ((List.forall₂_and_left _ _).mp (leads.imp fun _ _ lead => leadsTo_four.mp lead)).1
  rw [← Nat.add_assoc] at leads ⊢
  exact run_readSwitch stands (by omega) inRange
    ((mapM_branchTarget_eq_ok inRange).mpr ⟨leads, bound⟩)

end Offsets

section Operands

def StandsForm (reader : BodyReader) (code : List UInt8) (position : Nat) (kind : OperandKind)
    (operand : Operand Nat) (after : Cursor UInt8) : Prop :=
  ∃ bytes, StandsAt code position bytes ∧
    OperandForm reader (position + bytes.length) kind operand bytes ∧
    after = Cursor.within code (position + bytes.length)

variable {kind : OperandKind}

theorem standsForm_of_number {width : Nat} {value : Nat → Immediate}
    (done : run (do
        let number ← Cursor.readNumber width
        pure (.immediate (value number))) (Cursor.within code position) = (.ok operand, after))
    (form : ∀ number, number < LittleEndian.capacity width →
      (value number).kind = kind ∧ (value number).bytes = LittleEndian.toBytes width number) :
    StandsForm reader code position kind operand after := by
  obtain ⟨number, _, reading, rest⟩ := run_bind_eq_ok.mp done
  rcases Cursor.readNumber_eq_ok reading with ⟨stands, small, rfl⟩
  obtain ⟨same, rfl⟩ := Prod.mk.inj rest
  obtain ⟨rfl, bytes⟩ := form number small
  rw [← Except.ok.inj same]
  rw [← bytes] at stands
  refine ⟨(value number).bytes, stands, .immediate _, ?_⟩
  rw [bytes, LittleEndian.length_toBytes]

theorem standsForm_of_token {Found : Type} {resolve : Token → Except Error Found}
    {make : Found → Operand Nat}
    (done : run (do
        let token ← readToken
        let found ← Action.ofExcept (resolve token)
        pure (make found)) (Cursor.within code position) = (.ok operand, after))
    (form : ∀ token found, resolve token = .ok found →
      OperandForm reader (position + 4) kind (make found) (Emitter.tokenBytes token)) :
    StandsForm reader code position kind operand after := by
  obtain ⟨token, _, reading, rest⟩ := run_bind_eq_ok.mp done
  rcases readToken_eq_ok reading with ⟨stands, rfl⟩
  obtain ⟨found, _, resolving, rest⟩ := run_bind_eq_ok.mp rest
  obtain ⟨resolves, rfl⟩ := Prod.mk.inj resolving
  obtain ⟨same, rfl⟩ := Prod.mk.inj rest
  rw [← Except.ok.inj same]
  exact ⟨Emitter.tokenBytes token, stands, form token found resolves, rfl⟩

theorem standsForm_of_target {width : Nat} (positive : 0 < width)
    (done : run (do
        let target ← readTarget width
        pure (.label target)) (Cursor.within code position) = (.ok operand, after))
    (form : ∀ offset target, LeadsTo (position + width) width offset target → OperandForm reader
      (position + width) kind (.label target) (Layout.offsetBytes width offset)) :
    StandsForm reader code position kind operand after := by
  obtain ⟨target, _, reading, rest⟩ := run_bind_eq_ok.mp done
  rcases readTarget_eq_ok positive reading with ⟨offset, stands, leads, rfl⟩
  obtain ⟨same, rfl⟩ := Prod.mk.inj rest
  rw [← Except.ok.inj same]
  refine ⟨Layout.offsetBytes width offset, stands, ?_, ?_⟩
  · rw [Layout.length_offsetBytes]
    exact form offset target leads
  · rw [Layout.length_offsetBytes]

theorem standsForm_of_switch
    (done : run (do
        let targets ← readSwitch
        pure (.switch targets)) (Cursor.within code position) = (.ok operand, after)) :
    StandsForm reader code position .switch operand after := by
  obtain ⟨targets, _, reading, rest⟩ := run_bind_eq_ok.mp done
  rcases readSwitch_eq_ok reading with ⟨offsets, stands, small, leads, rfl⟩
  obtain ⟨same, rfl⟩ := Prod.mk.inj rest
  rw [← Except.ok.inj same]
  have length : (LittleEndian.toBytes 4 offsets.length ++
      offsets.flatMap (Layout.offsetBytes 4)).length = 4 + 4 * offsets.length := by
    rw [List.length_append, LittleEndian.length_toBytes, Layout.length_table]
  refine ⟨_, stands, ?_, ?_⟩
  · rw [length]
    exact .switch small leads
  · rw [length]

theorem signature_of_known : ∀ entry ∈ Opcode.known, entry.2.operand = .signature →
    entry.1 = Opcode.calli := by
  decide +kernel

theorem readOperand_eq_ok (bound : position ≤ code.length) (known : opcode.info? = some info)
    (done : run (reader.readOperand opcode info) (Cursor.within code position) =
      (.ok operand, after)) :
    opcode ≠ Opcode.calli ∧ StandsForm reader code position info.operand operand after := by
  unfold readOperand at done
  dsimp only at done
  rw [run_ite] at done
  split at done
  · obtain ⟨_, _, _, failed⟩ := run_bind_eq_ok.mp done
    cases failed
  · rename_i noCall
    refine ⟨noCall, ?_⟩
    cases kind : info.operand <;> rw [kind] at done
    case none =>
      obtain ⟨same, rfl⟩ := Prod.mk.inj done
      rw [← Except.ok.inj same]
      exact ⟨[], .nil bound, .none, rfl⟩
    case int8 | uint8 =>
      apply standsForm_of_number done
      intro number small
      have whole : number % 0x100 = number := Nat.mod_eq_of_lt small
      exact ⟨rfl, by simp [Immediate.bytes, whole]⟩
    case uint16 =>
      apply standsForm_of_number done
      intro number small
      have whole : number % 0x10000 = number := Nat.mod_eq_of_lt small
      exact ⟨rfl, by simp [Immediate.bytes, whole]⟩
    case int32 | float32 =>
      apply standsForm_of_number done
      intro number small
      have whole : number % 0x100000000 = number := Nat.mod_eq_of_lt small
      exact ⟨rfl, by simp [Immediate.bytes, whole]⟩
    case int64 | float64 =>
      apply standsForm_of_number done
      intro number small
      have whole : number % 0x10000000000000000 = number := Nat.mod_eq_of_lt small
      exact ⟨rfl, by simp [Immediate.bytes, whole]⟩
    case shortBranch =>
      exact standsForm_of_target (by decide) done fun _ _ leads => .shortBranch leads
    case branch =>
      exact standsForm_of_target (by decide) done fun _ _ leads => .branch leads
    case switch => exact standsForm_of_switch done
    case type =>
      apply standsForm_of_token done
      intro token type resolves
      rcases resolveType_eq_ok.mp resolves with ⟨found, closed⟩
      exact .type found closed
    case field =>
      apply standsForm_of_token done
      intro token field resolves
      rcases resolveField_eq_ok.mp resolves with ⟨found, ownerClosed, typeClosed⟩
      exact .field found ownerClosed typeClosed
    case method =>
      apply standsForm_of_token done
      intro token method resolves
      rcases resolveMethod_eq_ok.mp resolves with ⟨found, closed⟩
      exact .method found closed
    case string => exact standsForm_of_token done fun _ _ found => .string found
    case token => exact standsForm_of_token done fun _ _ found => .symbol found
    case signature =>
      exact absurd (signature_of_known _ (Opcode.mem_known_of_info? known) kind) noCall

theorem run_readOperand (noCall : opcode ≠ Opcode.calli)
    (stands : StandsAt code position bytes)
    (form : OperandForm reader (position + bytes.length) info.operand operand bytes)
    (bound : ∀ target ∈ operand.targets, target ≤ code.length) :
    run (reader.readOperand opcode info) (Cursor.within code position) =
      (.ok operand, Cursor.within code (position + bytes.length)) := by
  generalize kind : info.operand = expected at form
  cases form with
  | none =>
      simp only [readOperand, if_neg noCall, run_pure, kind]
      rfl
  | immediate value => exact run_readImmediate noCall kind stands
  | type resolves closed =>
      have resolved := resolveType_eq_ok.mpr ⟨resolves, closed⟩
      exact run_readOperand_of_denotes noCall (kind ▸ .type resolved) stands
  | field resolves ownerClosed typeClosed =>
      have resolved := resolveField_eq_ok.mpr ⟨resolves, ownerClosed, typeClosed⟩
      exact run_readOperand_of_denotes noCall (kind ▸ .field resolved) stands
  | method resolves closed =>
      have resolved := resolveMethod_eq_ok.mpr ⟨resolves, closed⟩
      exact run_readOperand_of_denotes noCall (kind ▸ .method resolved) stands
  | string resolves =>
      exact run_readOperand_of_denotes noCall (kind ▸ .string resolves) stands
  | symbol resolves =>
      exact run_readOperand_of_denotes noCall (kind ▸ .symbol resolves) stands
  | @shortBranch offset target leads =>
      rw [Layout.length_offsetBytes] at leads ⊢
      have read := run_readTarget_of_leadsTo stands leads (bound target (List.mem_singleton_self _))
      simp only [readOperand, if_neg noCall, run_bind, run_pure, kind, read]
  | @branch offset target leads =>
      rw [Layout.length_offsetBytes] at leads ⊢
      have read := run_readTarget_of_leadsTo stands leads (bound target (List.mem_singleton_self _))
      simp only [readOperand, if_neg noCall, run_bind, run_pure, kind, read]
  | @switch offsets targets small leads =>
      rw [List.length_append, LittleEndian.length_toBytes, Layout.length_table] at leads ⊢
      have read := run_readSwitch_of_leadsTo stands small leads bound
      simp only [readOperand, if_neg noCall, run_bind, run_pure, kind, read]

end Operands

end BodyReader
end CilTemplate
