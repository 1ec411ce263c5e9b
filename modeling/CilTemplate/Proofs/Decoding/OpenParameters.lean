import CilTemplate.Proofs.Decoding.Decoded

/-
Open generic parameters in decoded bodies.  A type, field or method operand is
refused where it shows an open parameter, while what `ldtoken` loads is taken as
the resolver gives it.
-/

namespace CilTemplate

/-- The types that an instruction with this symbol depends on. -/
def Symbol.exposed : Symbol → List CilType
  | .type found => [found]
  | .field found => [found.owner, found.type]
  | .method found => [found.owner]

def Symbol.isOpen (symbol : Symbol) : Bool :=
  symbol.exposed.any fun type => type.genericParameter?.isSome

def Operand.symbol? {Target : Type} : Operand Target → Option Symbol
  | .type found => some (.type found)
  | .field found => some (.field found)
  | .method found => some (.method found)
  | .symbol found => some found
  | _ => Option.none

theorem Operand.symbol?_mapTargets {Target Renamed : Type} (operand : Operand Target)
    (rename : Target → Renamed) : (operand.mapTargets rename).symbol? = operand.symbol? := by
  cases operand <;> rfl

def Opcode.ldtoken : Opcode := ⟨0xD0⟩

theorem Opcode.eq_ldtoken_of_known : ∀ entry ∈ Opcode.known, entry.2.operand = .token →
    entry.1 = Opcode.ldtoken := by
  decide +kernel

namespace BodyReader

variable {reader : BodyReader} {entry : Entry} {bytes : List UInt8} {symbol : Symbol}

/-- Every operand but that of `ldtoken` is checked. -/
theorem OperandForm.symbol_of_isOpen {next : Nat} {kind : OperandKind} {operand : Operand Nat}
    (form : OperandForm reader next kind operand bytes) (names : operand.symbol? = some symbol)
    (isOpen : symbol.isOpen = true) :
    kind = .token ∧ operand = .symbol symbol ∧
      ∃ token, reader.resolver.symbol token reader.context = .ok symbol := by
  cases form with
  | symbol resolves =>
      cases names
      exact ⟨rfl, rfl, _, resolves⟩
  | type resolves closed =>
      cases names
      simp [Symbol.isOpen, Symbol.exposed, closed] at isOpen
  | field resolves ownerClosed typeClosed =>
      cases names
      simp [Symbol.isOpen, Symbol.exposed, ownerClosed, typeClosed] at isOpen
  | method resolves closed =>
      cases names
      simp [Symbol.isOpen, Symbol.exposed, closed] at isOpen
  | _ => cases names

theorem eq_raw_of_named {instruction : Instruction Nat}
    (names : instruction.named = .symbol symbol) :
    ∃ opcode, instruction = .raw opcode (.symbol symbol) := by
  cases instruction with
  | raw opcode operand => exact ⟨opcode, congrArg (Instruction.raw opcode) names⟩
  | _ => cases names

theorem ldtoken_of_lift (form : InstructionForm reader entry bytes)
    {instruction : Instruction Nat}
    (lifted : reader.lift entry.opcode entry.operand = .ok instruction)
    (names : instruction.named.symbol? = some symbol) (isOpen : symbol.isOpen = true) :
    instruction = .raw Opcode.ldtoken (.symbol symbol) ∧
      ∃ token, reader.resolver.symbol token reader.context = .ok symbol := by
  rcases named_of_lift lifted with isOperand | isNone
  · cases form with
    | @intro info bytes known noCall form declared =>
        rw [isOperand] at names
        obtain ⟨kind, operand, resolves⟩ := form.symbol_of_isOpen names isOpen
        rw [operand] at isOperand
        obtain ⟨opcode, rfl⟩ := eq_raw_of_named isOperand
        have same : entry.opcode = _ :=
          Opcode.eq_ldtoken_of_known _ (Opcode.mem_known_of_info? known) kind
        rw [(lift_eq_raw lifted).1, same]
        exact ⟨rfl, resolves⟩
  · rw [isNone] at names
    cases names

end BodyReader

namespace Body

open BodyReader (InstructionForm)

variable {resolver : Resolver} {context : GenericContext}

theorem ldtoken_of_decode {code : List UInt8} {declarations : List LocalDeclaration} {body : Body}
    (done : decode code declarations resolver context = .ok body)
    {instruction : Instruction Label} (member : instruction ∈ body.instructions)
    {symbol : Symbol} (names : instruction.named.symbol? = some symbol)
    (isOpen : symbol.isOpen = true) :
    instruction = .raw Opcode.ldtoken (.symbol symbol) ∧
      ∃ token, resolver.symbol token context = .ok symbol := by
  obtain ⟨entry, part, lifted, label, form, lifts, rfl⟩ := lifted_of_decode done member
  rw [named_mapTargets, Operand.symbol?_mapTargets] at names
  obtain ⟨rfl, resolves⟩ := BodyReader.ldtoken_of_lift form lifts names isOpen
  exact ⟨rfl, resolves⟩

def loadToken (token : Token) : List UInt8 :=
  Opcode.ldtoken.bytes ++ Emitter.tokenBytes token

theorem form_loadToken {token : Token} {symbol : Symbol} (locals : List Local)
    (resolves : resolver.symbol token context = .ok symbol) :
    InstructionForm ⟨resolver, context, locals⟩ ⟨0, Opcode.ldtoken, .symbol symbol⟩
      (loadToken token) := by
  have known : ∃ info, Opcode.ldtoken.info? = some info ∧ info.operand = .token := ⟨_, rfl, rfl⟩
  obtain ⟨info, found, kind⟩ := known
  refine .intro found (fun same : Opcode.ldtoken = Opcode.calli => nomatch same) ?_
    (fun _ _ isLocal => by cases isLocal)
  rw [kind]
  exact .symbol resolves

theorem decode_loadToken {token : Token} {symbol : Symbol} (declarations : List LocalDeclaration)
    (resolves : resolver.symbol token context = .ok symbol) :
    decode (loadToken token) declarations resolver context =
      .ok ⟨BodyReader.localsOf declarations, [.code (.raw Opcode.ldtoken (.symbol symbol))]⟩ := by
  obtain ⟨_, done⟩ := decode_single (form_loadToken (BodyReader.localsOf declarations) resolves)
    rfl rfl
  exact done

/-- No operand shows an open parameter but that of `ldtoken`, which may be any
symbol that the resolver gives. -/
theorem open_parameters_pass_only_through_ldtoken (resolver : Resolver)
    (context : GenericContext) :
    (∀ {code : List UInt8} {declarations : List LocalDeclaration} {body : Body},
      decode code declarations resolver context = .ok body →
        ∀ instruction ∈ body.instructions, ∀ symbol ∈ instruction.named.symbol?,
          symbol.isOpen = true →
            instruction = .raw Opcode.ldtoken (.symbol symbol) ∧
              ∃ token, resolver.symbol token context = .ok symbol) ∧
    ∀ {token : Token} {symbol : Symbol} (declarations : List LocalDeclaration),
      resolver.symbol token context = .ok symbol →
        decode (loadToken token) declarations resolver context =
          .ok ⟨BodyReader.localsOf declarations,
            [.code (.raw Opcode.ldtoken (.symbol symbol))]⟩ :=
  ⟨fun done _ member _ names isOpen => ldtoken_of_decode done member names isOpen,
    fun declarations resolves => decode_loadToken declarations resolves⟩

end Body

namespace OpenParametersSample

def parameter : CilType := ⟨⟨0x1B000001⟩, "", "T", "Demo", .generic (.ofMethod 0), 0⟩

def table : SymbolTable := SymbolTable.empty.insertType parameter

def context : GenericContext := ⟨[], []⟩

end OpenParametersSample

open OpenParametersSample in
theorem open_parameters_pass_only_through_ldtoken_of_parameter :
    ∃ body, Body.decode (Body.loadToken parameter.token) [] table.resolver context = .ok body ∧
      ∀ instruction ∈ body.instructions, ∀ symbol ∈ instruction.named.symbol?,
        symbol.isOpen = true →
          instruction = .raw Opcode.ldtoken (.symbol symbol) ∧
            ∃ token, table.resolver.symbol token context = .ok symbol := by
  have both := Body.open_parameters_pass_only_through_ldtoken table.resolver context
  have resolves : table.resolver.symbol parameter.token context = .ok (.type parameter) := rfl
  have done := both.2 [] resolves
  exact ⟨_, done, both.1 done⟩

open OpenParametersSample in
/-- The parameter is refused behind `box` and stays behind `ldtoken`. -/
theorem open_parameter_is_loaded :
    (Body.decode [0x8C, 0x01, 0x00, 0x00, 0x1B] [] table.resolver context =
      .error (.notSupported (.openGeneric parameter.token (.ofMethod 0)))) ∧
    ∃ body, Body.decode [0xD0, 0x01, 0x00, 0x00, 0x1B] [] table.resolver context = .ok body ∧
      .raw Opcode.ldtoken (.symbol (.type parameter)) ∈ body.instructions ∧
      parameter.genericParameter? = some (.ofMethod 0) :=
  ⟨rfl, _, rfl, List.mem_singleton_self _, rfl⟩

end CilTemplate
