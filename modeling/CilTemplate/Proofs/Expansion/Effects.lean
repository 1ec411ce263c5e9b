import CilTemplate.Proofs.Code.Literals
import CilTemplate.Proofs.Expansion.Accessors
import CilTemplate.Proofs.Expansion.Depth
import CilTemplate.Proofs.Expansion.Trace

/-
What the code that expansion takes away and the code that it puts in do to the
depth of the stack, if the members and operations have the parameters and
results that their kinds ask for.
-/

namespace CilTemplate

open PlaceholderNamespace

namespace TypeBuilder

/-- A method is made as it is asked for: it is static, takes nothing and
returns the given type. -/
def MakesGetters (Builder : Type) [TypeBuilder Builder] : Prop :=
  ∀ (name : String) (type : CilType) (body : Body) (before after : Builder × CaptureTable)
    (method : Method),
    Action.run (TypeBuilder.defineMethod name type body) before = (.ok method, after) →
      method.isStatic = true ∧ method.parameterCount = 0 ∧ method.returnType = some type

end TypeBuilder

theorem Draft.makesGetters : TypeBuilder.MakesGetters Draft := by
  intro name type body before after method made
  change Action.run (Draft.defineMethod name type body) before = _ at made
  rw [Draft.defineMethod] at made
  obtain ⟨_, _, _, made⟩ := Action.run_bind_eq_ok.mp made
  obtain ⟨_, _, _, made⟩ := Action.run_bind_eq_ok.mp made
  obtain ⟨_, _, _, made⟩ := Action.run_bind_eq_ok.mp made
  obtain ⟨_, _, _, made⟩ := Action.run_bind_eq_ok.mp made
  obtain ⟨_, _, _, ended⟩ := Action.run_bind_eq_ok.mp made
  obtain ⟨same, _⟩ := Prod.mk.inj ended
  have static : hasFlag (Method.privateFlag ||| Method.staticFlag) Method.staticFlag = true := by
    decide
  rw [← Except.ok.inj same]
  exact ⟨static, rfl, rfl⟩

/-- The operations of the namespace that the code calls and the members that
closures give have the parameters and results of their kinds. -/
structure MemberConventions (expander : Expander) (items : List CodeItem) : Prop where
  operation : ∀ operation kind, .code (.call operation) ∈ items →
    expander.placeholders.operation? (.call operation) = some operation →
    classify operation = .ok kind → kind ≠ .call →
    operation.returnsVoid = decide (kind = .set)
  closureGetter : ∀ kind, ∀ getter ∈ expander.captures.gettersOf kind,
    getter.isStatic = false ∧ getter.parameterCount = 0 ∧ getter.returnsVoid = false
  propertyGetter : ∀ site property,
    expander.captures.Gives site (.member (.property property)) →
    ∀ getter ∈ property.getter, getter.parameterCount = 0 ∧ getter.returnsVoid = false
  propertySetter : ∀ site property,
    expander.captures.Gives site (.member (.property property)) →
    ∀ setter ∈ property.setter, setter.parameterCount = 1 ∧ setter.returnsVoid = true

/-- Besides, a namespace comes from a method without parameters, and objects
are values. -/
structure Conventions (expander : Expander) (items : List CodeItem) : Prop
    extends MemberConventions expander items where
  access : ∀ method, .code (.call method) ∈ items →
    expander.placeholders.accessLength? expander.options.receiverCaptures
      [.code (.call method)] = some 1 →
    method.parameterCount = 0 ∧ method.returnsVoid = false
  object : ∀ site object, expander.captures.Gives site (.object object) →
    object.type.isVoid = false

variable {expander : Expander} {items rest : List CodeItem} {depth last : Nat}

theorem Conventions.of_subset {part : List CodeItem} (conventions : Conventions expander items)
    (subset : part ⊆ items) : Conventions expander part :=
  { conventions with
    access := fun method member => conventions.access method (subset member)
    operation := fun operation kind member => conventions.operation operation kind (subset member) }

theorem Method.callPushes_of_returnsVoid {method : Method} {void : Bool}
    (result : method.returnsVoid = void) : method.callPushes = (!void).toNat := by
  rw [callPushes, result]
  cases void <;> rfl

theorem Method.callPops_eq (method : Method) :
    method.callPops = (!method.isStatic).toNat + method.parameterCount := by
  rw [callPops, Nat.add_comm]
  cases method.isStatic <;> rfl

namespace Instruction.HasEffect

theorem shifted {instruction : Instruction Label} {pops pushes : Nat}
    (effect : instruction.HasEffect pops pushes) (offset : Int) :
    (instruction.shifted offset).HasEffect pops pushes := by
  cases instruction with
  | argument access index =>
      obtain ⟨rfl, rfl⟩ := effect.unique (argument access index)
      exact argument access _
  | _ => exact effect

theorem callOf {method : Method} {count : Nat} {void : Bool}
    (takes : method.parameterCount = count) (result : method.returnsVoid = void) :
    (.call method : Instruction Label).HasEffect ((!method.isStatic).toNat + count)
      (!void).toNat := by
  have effect := call method
  rwa [method.callPops_eq, takes, Method.callPushes_of_returnsVoid result] at effect

theorem literal {value : CapturedValue} {instruction : Instruction Label}
    (literal : value.literal? = some instruction) : instruction.HasEffect 0 1 := by
  obtain ⟨_, operand, _, rfl, brings, _⟩ := CapturedValue.exists_operand literal
  obtain ⟨_, known⟩ := brings.info
  exact raw ⟨_, known, rfl, rfl, rfl⟩ operand

end Instruction.HasEffect

theorem exists_access {placeholders : PlaceholderNamespace} {receiverCaptures : Bool}
    {access : List CodeItem}
    (accesses : placeholders.accessLength? receiverCaptures access = some access.length) :
    (∃ field, access = [.code (.argument .load 0), .code (.field .ofObject .load field)]) ∨
      (∃ field, access = [.code (.field .ofType .load field)]) ∨
      ∃ method, access = [.code (.call method)] := by
  have found := accesses
  unfold accessLength? at found
  split at found
  · rename_i field more
    split at found
    · cases more with
      | nil => exact Or.inl ⟨field, rfl⟩
      | cons => cases found
    · cases found
  · rename_i field more
    split at found
    · cases more with
      | nil => exact Or.inr (Or.inl ⟨field, rfl⟩)
      | cons => cases found
    · cases found
  · rename_i method more
    split at found
    · cases more with
      | nil => exact Or.inr (Or.inr ⟨method, rfl⟩)
      | cons => cases found
    · cases found
  · cases found

theorem not_isStatic_of_operation? {placeholders : PlaceholderNamespace} {operation : Method}
    (operates : placeholders.operation? (.call operation) = some operation) :
    operation.isStatic = false := by
  unfold operation? at operates
  dsimp only at operates
  split at operates
  · rename_i isOperation
    have instanceMethod := (Bool.and_eq_true_iff.mp isOperation).1
    rwa [Bool.not_eq_true'] at instanceMethod
  · cases operates

theorem mem_getters {captures : CaptureContext} {kinds : List ClosureKind} {getter : Method}
    {kind : ClosureKind} (owned : captures.owner? kinds (.getter getter) = some kind) :
    getter ∈ captures.gettersOf kind := by
  have owns := List.find?_some owned
  exact List.contains_iff_mem.mp owns

namespace Conventions

variable (conventions : Conventions expander items)

include conventions

theorem access_depth {access : List CodeItem}
    (accesses : expander.placeholders.accessLength? expander.options.receiverCaptures access =
      some access.length)
    (subset : access ⊆ items) (rest : List CodeItem) (depth : Nat) :
    depthBehind? (access ++ rest) depth = depthBehind? rest (depth + 1) := by
  rcases exists_access accesses with ⟨field, rfl⟩ | ⟨field, rfl⟩ | ⟨method, rfl⟩
  · have receiver := (Instruction.HasEffect.argument .load 0).depthBehind? (Nat.zero_le depth)
    have loaded := (Instruction.HasEffect.field .ofObject .load field).depthBehind?
      (Nat.le_add_left 1 depth) rest
    exact (receiver _).trans loaded
  · exact (Instruction.HasEffect.field .ofType .load field).depthBehind? (Nat.zero_le depth) rest
  · obtain ⟨takes, returns⟩ := conventions.access method (subset List.mem_cons_self) accesses
    have static : method.isStatic = true := by
      simp only [accessLength?] at accesses
      split at accesses
      · rename_i isAccess
        exact (Bool.and_eq_true_iff.mp (Bool.and_eq_true_iff.mp isAccess).1).1
      · cases accesses
    have effect := Instruction.HasEffect.callOf takes returns
    rw [static] at effect
    exact effect.depthBehind? (Nat.zero_le depth) rest

theorem read_effect {read : CaptureRead} {value : CapturedValue}
    (answered : read.Answered expander value) : read.instruction.HasEffect 1 1 := by
  have owned := answered.owned
  unfold CaptureRead.instruction
  split
  · rename_i field isField
    cases read.byAddress
    · exact .field .ofObject .load field
    · exact .field .ofObject .address field
  · rename_i getter isGetter
    rw [isGetter] at owned
    obtain ⟨static, takes, returns⟩ :=
      conventions.closureGetter _ getter (mem_getters owned)
    have effect := Instruction.HasEffect.callOf takes returns
    rwa [static] at effect

theorem read_depth {read : CaptureRead} {value : CapturedValue}
    (answered : read.Answered expander value) (rest : List CodeItem) (depth : Nat) :
    depthBehind? (read.items ++ rest) depth = depthBehind? rest (depth + 1) := by
  have receiver := (Instruction.HasEffect.argument .load 0).depthBehind? (Nat.zero_le depth)
  have last := (conventions.read_effect answered).depthBehind? (Nat.le_add_left 1 depth) rest
  cases reference : read.reference with
  | none =>
      rw [CaptureRead.items, CaptureRead.following, reference]
      exact (receiver _).trans last
  | some field =>
      have through := (Instruction.HasEffect.field .ofObject .load field).depthBehind?
        (Nat.le_add_left 1 depth) (.code read.instruction :: rest)
      rw [CaptureRead.items, CaptureRead.following, reference]
      exact (receiver _).trans (through.trans last)

end Conventions

theorem depthBehind?_copyCode (copy : Option Local) (rest : List CodeItem) (depth : Nat) :
    depthBehind? ((copyCode copy).map CodeItem.code ++ rest) (depth + 1) =
      depthBehind? rest (depth + 1) := by
  cases copy with
  | none => rfl
  | some slot =>
      have stored := (Instruction.HasEffect.localSlot .store slot).depthBehind?
        (Nat.le_add_left 1 depth)
      have found := (Instruction.HasEffect.localSlot .address slot).depthBehind?
        (Nat.zero_le depth) rest
      exact (stored _).trans found

namespace Accessor

variable {Builder : Type} [TypeBuilder Builder]

theorem define_eq_ok {runtime : AccessorRuntime} {object : CapturedObject} {accessor : Accessor}
    {before after : Workspace Builder}
    (done : Action.run (define runtime object) before = (.ok accessor, after)) :
    ∃ (name : String) (code : Body) (start later : Builder × CaptureTable),
      Action.run (TypeBuilder.defineMethod name object.type code) start =
        (.ok accessor.method, later) := by
  obtain ⟨_, ⟨_, _, _, _, method⟩, _⟩ := define_eq_ok_iff.mp done
  exact ⟨_, _, _, _, method⟩

def Returns (object : CapturedObject) (accessor : Accessor) : Prop :=
  accessor.method.isStatic = true ∧ accessor.method.parameterCount = 0 ∧
    accessor.method.returnType = some object.type

end Accessor

namespace Conventions

variable (conventions : Conventions expander items)

include conventions

theorem load_depth {objects : List CapturedObject} {accessors : List Accessor}
    {value : CapturedValue} {load : ExpandedItem}
    (returns : List.Forall₂ Accessor.Returns objects accessors)
    (loads : Loads expander.captures objects value load) (rest : List CodeItem) (depth : Nat) :
    depthBehind? (Expander.placeCalls accessors [load] ++ rest) depth =
      depthBehind? rest (depth + 1) := by
  cases loads with
  | literal literal =>
      exact (Instruction.HasEffect.literal literal).depthBehind? (Nat.zero_le depth) rest
  | @object object known number found same given =>
      obtain ⟨bound, isKnown⟩ := List.getElem?_eq_some_iff.mp found
      have below : number < accessors.length := returns.length_eq ▸ bound
      obtain ⟨static, takes, type⟩ := (List.forall₂_iff_get.mp returns).2 number bound below
      obtain ⟨site, given⟩ := given
      have result : (accessors.get ⟨number, below⟩).method.returnsVoid = false := by
        rw [Method.returnsVoid, type, List.get_eq_getElem, isKnown]
        exact conventions.object site known given
      have effect := Instruction.HasEffect.callOf takes result
      rw [static] at effect
      simp only [Expander.placeCalls, List.getElem?_eq_getElem below, Option.map_some,
        Option.toList_some, List.append_nil, List.cons_append, List.nil_append]
      exact effect.depthBehind? (Nat.zero_le depth) rest

end Conventions

/-- The code around so many values does what the operation does without its
target: in front of them it only adds values of its own. -/
structure ReplacedSite.Balanced (site : ReplacedSite) (count : Nat) : Prop where
  before : ∀ depth, depthBehind? (site.before.map CodeItem.code) depth =
    some (depth + site.before.length)
  after : ∀ depth, depthBehind? (site.after.map CodeItem.code)
    (depth + site.before.length + count) = some (depth + site.operation.callPushes)

theorem SiteCode.receiver_eq_ok {options : ExpansionOptions} {member : String} {before : List (Instruction Label)}
    (found : SiteCode.receiver options true member = .ok before) :
    options.destinationIsStatic = false ∧ before = [.argument .load 0] := by
  cases static : options.destinationIsStatic with
  | true =>
      rw [SiteCode.receiver, static] at found
      cases found
  | false =>
      rw [SiteCode.receiver, static] at found
      exact ⟨rfl, (Except.ok.inj found).symm⟩

theorem receiver_depth {options : ExpansionOptions} {needed : Bool} {member : String}
    {before : List (Instruction Label)}
    (found : SiteCode.receiver options needed member = .ok before) :
    before.length = needed.toNat ∧
      ∀ depth, depthBehind? (before.map CodeItem.code) depth = some (depth + before.length) := by
  cases needed with
  | false =>
      cases found
      exact ⟨rfl, fun _ => rfl⟩
  | true =>
      obtain ⟨_, rfl⟩ := SiteCode.receiver_eq_ok found
      exact ⟨rfl, (Instruction.HasEffect.argument .load 0).alone⟩

/-- The instruction that accesses a member, and whether it needs the receiver.
The accessors of a property are called. -/
inductive SiteCode.Accesses : Access → Member → Bool → Instruction Label → Prop
  | field (access : Access) (field : Field) :
      Accesses access (.field field) (!field.isStatic) (.field (fieldPlace field) access field)
  | localSlot (access : Access) (slot : Local) :
      Accesses access (.localSlot slot) false (.localSlot access slot)
  | getter {property : Property} {getter : Method} (found : property.getter = some getter) :
      Accesses .load (.property property) (!getter.isStatic) (.call getter)
  | setter {property : Property} {setter : Method} (found : property.setter = some setter) :
      Accesses .store (.property property) (!setter.isStatic) (.call setter)

theorem ofMember_eq_ok {options : ExpansionOptions} {kind : PlaceholderKind} {access : Access}
    {member : Member} {before after : List (Instruction Label)}
    (code : SiteCode.ofMember options kind access member = .ok ⟨before, .ok after⟩) :
    ∃ needed instruction, SiteCode.receiver options needed member.text = .ok before ∧
      after = [instruction] ∧ SiteCode.Accesses access member needed instruction := by
  cases member with
  | method method => cases code
  | localSlot slot =>
      cases code
      exact ⟨false, _, rfl, rfl, .localSlot access slot⟩
  | field field =>
      obtain ⟨receiver, found, same⟩ := bind_eq_ok.mp code
      cases same
      exact ⟨_, _, found, rfl, .field access field⟩
  | property property =>
      cases access with
      | load =>
          cases getter : property.getter with
          | none =>
              simp only [SiteCode.ofMember, getter] at code
              cases code
          | some accessor =>
              simp only [SiteCode.ofMember, getter] at code
              obtain ⟨receiver, found, same⟩ := bind_eq_ok.mp code
              cases same
              exact ⟨_, _, found, rfl, .getter getter⟩
      | store =>
          cases setter : property.setter with
          | none =>
              simp only [SiteCode.ofMember, setter] at code
              cases code
          | some accessor =>
              simp only [SiteCode.ofMember, setter] at code
              obtain ⟨receiver, found, same⟩ := bind_eq_ok.mp code
              cases same
              exact ⟨_, _, found, rfl, .setter setter⟩
      | address => cases code

theorem ofCall_eq_ok {options : ExpansionOptions} {operation method : Method} {count : Nat}
    {before after : List (Instruction Label)}
    (code : SiteCode.ofCall options operation method count = .ok ⟨before, .ok after⟩) :
    method.parameterCount = count ∧
      SiteCode.receiver options (!method.isStatic) method.text = .ok before ∧
      ((method.returnsVoid = operation.returnsVoid ∧ after = [.call method]) ∨
        (method.returnsVoid = false ∧ operation.returnsVoid = true ∧
          after = [.call method, .raw Opcode.pop .none])) := by
  unfold SiteCode.ofCall at code
  by_cases takes : method.parameterCount = count
  · simp only [takes, ne_eq, not_true_eq_false, if_false] at code
    obtain ⟨receiver, found, same⟩ := bind_eq_ok.mp code
    refine ⟨takes, ?_⟩
    cases returns : method.returnsVoid <;> cases wanted : operation.returnsVoid <;>
      rw [returns, wanted] at same <;> cases same
    · exact ⟨found, Or.inl ⟨rfl, rfl⟩⟩
    · exact ⟨found, Or.inr ⟨rfl, rfl, rfl⟩⟩
    · exact ⟨found, Or.inl ⟨rfl, rfl⟩⟩
  · simp only [ne_eq, takes, not_false_eq_true, if_true] at code
    cases code

theorem arity_of_access {operation : Method} {kind : PlaceholderKind} {access : Access}
    (accesses : SiteCode.access? kind = some access) (classified : classify operation = .ok kind) :
    operation.parameterCount = access.pops + 1 := by
  have arity := arity_of_classify classified
  cases kind <;> cases accesses <;> exact eq_of_beq arity

namespace Conventions

variable (conventions : Conventions expander items)

include conventions

theorem member_effect {kind : PlaceholderKind} {access : Access} {site : CaptureSite}
    {member : Member} {before after : List (Instruction Label)}
    (given : expander.captures.Gives site (.member member))
    (code : SiteCode.ofMember expander.options kind access member = .ok ⟨before, .ok after⟩) :
    ∃ needed instruction, SiteCode.receiver expander.options needed member.text = .ok before ∧
      after = [instruction] ∧
      instruction.HasEffect (needed.toNat + access.pops) access.pushes := by
  obtain ⟨needed, instruction, receiver, same, accesses⟩ := ofMember_eq_ok code
  refine ⟨needed, instruction, receiver, same, ?_⟩
  cases accesses with
  | field access field =>
      have effect := Instruction.HasEffect.field (SiteCode.fieldPlace field) access field
      have place : (SiteCode.fieldPlace field).pops = (!field.isStatic).toNat := by
        unfold SiteCode.fieldPlace
        cases field.isStatic <;> rfl
      rwa [place] at effect
  | localSlot access slot =>
      rw [Bool.toNat_false, Nat.zero_add]
      exact .localSlot access slot
  | getter found =>
      obtain ⟨takes, returns⟩ := conventions.propertyGetter site _ given _ found
      exact .callOf takes returns
  | setter found =>
      obtain ⟨takes, returns⟩ := conventions.propertySetter site _ given _ found
      exact .callOf takes returns

theorem pushes_of_access {operation : Method} {kind : PlaceholderKind} {access : Access}
    (member : .code (.call operation) ∈ items)
    (operates : expander.placeholders.operation? (.call operation) = some operation)
    (classified : classify operation = .ok kind)
    (accesses : SiteCode.access? kind = some access) : operation.callPushes = access.pushes := by
  have accessed : kind ≠ .call := by
    rintro rfl
    cases accesses
  have result := conventions.operation operation kind member operates classified accessed
  rw [Method.callPushes_of_returnsVoid result]
  cases kind <;> cases accesses <;> rfl

theorem acts_balanced {site : ReplacedSite} {kind : PlaceholderKind} {count : Nat}
    (member : .code (.call site.operation) ∈ items)
    (operates : expander.placeholders.operation? (.call site.operation) = some site.operation)
    (classified : classify site.operation = .ok kind)
    (arity : site.operation.parameterCount = count + 1)
    (acts : site.Acts expander count kind) : site.Balanced count := by
  cases acts with
  | member accesses target byValue answered code =>
      obtain ⟨needed, instruction, receiver, same, effect⟩ :=
        conventions.member_effect answered.given code
      obtain ⟨own, before⟩ := receiver_depth receiver
      rw [arity_of_access accesses classified] at arity
      refine ⟨before, ?_⟩
      intro depth
      rw [same, own, conventions.pushes_of_access member operates classified accesses,
        Nat.add_assoc, ← Nat.succ.inj arity]
      exact effect.alone depth
  | @call method target code =>
      obtain ⟨takes, receiver, ⟨result, same⟩ | ⟨returns, drops, same⟩⟩ := ofCall_eq_ok code
      · obtain ⟨own, before⟩ := receiver_depth receiver
        refine ⟨before, ?_⟩
        intro depth
        rw [same, own, Nat.add_assoc, Method.callPushes_of_returnsVoid result.symm]
        exact (Instruction.HasEffect.callOf takes rfl).alone depth
      · obtain ⟨own, before⟩ := receiver_depth receiver
        refine ⟨before, ?_⟩
        intro depth
        have called := (Instruction.HasEffect.callOf takes returns).depthBehind?
          (Nat.le_add_left _ depth) [.code (.raw Opcode.pop .none)]
        have dropped : (.raw Opcode.pop .none : Instruction Label).HasEffect 1 0 :=
          .raw (by decide) _
        rw [same, own, Nat.add_assoc, Method.callPushes_of_returnsVoid drops]
        refine called.trans ?_
        rw [Nat.add_sub_cancel]
        exact dropped.alone depth

theorem site_depth {site : ReplacedSite} {values : List (List CodeItem)} {rest : List CodeItem}
    (stands : site.Stands expander values rest) (subset : site.access ⊆ items)
    (behind : List CodeItem) (depth : Nat) :
    depthBehind? (site.access ++ (site.target ++ (values.flatten ++
        .code (.call site.operation) :: behind))) depth =
      depthBehind? behind (depth + site.operation.callPushes) := by
  obtain ⟨target, others⟩ := List.forall_mem_cons.mp stands.separate.values
  have called := Instruction.HasEffect.callOf stands.arity rfl
  rw [not_isStatic_of_operation? stands.operates, ← Method.callPushes_of_returnsVoid rfl] at called
  rw [conventions.access_depth stands.accesses subset,
    depthBehind?_append_of (target.depthBehind? fun _ _ _ => Nat.succ_pos depth),
    depthBehind?_append_of (depthBehind?_values others (Nat.succ_pos (depth + 1)))]
  rw [called.depthBehind? (by change 1 + _ ≤ _; omega)]
  congr 1
  change _ - (1 + _) + _ = _
  omega

end Conventions
end CilTemplate
