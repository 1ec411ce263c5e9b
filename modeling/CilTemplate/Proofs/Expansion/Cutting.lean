import CilTemplate.Proofs.Expansion.Lookahead

/-
Cutting in the other direction.  Where the slicer succeeds, the code is made of
separate arguments, and where a site is read, the code is an access, a target,
values and the operation, with nothing between them.
-/

namespace CilTemplate

namespace StackUnit

theorem net_drop_cons (unit : StackUnit) {back : List StackUnit}
    (suffixes : ∀ count, net (back.drop count) ≤ 0) (whole : net (unit :: back) ≤ 0) (count : Nat) :
    net ((unit :: back).drop count) ≤ 0 := by
  cases count with
  | zero => exact whole
  | succ count => exact suffixes count

/-- The walk ends an argument at the first unit with which the units behind it
leave one value. -/
theorem collect_within_eq_ok {arity missing stop : Nat} {found spans : List Span}
    {units back : List StackUnit} (suffixes : ∀ count, net (back.drop count) ≤ 0)
    (done : collect arity (missing + 1) stop (net back - 1) found units = .ok spans) :
    ∃ walk first earlier, units = walk ++ first :: earlier ∧
      ComputeValue (first :: (walk.reverse ++ back)) ∧
      collect arity missing first.start (-1) (⟨first.start, stop⟩ :: found) earlier =
        .ok spans := by
  induction units generalizing back with
  | nil => cases done
  | cons unit rest inductionHypothesis =>
      have balance : net back - 1 + unit.pushes - unit.pops = net (unit :: back) - 1 := by
        rw [net_cons, effect]
        omega
      rw [collect] at done
      simp only [balance] at done
      split at done
      · cases done
      · split at done
        · rename_i complete
          refine ⟨[], unit, rest, rfl, ⟨?_, fun count _ => suffixes count⟩, done⟩
          change net (unit :: back) = 1
          omega
        · have open' := net_drop_cons unit suffixes (by omega)
          obtain ⟨walk, first, earlier, same, value, further⟩ := inductionHypothesis open' done
          refine ⟨unit :: walk, first, earlier, congrArg (unit :: ·) same, ?_, further⟩
          rw [List.reverse_cons, List.append_assoc]
          exact value

theorem collect_eq_ok {arity missing stop : Nat} {found spans : List Span}
    {units : List StackUnit} (done : collect arity missing stop (-1) found units = .ok spans) :
    ∃ groups : List (List StackUnit), groups.length = missing ∧
      units.reverse = groups.flatten ∧ ∀ group ∈ groups, ComputeValue group := by
  induction missing generalizing stop found units with
  | zero =>
      cases units with
      | nil => exact ⟨[], rfl, rfl, fun _ member => by cases member⟩
      | cons => cases done
  | succ missing inductionHypothesis =>
      obtain ⟨walk, first, earlier, rfl, value, further⟩ :=
        @collect_within_eq_ok _ _ _ _ _ _ [] (fun count => by simp [net]) done
      obtain ⟨groups, length, same, values⟩ := inductionHypothesis further
      rw [List.append_nil] at value
      refine ⟨groups ++ [first :: walk.reverse], ?_, ?_, ?_⟩
      · rw [List.length_append, length]
        rfl
      · rw [List.reverse_append, List.reverse_cons, same]
        simp
      · intro group member
        rcases List.mem_append.mp member with early | last
        · exact values group early
        · rw [List.mem_singleton.mp last]
          exact value

theorem ofItems_isOk {base position : Nat} {items : List CodeItem} {units : List StackUnit}
    (found : ofItems base position items = .ok units) (other start : Nat) :
    ∃ own, ofItems other start items = .ok own := by
  cases items with
  | nil => exact ⟨[], rfl⟩
  | cons item rest =>
      obtain ⟨instruction, rfl, straight, first | pair⟩ := ofItems_cons_eq_ok.mp found
      · obtain ⟨unit, others, rfl, alone, noPair, behind⟩ := first
        obtain ⟨_, _, popped, pushed⟩ := single_eq_ok.mp alone
        obtain ⟨own, moved⟩ := ofItems_isOk behind other (start + 1)
        have here : single start instruction = .ok ⟨start, start + 1, unit.pops, unit.pushes⟩ :=
          single_eq_ok.mpr ⟨rfl, rfl, popped, pushed⟩
        exact ⟨_, ofItems_cons_eq_ok.mpr
          ⟨instruction, rfl, straight, Or.inl ⟨_, own, rfl, here, noPair, moved⟩⟩⟩
      · obtain ⟨next, behind, others, rfl, pair, rfl, sliced⟩ := pair
        obtain ⟨own, moved⟩ := ofItems_isOk sliced other (start + 2)
        exact ⟨_, ofItems_cons_eq_ok.mpr
          ⟨instruction, rfl, straight, Or.inr ⟨next, behind, own, rfl, pair, rfl, moved⟩⟩⟩
termination_by items.length

theorem EndsBefore.cons {item : CodeItem} {left right : List CodeItem}
    (apart : EndsBefore left right) (alone : left = [] → EndsBefore [item] right) :
    EndsBefore (item :: left) right := by
  cases left with
  | nil => exact alone rfl
  | cons next rest =>
      intro stored last
      rw [List.getLast?_cons_cons] at last
      exact apart stored last

theorem ofItems_eq_append {base position : Nat} {items : List CodeItem}
    {left right : List StackUnit} (found : ofItems base position items = .ok (left ++ right)) :
    ∃ front back, items = front ++ back ∧ EndsBefore front back ∧
      ofItems base position front = .ok left ∧
      ofItems base (position + front.length) back = .ok right := by
  cases left with
  | nil => exact ⟨[], items, rfl, endsBefore_nil _, rfl, found⟩
  | cons unit left =>
      cases items with
      | nil => cases found
      | cons item rest =>
          obtain ⟨instruction, rfl, straight, first | pair⟩ := ofItems_cons_eq_ok.mp found
          · obtain ⟨_, _, same, alone, noPair, behind⟩ := first
            obtain ⟨rfl, rfl⟩ := List.cons.inj same
            obtain ⟨front, back, rfl, apart, first, second⟩ := ofItems_eq_append behind
            refine ⟨.code instruction :: front, back, rfl, ?_, ?_, ?_⟩
            · apply apart.cons
              rintro rfl stored last following member
              cases last
              exact noPair following member
            · refine ofItems_cons_eq_ok.mpr
                ⟨instruction, rfl, straight, Or.inl ⟨_, left, rfl, alone, ?_, first⟩⟩
              intro next member
              apply noPair next
              rw [List.head?_append, Option.mem_def.mp member]
              rfl
            · rw [List.length_cons, Nat.add_comm front.length, ← Nat.add_assoc]
              exact second
          · obtain ⟨next, behind, _, rfl, pair, same, sliced⟩ := pair
            obtain ⟨rfl, rfl⟩ := List.cons.inj same
            obtain ⟨front, back, rfl, apart, first, second⟩ := ofItems_eq_append sliced
            obtain ⟨stored, loaded, rfl, rfl⟩ := slots_of_passesOn pair
            refine ⟨_ :: _ :: front, back, rfl, ?_, ofItems_cons_eq_ok.mpr
              ⟨_, rfl, straight, Or.inr ⟨_, front, left, rfl, pair, rfl, first⟩⟩, ?_⟩
            · apply EndsBefore.cons _ (fun empty => by cases empty)
              apply apart.cons
              rintro rfl _ last _ _
              cases last
              rfl
            · rw [List.length_cons, List.length_cons]
              rw [Nat.add_assoc, Nat.add_comm 2] at second
              exact second
termination_by items.length

theorem eq_nil_of_ofItems {base position : Nat} {items : List CodeItem}
    (found : ofItems base position items = .ok []) : items = [] := by
  cases items with
  | nil => rfl
  | cons item rest =>
      obtain ⟨_, _, _, ⟨_, _, same, _⟩ | ⟨_, _, _, _, _, same, _⟩⟩ :=
        ofItems_cons_eq_ok.mp found <;> cases same

theorem computeValue_of_shift {offset : Nat} {units : List StackUnit}
    (value : ComputeValue (units.map (shift offset))) : ComputeValue units where
  total := by
    rw [← net_shift offset]
    exact value.total
  suffixes count below := by
    rw [← net_shift offset, List.map_drop]
    exact value.suffixes count (by rw [List.length_map]; exact below)

end StackUnit

theorem computesValue_of_group {base position : Nat} {items : List CodeItem}
    {group : List StackUnit} (found : StackUnit.ofItems base position items = .ok group)
    (value : StackUnit.ComputeValue group) : ComputesValue items := by
  obtain ⟨own, ownFound⟩ := StackUnit.ofItems_isOk found 0 0
  have moved := StackUnit.ofItems_shift 0 ownFound base position
  rw [Nat.zero_add, found] at moved
  rw [Except.ok.inj moved] at value
  exact ⟨own, ownFound, StackUnit.computeValue_of_shift value⟩

theorem separate_of_groups {base position : Nat} {items : List CodeItem}
    {groups : List (List StackUnit)}
    (found : StackUnit.ofItems base position items = .ok groups.flatten)
    (values : ∀ group ∈ groups, StackUnit.ComputeValue group) :
    ∃ pieces, pieces.flatten = items ∧ pieces.length = groups.length ∧ Separate pieces := by
  induction groups generalizing position items with
  | nil =>
      rw [StackUnit.eq_nil_of_ofItems found]
      exact ⟨[], rfl, rfl, ⟨fun _ absent => (by cases absent), List.isChain_nil⟩⟩
  | cons group rest inductionHypothesis =>
      obtain ⟨own, others⟩ := List.forall_mem_cons.mp values
      obtain ⟨front, back, rfl, apart, first, second⟩ := StackUnit.ofItems_eq_append found
      obtain ⟨pieces, rfl, length, separate⟩ := inductionHypothesis second others
      exact ⟨front :: pieces, rfl, congrArg (· + 1) length,
        .cons (computesValue_of_group first own) apart separate⟩

/-- The slicer cuts code into separate arguments that make up all of it. -/
theorem argumentSpans_eq_ok {base arity : Nat} {items : List CodeItem} {spans : List Span}
    (done : argumentSpans base items arity = .ok spans) :
    ∃ pieces, pieces.flatten = items ∧ pieces.length = arity ∧ Separate pieces ∧
      (spans.map fun span => span.of items) = pieces := by
  obtain ⟨units, found, collected⟩ := bind_eq_ok.mp done
  obtain ⟨groups, length, same, values⟩ := StackUnit.collect_eq_ok collected
  rw [List.reverse_reverse] at same
  rw [same] at found
  obtain ⟨pieces, rfl, count, separate⟩ := separate_of_groups found values
  have again := argumentSpans_of_separate base separate
  rw [count, length, done] at again
  refine ⟨pieces, rfl, count.trans length, separate, ?_⟩
  rw [Except.ok.inj again]
  exact of_following [] pieces

namespace PlaceholderNamespace

variable {placeholders : PlaceholderNamespace} {receiverCaptures : Bool}

theorem operation?_eq_some {instruction : Instruction Label} {operation : Method}
    (operates : placeholders.operation? instruction = some operation) :
    instruction = .call operation := by
  unfold operation? at operates
  split at operates
  · split at operates
    · rw [Option.some.inj operates]
    · cases operates
  · cases operates

theorem accessLength?_take {items : List CodeItem} {length : Nat}
    (found : placeholders.accessLength? receiverCaptures items = some length) :
    ∃ access rest, items = access ++ rest ∧ access.length = length ∧
      placeholders.accessLength? receiverCaptures access = some access.length := by
  unfold accessLength? at found
  split at found
  · rename_i field rest
    split at found
    · rename_i isNamespace
      cases found
      refine ⟨[_, _], rest, rfl, rfl, ?_⟩
      simp only [accessLength?, isNamespace, if_true]
      rfl
    · cases found
  · rename_i field rest
    split at found
    · rename_i isNamespace
      cases found
      refine ⟨[_], rest, rfl, rfl, ?_⟩
      simp only [accessLength?, isNamespace, if_true]
      rfl
    · cases found
  · rename_i method rest
    split at found
    · rename_i isNamespace
      cases found
      refine ⟨[_], rest, rfl, rfl, ?_⟩
      simp only [accessLength?, isNamespace, if_true]
      rfl
    · cases found
  · cases found

theorem arity_of_classify {operation : Method} {kind : PlaceholderKind}
    (classified : classify operation = .ok kind) :
    kind.acceptsArity operation.parameterCount = true := by
  unfold classify at classified
  split at classified
  · cases classified
  · split at classified
    · rename_i accepted
      rw [← Except.ok.inj classified]
      exact accepted
    · cases classified

end PlaceholderNamespace

namespace PlaceholderSite

open PlaceholderNamespace

variable {placeholders : PlaceholderNamespace} {receiverCaptures : Bool}

theorem cutAtOperation_eq_ok {start position skip depth : Nat} {items : List CodeItem}
    {cut : OperationCut}
    (done : cutAtOperation placeholders receiverCaptures start position skip depth items =
      .ok cut) :
    items = cut.inner ++ .code (.call cut.operation) :: cut.rest ∧
      placeholders.operation? (.call cut.operation) = some cut.operation := by
  induction items generalizing position skip depth cut with
  | nil => cases skip <;> cases done
  | cons item rest inductionHypothesis =>
      have step : ∀ {position skip depth : Nat},
          (cutAtOperation placeholders receiverCaptures start position skip depth rest).map
            (OperationCut.withFirst item) = .ok cut →
          item :: rest = cut.inner ++ .code (.call cut.operation) :: cut.rest ∧
            placeholders.operation? (.call cut.operation) = some cut.operation := by
        intro position skip depth shorter
        cases found : cutAtOperation placeholders receiverCaptures start position skip depth
            rest with
        | error => rw [found] at shorter; cases shorter
        | ok behind =>
            rw [found] at shorter
            obtain ⟨same, operates⟩ := inductionHypothesis found
            rw [← Except.ok.inj shorter]
            exact ⟨congrArg (item :: ·) same, operates⟩
      cases skip with
      | succ skip => exact step done
      | zero =>
          simp only [cutAtOperation] at done
          split at done
          · exact step done
          · split at done
            · cases done
            · split at done
              · cases done
              · split at done
                · rename_i operates
                  rw [← Except.ok.inj done]
                  have isCall := operation?_eq_some operates
                  rw [isCall] at operates ⊢
                  exact ⟨rfl, operates⟩
                · exact step done
                · exact step done

theorem read_eq_ok {start accessLength : Nat} {items : List CodeItem} {site : PlaceholderSite}
    {shorter : site.rest.length < items.length ∧
      ∀ value ∈ site.values, value.length < items.length}
    (found : read placeholders receiverCaptures start accessLength items =
      .ok ⟨site, shorter⟩) :
    classify site.operation = .ok site.kind ∧
      placeholders.operation? (.call site.operation) = some site.operation ∧
      site.operation.parameterCount = site.values.length + 1 ∧
      Separate (site.target :: site.values) ∧
      items.drop accessLength = site.target ++ (site.values.flatten ++
        .code (.call site.operation) :: site.rest) := by
  dsimp only [read] at found
  split at found
  · cases found
  · rename_i cut isCut
    obtain ⟨kind, classified, rest⟩ := bind_eq_ok.mp found
    obtain ⟨spans, sliced, same⟩ := bind_eq_ok.mp rest
    obtain ⟨pieces, flatten, count, separate, spanned⟩ := argumentSpans_eq_ok sliced
    obtain ⟨split, operates⟩ := cutAtOperation_eq_ok isCut
    obtain rfl := congrArg Subtype.val (Except.ok.inj same)
    dsimp only at spanned ⊢
    rw [spanned, split, ← flatten]
    have arity := arity_of_classify classified
    cases pieces with
    | nil =>
        rw [← count] at arity
        cases kind <;> cases arity
    | cons target values =>
        refine ⟨classified, operates, count.symm, separate, ?_⟩
        rw [List.headD_cons, List.tail_cons, List.flatten_cons, List.append_assoc]

end PlaceholderSite
end CilTemplate
