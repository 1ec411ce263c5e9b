import CilTemplate.Proofs.Expansion.TemplateCode

/-
The lookahead from an access to its operation.  Nested sites bring as many
operations as accesses, so the depth behind any code without labels and
transfers is the depth in front of it, and the first operation that is met at
depth zero is the one of the site itself.
-/

namespace CilTemplate

namespace PlaceholderNamespace

variable (placeholders : PlaceholderNamespace)

/-- Apart from a load of the receiver, an instruction shows by itself whether
it is an access. -/
theorem accessLength?_cons (receiverCaptures : Bool) {instruction : Instruction Label}
    (other : receiverCaptures = true → instruction ≠ .argument .load 0) (rest : List CodeItem) :
    placeholders.accessLength? receiverCaptures (.code instruction :: rest) =
      placeholders.accessLength? receiverCaptures [.code instruction] := by
  by_cases receiver : instruction = .argument .load 0
  · subst receiver
    have static : receiverCaptures = false := by
      cases receiverCaptures with
      | false => rfl
      | true => exact absurd rfl (other rfl)
    subst static
    unfold accessLength?
    split <;> simp_all
  · unfold accessLength?
    split <;> simp_all

theorem accessLength?_pair (receiverCaptures : Bool) (first second : CodeItem)
    (rest : List CodeItem) :
    placeholders.accessLength? receiverCaptures (first :: second :: rest) =
      placeholders.accessLength? receiverCaptures [first, second] := by
  unfold accessLength?
  split <;> simp_all

theorem accessLength?_append {receiverCaptures : Bool} {access : List CodeItem} {length : Nat}
    (found : placeholders.accessLength? receiverCaptures access = some length)
    (rest : List CodeItem) :
    placeholders.accessLength? receiverCaptures (access ++ rest) = some length := by
  match access with
  | [] => cases found
  | first :: second :: more =>
      rw [accessLength?_pair] at found
      rw [List.cons_append, List.cons_append, accessLength?_pair, found]
  | [item] =>
      unfold accessLength? at found ⊢
      split at found <;> simp_all

theorem accessLength?_operation {placeholders : PlaceholderNamespace} {receiverCaptures : Bool}
    {operation : Method} (operates : placeholders.operation? (.call operation) = some operation)
    (rest : List CodeItem) :
    placeholders.accessLength? receiverCaptures (.code (.call operation) :: rest) = none := by
  simp only [operation?] at operates
  split at operates
  · simp_all [accessLength?]
  · cases operates

end PlaceholderNamespace

namespace OperationCut

def behind (items : List CodeItem) (cut : OperationCut) : OperationCut :=
  { cut with inner := items ++ cut.inner }

end OperationCut

namespace PlaceholderSite

open PlaceholderNamespace

variable {expander : Expander} {value : CaptureSite → CapturedValue}

theorem map_withFirst_map_behind (item : CodeItem) (items : List CodeItem)
    (result : Except Error OperationCut) :
    (result.map (OperationCut.behind items)).map (OperationCut.withFirst item) =
      result.map (OperationCut.behind (item :: items)) := by
  cases result <;> rfl

theorem map_behind_map_behind (first second : List CodeItem)
    (result : Except Error OperationCut) :
    (result.map (OperationCut.behind second)).map (OperationCut.behind first) =
      result.map (OperationCut.behind (first ++ second)) := by
  cases result with
  | error error => rfl
  | ok cut => simp [Except.map, OperationCut.behind]

theorem map_behind_nil (result : Except Error OperationCut) :
    result.map (OperationCut.behind []) = result := by
  cases result <;> rfl

variable {placeholders : PlaceholderNamespace} {receiverCaptures : Bool} (start : Nat)

theorem cutAtOperation_skip (position depth : Nat) (skipped tail : List CodeItem) :
    cutAtOperation placeholders receiverCaptures start position skipped.length depth
        (skipped ++ tail) =
      (cutAtOperation placeholders receiverCaptures start (position + skipped.length) 0 depth
        tail).map (OperationCut.behind skipped) := by
  induction skipped generalizing position with
  | nil => exact (map_behind_nil _).symm
  | cons item rest inductionHypothesis =>
      rw [List.cons_append, List.length_cons, cutAtOperation, inductionHypothesis,
        map_withFirst_map_behind, Nat.add_assoc, Nat.add_comm 1]

theorem cutAtOperation_access {access : List CodeItem}
    (found : placeholders.accessLength? receiverCaptures access = some access.length)
    (position depth : Nat) (tail : List CodeItem) :
    cutAtOperation placeholders receiverCaptures start position 0 depth (access ++ tail) =
      (cutAtOperation placeholders receiverCaptures start (position + access.length) 0
        (depth + 1) tail).map (OperationCut.behind access) := by
  cases access with
  | nil => cases found
  | cons first more =>
      have whole := accessLength?_append placeholders found tail
      rw [List.cons_append] at whole ⊢
      simp only [cutAtOperation, whole, List.length_cons, Nat.add_sub_cancel]
      rw [cutAtOperation_skip, map_withFirst_map_behind, Nat.add_assoc, Nat.add_comm 1]

theorem cutAtOperation_quiet {instruction : Instruction Label} {tail : List CodeItem}
    (access : placeholders.accessLength? receiverCaptures (.code instruction :: tail) = none)
    (operation : placeholders.operation? instruction = none)
    (straight : instruction.isControlTransfer = false) (position depth : Nat) :
    cutAtOperation placeholders receiverCaptures start position 0 depth
        (.code instruction :: tail) =
      (cutAtOperation placeholders receiverCaptures start (position + 1) 0 depth tail).map
        (OperationCut.behind [.code instruction]) := by
  simp only [cutAtOperation, access, straight, operation]
  rfl

theorem cutAtOperation_operation {operation : Method}
    (operates : placeholders.operation? (.call operation) = some operation)
    (position depth : Nat) (tail : List CodeItem) :
    cutAtOperation placeholders receiverCaptures start position 0 (depth + 1)
        (.code (.call operation) :: tail) =
      (cutAtOperation placeholders receiverCaptures start (position + 1) 0 depth tail).map
        (OperationCut.behind [.code (.call operation)]) := by
  simp only [cutAtOperation, accessLength?_operation operates, Instruction.isControlTransfer, operates]
  rfl

theorem ne_receiver (read : CaptureRead) : read.instruction ≠ .argument .load 0 := by
  unfold CaptureRead.instruction
  split <;> simp

theorem straight_instruction (read : CaptureRead) :
    read.instruction.isControlTransfer = false := by
  unfold CaptureRead.instruction
  split <;> rfl

theorem accessLength?_read {read : CaptureRead} (resolves : read.Resolves expander)
    (tail : List CodeItem) :
    expander.placeholders.accessLength? true (read.items ++ tail) = none := by
  have apart := resolves.apart
  cases shape : read.reference with
  | none =>
      simp only [CaptureRead.items, CaptureRead.following, shape] at apart ⊢
      exact (accessLength?_pair _ _ _ _ _).trans apart
  | some field =>
      simp only [CaptureRead.items, CaptureRead.following, shape] at apart ⊢
      rw [← apart]
      exact (accessLength?_pair _ _ _ _ _).trans (accessLength?_pair _ _ _ _ _).symm

theorem cutAtOperation_read {read : CaptureRead} (resolves : read.Resolves expander)
    (quiet : read.instruction.Quiet expander) (position depth : Nat) (tail : List CodeItem) :
    cutAtOperation expander.placeholders true start position 0 depth (read.items ++ tail) =
      (cutAtOperation expander.placeholders true start (position + read.items.length) 0 depth
        tail).map (OperationCut.behind read.items) := by
  have access := accessLength?_read resolves tail
  have last : ∀ position, cutAtOperation expander.placeholders true start position 0 depth
      (.code read.instruction :: tail) =
        (cutAtOperation expander.placeholders true start (position + 1) 0 depth tail).map
          (OperationCut.behind [.code read.instruction]) := by
    intro position
    apply cutAtOperation_quiet start _ quiet.operation (straight_instruction read)
    rw [accessLength?_cons _ _ (fun _ => ne_receiver read)]
    exact quiet.access
  cases shape : read.reference with
  | none =>
      simp only [CaptureRead.items, CaptureRead.following, shape] at access ⊢
      refine (cutAtOperation_quiet start access rfl rfl position depth).trans ?_
      refine (congrArg _ (last _)).trans ?_
      rw [map_behind_map_behind]
      rfl
  | some field =>
      simp only [CaptureRead.items, CaptureRead.following, shape] at access ⊢
      refine (cutAtOperation_quiet start access rfl rfl position depth).trans ?_
      refine (congrArg _ (cutAtOperation_quiet start rfl rfl rfl _ depth)).trans ?_
      refine (congrArg _ (congrArg _ (last _))).trans ?_
      rw [map_behind_map_behind, map_behind_map_behind]
      rfl

mutual

/-- The lookahead passes over straight code with the depth it came with. -/
theorem cutAtOperation_code (receiver : expander.options.receiverCaptures = true)
    (code : TemplateCode) (straight : code.Straight expander)
    (wellFormed : code.WellFormed expander value) (position depth : Nat)
    (tail : List CodeItem) :
    cutAtOperation expander.placeholders true start position 0 depth (code.items ++ tail) =
      (cutAtOperation expander.placeholders true start (position + code.items.length) 0 depth
        tail).map (OperationCut.behind code.items) := by
  cases code with
  | done => exact (map_behind_nil _).symm
  | mark label rest => cases straight
  | plain instruction rest =>
      rcases straight with ⟨transferless, restStraight⟩
      rcases wellFormed with ⟨plain, restWellFormed⟩
      have access : expander.placeholders.accessLength? true
          (.code instruction :: (rest.items ++ tail)) = none := by
        rw [accessLength?_cons _ _ (fun _ => plain.receiver receiver), ← receiver]
        exact plain.access
      rw [TemplateCode.items, List.cons_append,
        cutAtOperation_quiet start access plain.operation transferless,
        cutAtOperation_code receiver rest restStraight restWellFormed, map_behind_map_behind,
        List.length_cons, Nat.add_assoc, Nat.add_comm 1]
      rfl
  | read found rest =>
      rcases straight with ⟨quiet, restStraight⟩
      rcases wellFormed with ⟨resolves, -, restWellFormed⟩
      rw [TemplateCode.items, List.append_assoc, cutAtOperation_read start resolves quiet,
        cutAtOperation_code receiver rest restStraight restWellFormed, map_behind_map_behind,
        List.length_append, Nat.add_assoc]
  | site access target values operation rest =>
      rcases wellFormed with ⟨accepted, valuesWellFormed, restWellFormed⟩
      have shape : (TemplateCode.site access target values operation rest).items ++ tail =
          access ++ (target.items ++ (values.items.flatten ++
            .code (.call operation) :: (rest.items ++ tail))) := by
        simp [TemplateCode.items]
      rw [shape, cutAtOperation_access start accepted.accesses,
        cutAtOperation_read start accepted.resolves accepted.quiet,
        cutAtOperation_values receiver values valuesWellFormed,
        cutAtOperation_operation start accepted.operates,
        cutAtOperation_code receiver rest straight restWellFormed,
        map_behind_map_behind, map_behind_map_behind, map_behind_map_behind,
        map_behind_map_behind]
      simp only [TemplateCode.items, List.append_assoc, List.length_append, List.length_cons,
        Nat.add_assoc, Nat.add_comm 1, List.cons_append, List.nil_append]

theorem cutAtOperation_values (receiver : expander.options.receiverCaptures = true)
    (values : TemplateValues) (wellFormed : values.WellFormed expander value)
    (position depth : Nat) (tail : List CodeItem) :
    cutAtOperation expander.placeholders true start position 0 depth
        (values.items.flatten ++ tail) =
      (cutAtOperation expander.placeholders true start (position + values.items.flatten.length) 0
        depth tail).map (OperationCut.behind values.items.flatten) := by
  cases values with
  | none => exact (map_behind_nil _).symm
  | value code rest =>
      rcases wellFormed with ⟨straight, codeWellFormed, restWellFormed⟩
      rw [TemplateValues.items, List.flatten_cons, List.append_assoc,
        cutAtOperation_code receiver code straight codeWellFormed,
        cutAtOperation_values receiver rest restWellFormed, map_behind_map_behind,
        List.length_append, Nat.add_assoc]

end

end PlaceholderSite
end CilTemplate
