import CilTemplate.Placeholder.Arguments
import CilTemplate.Placeholder.Kind

/-
Placeholder sites.  A site reaches from a namespace access to the operation
that answers it; accesses and operations between the two belong to nested
sites and pair up like brackets.  The code between the two is cut into the
arguments of the operation.
-/

namespace CilTemplate

structure PlaceholderSite where
  kind : PlaceholderKind
  operation : Method
  target : List CodeItem
  values : List (List CodeItem)
  /-- The number of items of the site, from the access to the operation. -/
  length : Nat
  rest : List CodeItem

structure OperationCut where
  inner : List CodeItem
  operation : Method
  rest : List CodeItem

def OperationCut.withFirst (item : CodeItem) (cut : OperationCut) : OperationCut :=
  { cut with inner := item :: cut.inner }

namespace PlaceholderSite

/-- Finds the operation that answers the access at `start`.  The depth counts
the nested accesses that still wait for their own operation; `skip` counts the
items that remain of an access. -/
def cutAtOperation (placeholders : PlaceholderNamespace) (receiverCaptures : Bool)
    (start : Nat) : Nat → Nat → Nat → List CodeItem → Except Error OperationCut
  | _, _, _, [] => .error (.unterminatedPlaceholder start)
  | position, skip + 1, depth, item :: rest =>
      (cutAtOperation placeholders receiverCaptures start (position + 1) skip depth rest).map
        (OperationCut.withFirst item)
  | position, 0, depth, item :: rest =>
      match placeholders.accessLength? receiverCaptures (item :: rest) with
      | some length =>
          (cutAtOperation placeholders receiverCaptures start (position + 1) (length - 1)
            (depth + 1) rest).map (OperationCut.withFirst item)
      | none =>
          match item with
          | .mark label =>
              .error (.controlFlowInPlaceholder (.labelInPlaceholder label.name start))
          | .code instruction =>
              if instruction.isControlTransfer then
                .error (.controlFlowInPlaceholder
                  (.transferInPlaceholder instruction.text position start))
              else
                match placeholders.operation? instruction, depth with
                | some operation, 0 => .ok ⟨[], operation, rest⟩
                | some _, outer + 1 =>
                    (cutAtOperation placeholders receiverCaptures start (position + 1) 0 outer
                      rest).map (OperationCut.withFirst item)
                | none, depth =>
                    (cutAtOperation placeholders receiverCaptures start (position + 1) 0 depth
                      rest).map (OperationCut.withFirst item)

theorem length_cutAtOperation (placeholders : PlaceholderNamespace) (receiverCaptures : Bool)
    (start : Nat) (items : List CodeItem) :
    ∀ (position skip depth : Nat) (cut : OperationCut),
      cutAtOperation placeholders receiverCaptures start position skip depth items = .ok cut →
        cut.inner.length + cut.rest.length + 1 = items.length := by
  induction items with
  | nil =>
      intro position skip depth cut success
      cases skip <;> simp [cutAtOperation] at success
  | cons item rest inductionHypothesis =>
      have step : ∀ (position skip depth : Nat) (cut : OperationCut),
          (cutAtOperation placeholders receiverCaptures start position skip depth rest).map
              (OperationCut.withFirst item) = .ok cut →
            cut.inner.length + cut.rest.length + 1 = (item :: rest).length := by
        intro position skip depth cut success
        cases found : cutAtOperation placeholders receiverCaptures start position skip depth
            rest with
        | error error => simp [found, Except.map] at success
        | ok shorter =>
            simp only [found, Except.map, Except.ok.injEq] at success
            have lengths := inductionHypothesis position skip depth shorter found
            subst success
            simp only [OperationCut.withFirst, List.length_cons]
            omega
      intro position skip depth cut success
      cases skip with
      | succ skip => exact step _ _ _ cut (by simpa [cutAtOperation] using success)
      | zero =>
          simp only [cutAtOperation] at success
          split at success
          · exact step _ _ _ cut success
          · split at success
            · simp at success
            · split at success
              · simp at success
              · split at success
                · simp only [Except.ok.injEq] at success
                  subst success
                  simp
                · exact step _ _ _ cut success
                · exact step _ _ _ cut success

def read (placeholders : PlaceholderNamespace) (receiverCaptures : Bool) (start : Nat)
    (accessLength : Nat) (items : List CodeItem) :
    Except Error { site : PlaceholderSite //
      site.rest.length < items.length ∧ ∀ value ∈ site.values, value.length < items.length } :=
  let inside := items.drop accessLength
  match found : cutAtOperation placeholders receiverCaptures start (start + accessLength) 0 0
      inside with
  | .error error => .error error
  | .ok cut => do
      let kind ← PlaceholderNamespace.classify cut.operation
      let spans ← argumentSpans (start + accessLength) cut.inner cut.operation.parameterCount
      let arguments := spans.map fun span => span.of cut.inner
      let site : PlaceholderSite :=
        { kind := kind
          operation := cut.operation
          target := arguments.headD []
          values := arguments.tail
          length := accessLength + cut.inner.length + 1
          rest := cut.rest }
      pure ⟨site, by
        have lengths := length_cutAtOperation placeholders receiverCaptures start inside
          _ _ _ cut found
        have shorter : inside.length ≤ items.length := by
          simp only [inside, List.length_drop]
          omega
        refine ⟨by simp only [site]; omega, ?_⟩
        intro value member
        obtain ⟨span, -, rfl⟩ := List.mem_map.mp (List.mem_of_mem_tail member)
        have cutShort : (span.of cut.inner).length ≤ cut.inner.length := by
          simp only [Span.of, List.length_drop, List.length_take]
          omega
        omega⟩

end PlaceholderSite
end CilTemplate
