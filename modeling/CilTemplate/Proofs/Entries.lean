import Mathlib.Data.List.Nodup

/-
Lists as tables: which keys are known, what is found under a key, and which
members were there before.  A memo, the slots and handles of an encoder, the
strings of an emitter and the capture table are such lists.
-/

namespace CilTemplate

variable {Key Value : Type} [BEq Key] [LawfulBEq Key] {entries : List (Key × Value)} {key : Key}
  {value : Value}

theorem isSome_lookup_iff : (entries.lookup key).isSome = true ↔ key ∈ entries.map Prod.fst := by
  rw [List.lookup_isSome_iff, List.mem_map]
  exact exists_congr fun _ => and_congr_right fun _ => beq_iff_eq.trans eq_comm

theorem lookup_eq_none_iff : entries.lookup key = none ↔ key ∉ entries.map Prod.fst := by
  rw [← Option.not_isSome_iff_eq_none, isSome_lookup_iff]

theorem mem_of_lookup (found : entries.lookup key = some value) :
    value ∈ entries.map Prod.snd := by
  obtain ⟨front, back, rfl, _⟩ := List.lookup_eq_some_iff.mp found
  exact List.mem_map_of_mem (List.mem_append_right _ List.mem_cons_self)

theorem lookup_of_mem (distinct : (entries.map Prod.fst).Nodup) (member : (key, value) ∈ entries) :
    entries.lookup key = some value := by
  obtain ⟨front, back, rfl⟩ := List.append_of_mem member
  refine List.lookup_eq_some_iff.mpr ⟨front, back, rfl, ?_⟩
  intro entry earlier
  rw [List.map_append, List.nodup_append] at distinct
  exact bne_iff_ne.mpr fun same => distinct.2.2 _ (List.mem_map_of_mem earlier) key
    List.mem_cons_self same.symm

theorem lookup_cons_cases {other : Key} {found : Value}
    (known : ((key, value) :: entries).lookup other = some found) :
    (other = key ∧ found = value) ∨ entries.lookup other = some found := by
  rw [List.lookup_cons] at known
  split at known
  · rename_i same
    exact Or.inl ⟨beq_iff_eq.mp same, (Option.some.inj known).symm⟩
  · exact Or.inr known

theorem lookup_append_cons {rest : List (Key × Value)} (value : Value)
    (absent : key ∉ entries.map Prod.fst) (other : Key) :
    (entries ++ (key, value) :: rest).lookup other =
      ((key, value) :: entries ++ rest).lookup other := by
  rw [List.lookup_append, List.cons_append, List.lookup_cons, List.lookup_cons, List.lookup_append]
  cases same : other == key with
  | false => rfl
  | true =>
      rw [lookup_eq_none_iff.mpr (beq_iff_eq.mp same ▸ absent)]
      rfl

theorem lookup_zip {keys : List Key} {values : List Value} (distinct : keys.Nodup) {number : Nat}
    (key? : keys[number]? = some key) (value? : values[number]? = some value) :
    (keys.zip values).lookup key = some value := by
  induction number generalizing keys values with
  | zero =>
      obtain ⟨_, rfl⟩ := List.head?_eq_some_iff.mp (List.head?_eq_getElem? ▸ key?)
      obtain ⟨_, rfl⟩ := List.head?_eq_some_iff.mp (List.head?_eq_getElem? ▸ value?)
      exact List.lookup_cons_self
  | succ number inductionHypothesis =>
      cases keys with
      | nil => cases key?
      | cons first keys =>
          cases values with
          | nil => cases value?
          | cons other values =>
              obtain ⟨apart, distinct⟩ := List.nodup_cons.mp distinct
              have different : (key == first) = false := by
                rw [beq_eq_false_iff_ne]
                rintro rfl
                exact apart (List.mem_of_getElem? key?)
              rw [List.zip_cons_cons, List.lookup_cons, different]
              exact inductionHypothesis distinct key? value?

theorem lookup_memo (value : Key → Value) (keys : List Key) (key : Key) :
    (keys.map fun known => (known, value known)).reverse.lookup key =
      if key ∈ keys then some (value key) else none := by
  rw [← List.map_reverse]
  have reversed : key ∈ keys ↔ key ∈ keys.reverse := List.mem_reverse.symm
  simp only [reversed]
  induction keys.reverse with
  | nil => rfl
  | cons known rest inductionHypothesis =>
      rw [List.map_cons, List.lookup_cons, inductionHypothesis]
      by_cases same : key = known
      · simp [same]
      · have different : (key == known) = false := by simpa using same
        simp [same, different]

theorem eraseDups_concat (keys : List Key) (key : Key) :
    (keys ++ [key]).eraseDups =
      if key ∈ keys then keys.eraseDups else keys.eraseDups ++ [key] := by
  rw [List.eraseDups_append]
  by_cases known : key ∈ keys
  · simp [List.removeAll, known]
  · simp [List.removeAll, known, List.eraseDups_cons]

end CilTemplate
