import CilTemplate.Bytes.Cursor

/-
Cursors and the sequence they were cut from.  However a cursor was moved and
cut, its window is a part of the whole sequence that begins at the base, and
its position lies in the window or at its end.  So it reads what stands at its
absolute position, and no number it computes is larger than the length of the
whole sequence.
-/

namespace CilTemplate
namespace Cursor

open CilTemplate.Action

variable {Item Result : Type}

/-- A call that moves a cursor or reads from it, by the items of the cursor and
the value that the call gives. -/
inductive Call : Type → Type → Type 1
  | seek {Item : Type} (position : Nat) : Call Item Unit
  | ensureRemaining {Item : Type} (needed : Nat) : Call Item Unit
  | advance {Item : Type} : Call Item Unit
  | advanceBy {Item : Type} (step : Nat) : Call Item Unit
  | consume {Item : Type} : Call Item Item
  | take {Item : Type} (count : Nat) : Call Item (List Item)
  | read (scalar : ScalarType) : Call UInt8 Int

def Call.action : Call Item Result → Action (Cursor Item) Result
  | seek position => Cursor.seek position
  | ensureRemaining needed => Cursor.ensureRemaining needed
  | advance => Cursor.advance
  | advanceBy step => Cursor.advanceBy step
  | consume => Cursor.consume
  | take count => Cursor.take count
  | read scalar => Cursor.readScalar scalar

/-- The cursors that come from a sequence by calls, also by calls that fail,
and by cutting windows out of windows. -/
inductive Reached (root : List Item) : Cursor Item → Prop
  | whole : Reached root (ofList root)
  | call {cursor : Cursor Item} {Result : Type} (call : Call Item Result)
      (reached : Reached root cursor) : Reached root (run call.action cursor).2
  | slice {cursor part : Cursor Item} {start stop : Nat} (reached : Reached root cursor)
      (cut : cursor.slice start stop = .ok part) : Reached root part

/-- The window is the part of the sequence from the base on. -/
structure Within (root : List Item) (cursor : Cursor Item) : Prop where
  window : cursor.window.toList = (root.drop cursor.base).take cursor.length
  inRoot : cursor.base + cursor.length ≤ root.length
  inWindow : cursor.position ≤ cursor.length

/-- What a call gives and the position behind it, read off the whole sequence.
A call that leads out of the window gives nothing. -/
def Call.answer? (root : List Item) (cursor : Cursor Item) :
    Call Item Result → Option (Result × Nat)
  | seek position => if position ≤ cursor.length then some ((), position) else none
  | ensureRemaining needed =>
      if cursor.position + needed ≤ cursor.length then some ((), cursor.position) else none
  | advance =>
      if cursor.position < cursor.length then some ((), cursor.position + 1) else none
  | advanceBy step =>
      if cursor.position + step ≤ cursor.length then some ((), cursor.position + step) else none
  | consume =>
      if cursor.position < cursor.length then
        root[cursor.absolutePosition]?.map fun item => (item, cursor.position + 1)
      else none
  | take count =>
      if cursor.position + count ≤ cursor.length then
        some ((root.drop cursor.absolutePosition).take count, cursor.position + count)
      else none
  | read scalar =>
      if cursor.position + scalar.width ≤ cursor.length then
        let bytes := (root.drop cursor.absolutePosition).take scalar.width
        some (scalar.decode (LittleEndian.ofBytes bytes), cursor.position + scalar.width)
      else none

/-- A call moves the cursor to where its answer ends.  Without an answer it
fails and leaves the cursor as it is. -/
def Call.outcome (root : List Item) (cursor : Cursor Item) (call : Call Item Result) :
    Except Error Result × Cursor Item :=
  match call.answer? root cursor with
  | some (value, position) => (.ok value, { cursor with position := position })
  | none => (.error .outOfBounds, cursor)

/-- Everything that is asked of a cursor is answered from the sequence. -/
structure Follows (root : List Item) (cursor : Cursor Item) : Prop where
  peek : cursor.peek? =
    if cursor.position < cursor.length then root[cursor.absolutePosition]? else none
  peekNth : ∀ distance, cursor.peekNth? distance =
    if cursor.position + distance < cursor.length then root[cursor.absolutePosition + distance]?
    else none
  call : ∀ {Result : Type} (call : Call Item Result),
    run call.action cursor = call.outcome root cursor
  slice : ∀ start stop, cursor.slice start stop =
    if start ≤ stop ∧ stop ≤ cursor.length then
      .ok ⟨((root.drop (cursor.base + start)).take (stop - start)).toArray, cursor.base + start, 0⟩
    else .error .outOfBounds

/-
The same cursor on a machine whose numbers end at a largest one.  A sum that is
too large, a difference below zero and a range outside of the window have no
value, unless the cursor asks for the sum to be checked.
-/
namespace Words

def sum? (largest left right : Nat) : Option Nat :=
  if left + right ≤ largest then some (left + right) else none

def difference? (left right : Nat) : Option Nat :=
  if right ≤ left then some (left - right) else none

def range? (window : Array Item) (start stop : Nat) : Option (Array Item) :=
  if start ≤ stop ∧ stop ≤ window.size then some (window.extract start stop) else none

variable (largest : Nat)

def peekNth? (cursor : Cursor Item) (distance : Nat) : Option Item :=
  (sum? largest cursor.position distance).bind fun place => cursor.window[place]?

def behind? (cursor : Cursor Item) (count : Nat) : Option (Except Error Nat) := do
  let remaining ← difference? cursor.length cursor.position
  if remaining < count then pure (.error .outOfBounds)
  else
    let stop ← sum? largest cursor.position count
    pure (.ok stop)

def advanceBy? (cursor : Cursor Item) (step : Nat) :
    Option (Except Error Unit × Cursor Item) := do
  match ← behind? largest cursor step with
  | .error error => pure (.error error, cursor)
  | .ok stop => pure (.ok (), { cursor with position := stop })

/-- The stop of a scalar is checked: a sum that is too large is out of bounds. -/
def read? (cursor : Cursor UInt8) (scalar : ScalarType) :
    Option (Except Error Int × Cursor UInt8) :=
  match sum? largest cursor.position scalar.width with
  | none => some (.error .outOfBounds, cursor)
  | some stop =>
      if cursor.length < stop then some (.error .outOfBounds, cursor)
      else do
        let bytes ← range? cursor.window cursor.position stop
        pure (.ok (scalar.decode (LittleEndian.ofBytes bytes.toList)),
          { cursor with position := stop })

def call? (cursor : Cursor Item) : Call Item Result → Option (Except Error Result × Cursor Item)
  | .seek position =>
      if cursor.length < position then some (.error .outOfBounds, cursor)
      else some (.ok (), { cursor with position := position })
  | .ensureRemaining needed => do
      let remaining ← difference? cursor.length cursor.position
      if remaining < needed then pure (.error .outOfBounds, cursor) else pure (.ok (), cursor)
  | .advance => advanceBy? largest cursor 1
  | .advanceBy step => advanceBy? largest cursor step
  | .consume =>
      match cursor.peek? with
      | none => some (.error .outOfBounds, cursor)
      | some item => do
          let stop ← sum? largest cursor.position 1
          pure (.ok item, { cursor with position := stop })
  | .take count => do
      match ← behind? largest cursor count with
      | .error error => pure (.error error, cursor)
      | .ok stop =>
          let items ← range? cursor.window cursor.position stop
          pure (.ok items.toList, { cursor with position := stop })
  | .read scalar => read? largest cursor scalar

def slice? (cursor : Cursor Item) (start stop : Nat) : Option (Except Error (Cursor Item)) :=
  if stop < start ∨ cursor.length < stop then some (.error .outOfBounds)
  else do
    let window ← range? cursor.window start stop
    let base ← sum? largest cursor.base start
    pure (.ok ⟨window, base, 0⟩)

end Words

/-- The machine computes what the cursor says and never leaves its numbers. -/
structure FitsWords (largest : Nat) (cursor : Cursor Item) : Prop where
  absolutePosition :
    Words.sum? largest cursor.base cursor.position = some cursor.absolutePosition
  remaining : Words.difference? cursor.length cursor.position = some cursor.remaining
  peekNth : ∀ distance, Words.peekNth? largest cursor distance = cursor.peekNth? distance
  call : ∀ {Result : Type} (call : Call Item Result),
    Words.call? largest cursor call = some (run call.action cursor)
  slice : ∀ start stop,
    Words.slice? largest cursor start stop = some (cursor.slice start stop)

section Windows

variable {root : List Item} {cursor : Cursor Item}

theorem Within.getElem? (within : cursor.Within root) (place : Nat) :
    cursor.window[place]? = if place < cursor.length then root[cursor.base + place]? else none := by
  rw [← Array.getElem?_toList, within.window, List.getElem?_take, List.getElem?_drop]

theorem Within.extract (within : cursor.Within root) {start stop : Nat}
    (inside : stop ≤ cursor.length) :
    (cursor.window.extract start stop).toList =
      (root.drop (cursor.base + start)).take (stop - start) := by
  rw [Array.toList_extract, List.extract_eq_take_drop, within.window, List.drop_take,
    List.take_take, List.drop_drop]
  congr 1
  omega

theorem within_ofList (root : List Item) : (ofList root).Within root where
  window := by simp [ofList, length]
  inRoot := by simp [ofList, length]
  inWindow := Nat.zero_le _

theorem Within.moved (within : cursor.Within root) {position : Nat}
    (inside : position ≤ cursor.length) : Within root { cursor with position := position } :=
  ⟨within.window, within.inRoot, inside⟩

theorem Within.peekNth? (within : cursor.Within root) (distance : Nat) :
    cursor.peekNth? distance =
      if cursor.position + distance < cursor.length then
        root[cursor.absolutePosition + distance]?
      else none := by
  rw [Cursor.peekNth?, within.getElem?, absolutePosition, Nat.add_assoc]

theorem Within.peek? (within : cursor.Within root) :
    cursor.peek? =
      if cursor.position < cursor.length then root[cursor.absolutePosition]? else none :=
  within.peekNth? 0

theorem Within.exists_item (within : cursor.Within root)
    (inside : cursor.position < cursor.length) :
    ∃ item, root[cursor.absolutePosition]? = some item := by
  have room := within.inRoot
  have bound : cursor.absolutePosition < root.length := by
    unfold absolutePosition
    omega
  exact ⟨_, List.getElem?_eq_getElem bound⟩

section Runs

variable (cursor)

theorem run_seek (position : Nat) :
    run (seek position) cursor =
      if position ≤ cursor.length then (.ok (), { cursor with position := position })
      else (.error .outOfBounds, cursor) := by
  simp only [seek, run_bind, run_get, run_ite, run_throw, run_set]
  by_cases inside : position ≤ cursor.length
  · rw [if_neg (Nat.not_lt.mpr inside), if_pos inside]
  · rw [if_pos (Nat.not_le.mp inside), if_neg inside]

theorem run_consume :
    run consume cursor =
      match cursor.peek? with
      | some item => (.ok item, { cursor with position := cursor.position + 1 })
      | none => (.error .outOfBounds, cursor) := by
  simp only [consume, run_bind, run_get]
  cases cursor.peek? with
  | none => rfl
  | some item => simp only [run_bind, run_set, run_pure]

theorem run_readScalar_at (cursor : Cursor UInt8) (scalar : ScalarType) :
    run (readScalar scalar) cursor =
      if cursor.position + scalar.width ≤ cursor.length then
        (.ok (scalar.decode (LittleEndian.ofBytes
          (cursor.window.extract cursor.position (cursor.position + scalar.width)).toList)),
          { cursor with position := cursor.position + scalar.width })
      else (.error .outOfBounds, cursor) := by
  simp only [readScalar, readNumber, run_bind, run_get, run_ofExcept, LittleEndian.readAt]
  by_cases enough : cursor.position + scalar.width ≤ cursor.length
  · have notShort : ¬cursor.window.size < cursor.position + scalar.width := Nat.not_lt.mpr enough
    simp only [if_neg notShort, if_pos enough, run_set, run_pure]
  · have short : cursor.window.size < cursor.position + scalar.width := Nat.not_le.mp enough
    simp only [if_pos short, if_neg enough]

variable {cursor}
variable (inWindow : cursor.position ≤ cursor.length)

include inWindow

theorem remaining_lt_iff (count : Nat) :
    cursor.remaining < count ↔ ¬cursor.position + count ≤ cursor.length := by
  unfold remaining
  omega

theorem run_ensureRemaining (needed : Nat) :
    run (ensureRemaining needed) cursor =
      if cursor.position + needed ≤ cursor.length then (.ok (), cursor)
      else (.error .outOfBounds, cursor) := by
  simp only [ensureRemaining, run_bind, run_get, run_ite, run_throw, run_pure,
    remaining_lt_iff inWindow, ite_not]

theorem run_advanceBy (step : Nat) :
    run (advanceBy step) cursor =
      if cursor.position + step ≤ cursor.length then
        (.ok (), { cursor with position := cursor.position + step })
      else (.error .outOfBounds, cursor) := by
  simp only [advanceBy, run_bind, run_ensureRemaining inWindow]
  by_cases inside : cursor.position + step ≤ cursor.length
  · simp only [if_pos inside, run_modify]
  · simp only [if_neg inside]

theorem run_take (count : Nat) :
    run (take count) cursor =
      if cursor.position + count ≤ cursor.length then
        (.ok (cursor.window.extract cursor.position (cursor.position + count)).toList,
          { cursor with position := cursor.position + count })
      else (.error .outOfBounds, cursor) := by
  simp only [take, run_bind, run_get, run_advanceBy inWindow]
  by_cases inside : cursor.position + count ≤ cursor.length
  · simp only [if_pos inside, run_pure]
  · simp only [if_neg inside]

end Runs

theorem Call.outcome_of_answer {call : Call Item Result} {inside : Prop} [Decidable inside]
    {value : Result} {position : Nat}
    (answer : call.answer? root cursor = if inside then some (value, position) else none) :
    call.outcome root cursor =
      if inside then (.ok value, { cursor with position := position })
      else (.error .outOfBounds, cursor) := by
  rw [outcome, answer]
  by_cases holds : inside
  · rw [if_pos holds, if_pos holds]
  · rw [if_neg holds, if_neg holds]

/-- One case for each call: what the cursor does is what the sequence says. -/
theorem Within.run_action (within : cursor.Within root) (call : Call Item Result) :
    run call.action cursor = call.outcome root cursor := by
  have inWindow := within.inWindow
  cases call with
  | seek position => rw [Call.action, run_seek, Call.outcome_of_answer rfl]
  | ensureRemaining needed =>
      rw [Call.action, run_ensureRemaining inWindow, Call.outcome_of_answer rfl]
  | advance => rw [Call.action, advance, run_advanceBy inWindow, Call.outcome_of_answer rfl]; rfl
  | advanceBy step => rw [Call.action, run_advanceBy inWindow, Call.outcome_of_answer rfl]
  | consume =>
      rw [Call.action, run_consume, within.peek?, Call.outcome, Call.answer?]
      by_cases inside : cursor.position < cursor.length
      · obtain ⟨item, found⟩ := within.exists_item inside
        rw [if_pos inside, if_pos inside, found, Option.map_some]
      · rw [if_neg inside, if_neg inside]
  | take count =>
      rw [Call.action, run_take inWindow, Call.outcome_of_answer rfl]
      by_cases inside : cursor.position + count ≤ cursor.length
      · rw [if_pos inside, if_pos inside, within.extract inside, Nat.add_sub_cancel_left]
        rfl
      · rw [if_neg inside, if_neg inside]
  | read scalar =>
      rw [Call.action, run_readScalar_at, Call.outcome_of_answer rfl]
      by_cases inside : cursor.position + scalar.width ≤ cursor.length
      · rw [if_pos inside, if_pos inside, within.extract inside, Nat.add_sub_cancel_left]
        rfl
      · rw [if_neg inside, if_neg inside]

theorem Within.slice_eq (within : cursor.Within root) (start stop : Nat) :
    cursor.slice start stop =
      if start ≤ stop ∧ stop ≤ cursor.length then
        .ok ⟨((root.drop (cursor.base + start)).take (stop - start)).toArray,
          cursor.base + start, 0⟩
      else .error .outOfBounds := by
  unfold slice
  by_cases inside : start ≤ stop ∧ stop ≤ cursor.length
  · have notOutside : ¬(stop < start ∨ cursor.length < stop) := by omega
    rw [if_neg notOutside, if_pos inside, ← within.extract inside.2]
  · have outside : stop < start ∨ cursor.length < stop := by omega
    rw [if_pos outside, if_neg inside]

theorem Within.follows (within : cursor.Within root) : cursor.Follows root where
  peek := within.peek?
  peekNth := within.peekNth?
  call := within.run_action
  slice := within.slice_eq

theorem le_of_answer {inside : Prop} [Decidable inside] {value answer : Result}
    {stop position limit : Nat} (bound : inside → stop ≤ limit)
    (answered : (if inside then some (value, stop) else none) = some (answer, position)) :
    position ≤ limit := by
  obtain ⟨holds, same⟩ := Option.ite_none_right_eq_some.mp answered
  rw [← (Prod.mk.inj (Option.some.inj same)).2]
  exact bound holds

theorem Within.answer_le (within : cursor.Within root) {call : Call Item Result}
    {answer : Result} {position : Nat}
    (answered : call.answer? root cursor = some (answer, position)) :
    position ≤ cursor.length := by
  cases call with
  | seek target => exact le_of_answer (fun inside => inside) answered
  | ensureRemaining needed => exact le_of_answer (fun _ => within.inWindow) answered
  | advance => exact le_of_answer Nat.succ_le_of_lt answered
  | advanceBy step => exact le_of_answer (fun inside => inside) answered
  | consume =>
      obtain ⟨inside, found⟩ := Option.ite_none_right_eq_some.mp answered
      obtain ⟨_, _, same⟩ := Option.map_eq_some_iff.mp found
      rw [← (Prod.mk.inj same).2]
      exact inside
  | take count => exact le_of_answer (fun inside => inside) answered
  | read scalar => exact le_of_answer (fun inside => inside) answered

theorem Within.call (within : cursor.Within root) (call : Call Item Result) :
    Within root (run call.action cursor).2 := by
  rw [within.run_action, Call.outcome]
  cases answered : call.answer? root cursor with
  | none => exact within
  | some answer => exact within.moved (within.answer_le answered)

theorem Within.cut (within : cursor.Within root) {start stop : Nat} {part : Cursor Item}
    (cut : cursor.slice start stop = .ok part) : part.Within root := by
  have room := within.inRoot
  rw [within.slice_eq] at cut
  split at cut
  · rename_i inside
    have length : ((root.drop (cursor.base + start)).take (stop - start)).length = stop - start := by
      rw [List.length_take, List.length_drop]
      omega
    rw [← Except.ok.inj cut]
    refine ⟨?_, ?_, Nat.zero_le _⟩
    · simp only [Cursor.length, List.size_toArray, length]
    · simp only [Cursor.length, List.size_toArray, length]
      omega
  · cases cut

/-- By induction on the calls and cuts that lead to the cursor. -/
theorem Reached.within (reached : Reached root cursor) : cursor.Within root := by
  induction reached with
  | whole => exact within_ofList root
  | call call _ inductionHypothesis => exact inductionHypothesis.call call
  | slice _ cut inductionHypothesis => exact inductionHypothesis.cut cut

end Windows

section Words

variable {root : List Item} {cursor : Cursor Item} {largest : Nat}

theorem Words.sum?_of_le {left right : Nat} (fits : left + right ≤ largest) :
    sum? largest left right = some (left + right) :=
  if_pos fits

theorem Words.range?_of_le {window : Array Item} {start stop : Nat} (ordered : start ≤ stop)
    (inside : stop ≤ window.size) : range? window start stop = some (window.extract start stop) :=
  if_pos ⟨ordered, inside⟩

variable (within : cursor.Within root) (addressable : root.length ≤ largest)

include within addressable

theorem Within.length_le : cursor.base + cursor.length ≤ largest :=
  Nat.le_trans within.inRoot addressable

theorem Within.peekNth?_inWords (distance : Nat) :
    Words.peekNth? largest cursor distance = cursor.peekNth? distance := by
  have room := within.length_le addressable
  unfold Words.peekNth? Words.sum?
  by_cases fits : cursor.position + distance ≤ largest
  · rw [if_pos fits, Option.bind_some, Cursor.peekNth?]
  · have outside : ¬cursor.position + distance < cursor.length := by omega
    rw [if_neg fits, Option.bind_none, within.peekNth?, if_neg outside]

theorem Within.behind?_inWords (count : Nat) :
    Words.behind? largest cursor count =
      some (if cursor.position + count ≤ cursor.length then .ok (cursor.position + count)
        else .error .outOfBounds) := by
  have inWindow := within.inWindow
  have room := within.length_le addressable
  have left : Words.difference? cursor.length cursor.position = some cursor.remaining :=
    if_pos inWindow
  simp only [Words.behind?, left, bind, Option.bind, pure]
  by_cases inside : cursor.position + count ≤ cursor.length
  · have enough : ¬cursor.remaining < count := fun fewer =>
      (remaining_lt_iff inWindow count).mp fewer inside
    rw [if_neg enough, if_pos inside, Words.sum?_of_le (by omega)]
  · rw [if_pos ((remaining_lt_iff inWindow count).mpr inside), if_neg inside]

theorem Within.advanceBy?_inWords (step : Nat) :
    Words.advanceBy? largest cursor step = some (run (advanceBy step) cursor) := by
  rw [Words.advanceBy?, within.behind?_inWords addressable, run_advanceBy within.inWindow]
  by_cases inside : cursor.position + step ≤ cursor.length
  · rw [if_pos inside, if_pos inside]
    rfl
  · rw [if_neg inside, if_neg inside]
    rfl

theorem Within.call?_inWords (call : Call Item Result) :
    Words.call? largest cursor call = some (run call.action cursor) := by
  have inWindow := within.inWindow
  have room := within.length_le addressable
  cases call with
  | seek position =>
      rw [Words.call?, Call.action, run_seek]
      by_cases inside : position ≤ cursor.length
      · rw [if_neg (Nat.not_lt.mpr inside), if_pos inside]
      · rw [if_pos (Nat.not_le.mp inside), if_neg inside]
  | ensureRemaining needed =>
      have left : Words.difference? cursor.length cursor.position = some cursor.remaining :=
        if_pos inWindow
      simp only [Words.call?, Call.action, run_ensureRemaining inWindow, left, bind, Option.bind,
        remaining_lt_iff inWindow, ite_not, pure]
      split <;> rfl
  | advance => exact within.advanceBy?_inWords addressable 1
  | advanceBy step => exact within.advanceBy?_inWords addressable step
  | consume =>
      rw [Words.call?, Call.action, run_consume]
      cases peeked : cursor.peek? with
      | none => rfl
      | some item =>
          have inside : cursor.position < cursor.length :=
            (Array.getElem?_eq_some_iff.mp peeked).1
          simp only [Words.sum?_of_le (show cursor.position + 1 ≤ largest by omega), bind,
            Option.bind, pure]
  | take count =>
      rw [Words.call?, Call.action, run_take inWindow, within.behind?_inWords addressable]
      by_cases inside : cursor.position + count ≤ cursor.length
      · simp only [if_pos inside, bind, Option.bind, pure,
          Words.range?_of_le (Nat.le_add_right cursor.position count) inside]
      · simp only [if_neg inside, bind, Option.bind, pure]
  | read scalar =>
      rw [Words.call?, Call.action, run_readScalar_at, Words.read?, Words.sum?]
      by_cases inside : cursor.position + scalar.width ≤ cursor.length
      · have fits : cursor.position + scalar.width ≤ largest := by omega
        simp only [if_pos inside, if_pos fits, if_neg (Nat.not_lt.mpr inside), bind, Option.bind,
          pure, Words.range?_of_le (Nat.le_add_right cursor.position scalar.width) inside]
      · rw [if_neg inside]
        by_cases fits : cursor.position + scalar.width ≤ largest
        · simp only [if_pos fits, if_pos (Nat.not_le.mp inside)]
        · simp only [if_neg fits]

theorem Within.slice?_inWords (start stop : Nat) :
    Words.slice? largest cursor start stop = some (cursor.slice start stop) := by
  have room := within.length_le addressable
  unfold Words.slice? slice
  by_cases outside : stop < start ∨ cursor.length < stop
  · rw [if_pos outside, if_pos outside]
  · have ordered : start ≤ stop := by omega
    have inside : stop ≤ cursor.window.size := Nat.not_lt.mp fun beyond => outside (.inr beyond)
    have bound : stop ≤ cursor.length := inside
    simp only [if_neg outside, Words.range?_of_le ordered inside, bind, Option.bind, pure,
      Words.sum?_of_le (show cursor.base + start ≤ largest by omega)]

theorem Within.fitsWords : cursor.FitsWords largest where
  absolutePosition := by
    have inWindow := within.inWindow
    have room := within.length_le addressable
    exact Words.sum?_of_le (by omega)
  remaining := if_pos within.inWindow
  peekNth := within.peekNth?_inWords addressable
  call := within.call?_inWords addressable
  slice := within.slice?_inWords addressable

end Words

/-- A cursor that comes from a sequence by calls and cuts looks at a part of it
and stays in this part.  All answers are those of the sequence, a failed call
leaves the cursor as it is, and the machine's numbers suffice when they suffice
for the length of the sequence. -/
theorem reached_reads_root {root : List Item} {cursor : Cursor Item} {largest : Nat}
    (reached : Reached root cursor) (addressable : root.length ≤ largest) :
    cursor.Within root ∧ cursor.Follows root ∧
      (∀ {Result : Type} (call : Call Item Result) (error : Error) (after : Cursor Item),
        run call.action cursor = (.error error, after) → error = .outOfBounds ∧ after = cursor) ∧
      cursor.FitsWords largest := by
  have within := reached.within
  refine ⟨within, within.follows, ?_, within.fitsWords addressable⟩
  intro Result call error after failed
  rw [within.run_action, Call.outcome] at failed
  cases answered : call.answer? root cursor with
  | some answer =>
      rw [answered] at failed
      cases failed
  | none =>
      rw [answered] at failed
      cases failed
      exact ⟨rfl, rfl⟩

namespace WindowsSample

def digits : List UInt8 := [0, 1, 2, 3, 4, 5, 6, 7, 8, 9]

def large : Cursor UInt8 := ⟨#[2, 3, 4, 5, 6, 7], 2, 0⟩

def small : Cursor UInt8 := ⟨#[5, 6], 5, 1⟩

theorem slice_digits : (ofList digits).slice 2 8 = .ok large := rfl

theorem slice_large :
    { large with position := 2 }.slice 3 5 = .ok { small with position := 0 } :=
  rfl

theorem reached_small : Reached digits small := by
  have reachedLarge : Reached digits large := .slice .whole slice_digits
  have moved : Reached digits { large with position := 2 } := .call (.advanceBy 2) reachedLarge
  exact .call .consume (.slice moved slice_large)

end WindowsSample

open WindowsSample in
/-- In a window of a window the cursor stands on the item 6 of the whole
sequence, and it cannot take two. -/
theorem reached_reads_root_of_nested_window :
    Reached digits small ∧ digits.length ≤ 0xFFFFFFFFFFFFFFFF ∧ small.Within digits ∧
      small.peek? = digits[6]? ∧ run (take 2) small = (.error .outOfBounds, small) ∧
      small.FitsWords (0xFFFFFFFFFFFFFFFF) := by
  have addressable : digits.length ≤ 0xFFFFFFFFFFFFFFFF := by decide
  obtain ⟨within, follows, -, fits⟩ := reached_reads_root reached_small addressable
  exact ⟨reached_small, addressable, within, follows.peek, follows.call (.take 2), fits⟩

end Cursor
end CilTemplate
