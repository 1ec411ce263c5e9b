import CilTemplate.Proofs.Expansion.Nesting
import CilTemplate.Proofs.Expansion.Trace

/-
Every expansion that succeeds has a trace.  Each step of the pass is taken
apart: which closure has answered, which object was collected, and where the
code behind a site goes on.
-/

namespace CilTemplate

open CilTemplate.Action PlaceholderNamespace

theorem CaptureContext.read_eq_ok {captures : CaptureContext} {site : CaptureSite}
    {reads after : Array CaptureSite} {value : CapturedValue}
    (done : run (captures.read site) reads = (.ok value, after)) : captures.Gives site value := by
  cases owned : captures.owns site with
  | false =>
      simp only [CaptureContext.read, owned, Bool.not_false, if_true] at done
      cases member : site.member <;> rw [member] at done <;> cases done
  | true =>
      simp only [CaptureContext.read, owned, Bool.not_true, Bool.false_eq_true, if_false] at done
      split at done
      · cases done
      · rename_i closure found
        obtain ⟨_, _, _, done⟩ := run_bind_eq_ok.mp done
        obtain ⟨_, _, _, done⟩ := run_bind_eq_ok.mp done
        obtain ⟨answered, _⟩ := Prod.mk.inj done
        exact ⟨closure, _, found, answered⟩

namespace Pass

/-- The pass knows only what closures have given. -/
structure Sound (captures : CaptureContext) (pass : Pass) : Prop where
  memo : ∀ site value, pass.memo.lookup site = some value → captures.Gives site value
  objects : ∀ object ∈ pass.objects, ∃ site, captures.Gives site (.object object)

/-- The pass goes on.  It still knows what it knew before, and it has collected
the objects that were loaded, one for each cell. -/
structure Continues (captures : CaptureContext) (loaded : List CapturedObject)
    (before after : Pass) : Prop where
  sound : Sound captures after
  objects : after.objects = loaded.foldl CaptureUses.addObject before.objects
  memo : ∀ site value, before.memo.lookup site = some value →
    after.memo.lookup site = some value
  temporaries : before.temporaries.toList <+: after.temporaries.toList

theorem Sound.continues {captures : CaptureContext} {pass : Pass} (sound : Sound captures pass) :
    Continues captures [] pass pass :=
  ⟨sound, rfl, fun _ _ known => known, List.prefix_refl _⟩

theorem Continues.trans {captures : CaptureContext} {first second third : Pass}
    {earlier later : List CapturedObject} (left : Continues captures earlier first second)
    (right : Continues captures later second third) :
    Continues captures (earlier ++ later) first third where
  sound := right.sound
  objects := by rw [right.objects, left.objects, List.foldl_append]
  memo site value known := right.memo site value (left.memo site value known)
  temporaries := left.temporaries.trans right.temporaries

theorem Continues.objects_prefix {captures : CaptureContext} {before after : Pass}
    {loaded : List CapturedObject} (continues : Continues captures loaded before after) :
    before.objects <+: after.objects :=
  continues.objects ▸ CaptureUses.cells_prefix loaded before.objects

theorem sound_start (captures : CaptureContext) (firstSlot : Nat) (reads : Array CaptureSite)
    (log : Log) : Sound captures (start firstSlot reads log) where
  memo _ _ absent := by cases absent
  objects _ absent := by cases absent

variable {captures : CaptureContext} {pass after : Pass} {site : CaptureSite}
  {value : CapturedValue}

theorem Continues.known {loaded : List CapturedObject}
    (continues : Continues captures loaded pass after) {capture : LoadedCapture}
    (known : capture.Known pass) : capture.Known after where
  value := continues.memo _ _ known.value
  copy slot member := continues.temporaries.subset (known.copy slot member)

theorem readCapture_eq_ok (sound : Sound captures pass)
    (done : run (readCapture captures site) pass = (.ok value, after)) :
    captures.Gives site value ∧ Continues captures [] pass after ∧
      after.memo.lookup site = some value := by
  obtain ⟨_, _, got, rest⟩ := run_bind_eq_ok.mp done
  obtain ⟨⟨⟩, ⟨⟩⟩ := Prod.mk.inj got
  split at rest
  · rename_i known remembered
    obtain ⟨same, rfl⟩ := Prod.mk.inj rest
    rw [← Except.ok.inj same]
    exact ⟨sound.memo site known remembered, sound.continues, remembered⟩
  · rename_i unread
    obtain ⟨found, middle, reading, rest⟩ := run_bind_eq_ok.mp rest
    rw [run_onPart] at reading
    obtain ⟨asked, rfl⟩ := Prod.mk.inj reading
    have answered := CaptureContext.read_eq_ok (Prod.ext asked rfl)
    obtain ⟨_, _, noted, ended⟩ := run_bind_eq_ok.mp rest
    obtain ⟨_, rfl⟩ := Prod.mk.inj noted
    obtain ⟨same, rfl⟩ := Prod.mk.inj ended
    rw [← Except.ok.inj same]
    refine ⟨answered, ⟨⟨?_, sound.objects⟩, rfl, ?_, List.prefix_refl _⟩, List.lookup_cons_self⟩
    · intro other known found
      change List.lookup other ((site, _) :: pass.memo) = some known at found
      rw [List.lookup_cons] at found
      split at found
      · rename_i isSite
        rw [eq_of_beq isSite, ← Option.some.inj found]
        exact answered
      · exact sound.memo other known found
    · intro other known remembered
      change List.lookup other ((site, _) :: pass.memo) = some known
      rw [List.lookup_cons]
      split
      · rename_i isSite
        rw [eq_of_beq isSite, unread] at remembered
        cases remembered
      · exact remembered

theorem instruction_of_memberRead? {instruction : Instruction Label} {member : CapturedMember}
    {copyType : Option CilType} (found : memberRead? instruction = some (member, copyType))
    (reference : Option Field) (closure : ClosureKind) :
    ∃ read : CaptureRead, read.reference = reference ∧ read.site = ⟨closure, member⟩ ∧
      read.instruction = instruction ∧ read.copyType? = copyType := by
  unfold memberRead? at found
  split at found
  · obtain ⟨rfl, rfl⟩ := Prod.mk.inj (Option.some.inj found)
    exact ⟨⟨reference, ⟨closure, _⟩, false⟩, rfl, rfl, rfl, rfl⟩
  · obtain ⟨rfl, rfl⟩ := Prod.mk.inj (Option.some.inj found)
    exact ⟨⟨reference, ⟨closure, _⟩, true⟩, rfl, rfl, rfl, rfl⟩
  · obtain ⟨rfl, rfl⟩ := Prod.mk.inj (Option.some.inj found)
    exact ⟨⟨reference, ⟨closure, _⟩, false⟩, rfl, rfl, rfl, rfl⟩
  · cases found

theorem closureUse_eq_ok {closures : List ClosureKind}
    {instruction : Option (Instruction Label)} {use : CaptureUse} (sound : Sound captures pass)
    (done : run (closureUse captures closures instruction) pass = (.ok (some use), after))
    (reference : Option Field) :
    ∃ (read : CaptureRead) (value : CapturedValue), read.reference = reference ∧
      instruction = some read.instruction ∧
      captures.owner? closures read.site.member = some read.site.closure ∧
      captures.Gives read.site value ∧ after.memo.lookup read.site = some value ∧
      use = read.use (fun _ => value) ∧ Continues captures [] pass after := by
  unfold closureUse at done
  split at done
  · cases done
  · rename_i member copyType reads
    obtain ⟨instruction, rfl, reads⟩ := Option.bind_eq_some_iff.mp reads
    split at done
    · cases done
    · rename_i closure owned
      obtain ⟨value, _, reading, rest⟩ := run_bind_eq_ok.mp done
      obtain ⟨given, continues, remembered⟩ := readCapture_eq_ok sound reading
      obtain ⟨read, isReference, isSite, isInstruction, isCopy⟩ :=
        instruction_of_memberRead? reads reference closure
      refine ⟨read, value, isReference, by rw [isInstruction], by rw [isSite]; exact owned,
        by rw [isSite]; exact given, ?_⟩
      rw [CaptureRead.use, isCopy, isSite]
      split at rest
      · obtain ⟨same, rfl⟩ := Prod.mk.inj rest
        exact ⟨remembered, (Option.some.inj (Except.ok.inj same)).symm, continues⟩
      · obtain ⟨same, rfl⟩ := Prod.mk.inj rest
        exact ⟨remembered, (Option.some.inj (Except.ok.inj same)).symm, continues⟩

theorem eq_cons_of_instruction {following : List CodeItem} {instruction : Instruction Label}
    (found : following.head?.bind CodeItem.instruction? = some instruction) :
    ∃ rest, following = .code instruction :: rest := by
  cases following with
  | nil => cases found
  | cons item rest =>
      cases item with
      | mark label => cases found
      | code known =>
          cases found
          exact ⟨rest, rfl⟩

/-- A use of the receiver goes through a reference to the callback closure, or
straight to a member. -/
theorem closureUse_of_receiverUse {token length : Nat} {following : List CodeItem}
    {use : CaptureUse}
    (done : run (receiverUse captures token following) pass = (.ok (use, length), after)) :
    ∃ (reference : Option Field) (behind : List CodeItem),
      following = (reference.map fun field =>
        CodeItem.code (.field .ofObject .load field)).toList ++ behind ∧
      length = reference.toList.length + 2 ∧
      (∀ field ∈ reference, captures.isCallbackReference field = true) ∧
      (reference = none → ∀ field, behind.head?.bind CodeItem.instruction? =
        some (.field .ofObject .load field) → captures.isCallbackReference field = false) ∧
      run (closureUse captures
        (if reference.isSome then [.callback] else CaptureContext.templateFirst)
        (behind.head?.bind CodeItem.instruction?)) pass = (.ok (some use), after) := by
  unfold receiverUse at done
  dsimp only at done
  rw [run_ite] at done
  split_ifs at done with through
  · split at through
    case h_2 => cases through
    case h_1 field isReference =>
      obtain ⟨behind, rfl⟩ := eq_cons_of_instruction isReference
      obtain ⟨result, _, using', rest⟩ := run_bind_eq_ok.mp done
      cases result with
      | none => cases rest
      | some found =>
          cases rest
          rw [List.getElem?_cons_succ, ← List.head?_eq_getElem?] at using'
          refine ⟨some field, behind, rfl, rfl, ?_, ?_, using'⟩
          · rintro _ ⟨⟩
            exact through
          · rintro ⟨⟩
  · obtain ⟨result, _, using', rest⟩ := run_bind_eq_ok.mp done
    cases result with
    | none => cases rest
    | some found =>
        cases rest
        refine ⟨none, following, rfl, rfl, ?_, ?_, using'⟩
        · rintro _ ⟨⟩
        · intro _ field isReference
          rw [isReference] at through
          exact Bool.eq_false_iff.mpr through

theorem receiverUse_eq_ok {token length : Nat} {following : List CodeItem} {use : CaptureUse}
    (sound : Sound captures pass)
    (done : run (receiverUse captures token following) pass = (.ok (use, length), after)) :
    ∃ (read : CaptureRead) (value : CapturedValue) (rest : List CodeItem),
      following = read.following ++ rest ∧ length = read.items.length ∧
      (∀ field ∈ read.reference, captures.isCallbackReference field = true) ∧
      captures.owner? read.owners read.site.member = some read.site.closure ∧
      captures.Gives read.site value ∧ after.memo.lookup read.site = some value ∧
      use = read.use (fun _ => value) ∧ Continues captures [] pass after := by
  obtain ⟨reference, behind, rfl, rfl, leads, _, using'⟩ := closureUse_of_receiverUse done
  obtain ⟨read, value, rfl, isRead, owned, given, remembered, used, continues⟩ :=
    closureUse_eq_ok sound using' reference
  obtain ⟨rest, rfl⟩ := eq_cons_of_instruction isRead
  refine ⟨read, value, rest, ?_, ?_, leads, owned, given, remembered, used, continues⟩
  · rw [CaptureRead.following, List.append_assoc]
    rfl
  · rw [CaptureRead.items, CaptureRead.following, List.length_cons, List.length_append,
      Option.length_toList, Option.length_toList, Option.isSome_map]
    rfl

variable {object : CapturedObject}

theorem objectNumber_eq_ok {number : Nat} (sound : Sound captures pass)
    (given : captures.Gives site (.object object))
    (done : run (objectNumber object) pass = (.ok number, after)) :
    Continues captures [object] pass after ∧ ∃ known ∈ after.objects,
      after.objects[number]? = some known ∧ object.sameCell known = true := by
  obtain ⟨_, _, got, rest⟩ := run_bind_eq_ok.mp done
  obtain ⟨⟨⟩, ⟨⟩⟩ := Prod.mk.inj got
  split at rest
  · rename_i known found
    obtain ⟨same, rfl⟩ := Prod.mk.inj rest
    rw [← Except.ok.inj same]
    obtain ⟨bound, here, _⟩ := List.findIdx?_eq_some_iff_getElem.mp found
    have present : pass.objects.any object.sameCell = true :=
      List.any_eq_true.mpr ⟨_, List.getElem_mem bound, here⟩
    refine ⟨⟨sound, ?_, fun _ _ known => known, List.prefix_refl _⟩, _, List.getElem_mem bound,
      List.getElem?_eq_getElem bound, here⟩
    exact (if_pos present).symm
  · rename_i absent
    obtain ⟨_, _, stored, rest⟩ := run_bind_eq_ok.mp rest
    obtain ⟨_, rfl⟩ := Prod.mk.inj stored
    obtain ⟨same, rfl⟩ := Prod.mk.inj rest
    rw [← Except.ok.inj same]
    have unknown : ¬pass.objects.any object.sameCell = true := by
      simpa using List.findIdx?_eq_none_iff.mp absent
    refine ⟨⟨⟨sound.memo, ?_⟩, (if_neg unknown).symm, fun _ _ known => known,
      List.prefix_refl _⟩, object, List.mem_append_right _ (List.mem_singleton_self _),
      List.getElem?_concat_length, ?_⟩
    · intro other member
      rcases List.mem_append.mp member with old | new
      · exact sound.objects other old
      · rw [List.mem_singleton.mp new]
        exact ⟨site, given⟩
    · simp [CapturedObject.sameCell]

theorem loadValue_eq_ok {item : ExpandedItem} (sound : Sound captures pass)
    (given : captures.Gives site value)
    (done : run (loadValue value) pass = (.ok item, after)) :
    Continues captures value.object?.toList pass after ∧
      ∀ objects, after.objects <+: objects → Loads captures objects value item := by
  unfold loadValue at done
  split at done
  · rename_i loaded _ _ instruction literal
    obtain ⟨same, rfl⟩ := Prod.mk.inj done
    have noObject : loaded.object? = none := by
      cases loaded with
      | object object => cases literal
      | _ => rfl
    rw [← Except.ok.inj same, noObject]
    exact ⟨sound.continues, fun _ _ => .literal literal⟩
  · obtain ⟨number, _, numbering, rest⟩ := run_bind_eq_ok.mp done
    obtain ⟨same, rfl⟩ := Prod.mk.inj rest
    obtain ⟨continues, known, member, found, sameCell⟩ := objectNumber_eq_ok sound given numbering
    rw [← Except.ok.inj same]
    refine ⟨continues, ?_⟩
    rintro _ ⟨more, rfl⟩
    obtain ⟨bound, _⟩ := List.getElem?_eq_some_iff.mp found
    refine .object ?_ sameCell (continues.sound.objects known member)
    rw [List.getElem?_append_left bound]
    exact found
  · cases done

theorem newTemporary_eq_ok {type : CilType} {temporary : Local} (sound : Sound captures pass)
    (done : run (newTemporary type) pass = (.ok temporary, after)) :
    temporary.type = type ∧ temporary ∈ after.temporaries.toList ∧
      Continues captures [] pass after := by
  obtain ⟨_, _, got, rest⟩ := run_bind_eq_ok.mp done
  obtain ⟨⟨⟩, ⟨⟩⟩ := Prod.mk.inj got
  obtain ⟨_, _, stored, rest⟩ := run_bind_eq_ok.mp rest
  obtain ⟨_, rfl⟩ := Prod.mk.inj stored
  obtain ⟨same, rfl⟩ := Prod.mk.inj rest
  rw [← Except.ok.inj same]
  refine ⟨rfl, ?_, ⟨sound.memo, sound.objects⟩, rfl, fun _ _ known => known, ?_⟩
  · rw [Array.toList_push]
    exact List.mem_append_right _ (List.mem_singleton_self _)
  · rw [Array.toList_push]
    exact List.prefix_append _ _

theorem useCapture_eq_ok {read : CaptureRead} {items : List ExpandedItem}
    (sound : Sound captures pass) (given : captures.Gives site value)
    (done : run (useCapture (read.use fun _ => value)) pass = (.ok items, after)) :
    ∃ load copy, items = load :: (copyCode copy).map ExpandedItem.code ∧
      copy.map Local.type = read.copyType? ∧
      (∀ slot ∈ copy, slot ∈ after.temporaries.toList) ∧
      Continues captures value.object?.toList pass after ∧
      ∀ objects, after.objects <+: objects → Loads captures objects value load := by
  unfold CaptureRead.use at done
  split at done
  · rename_i noCopy
    obtain ⟨load, _, loading, rest⟩ := run_bind_eq_ok.mp done
    obtain ⟨same, rfl⟩ := Prod.mk.inj rest
    obtain ⟨continues, loads⟩ := loadValue_eq_ok sound given loading
    refine ⟨load, none, (Except.ok.inj same).symm, noCopy.symm, ?_, continues, loads⟩
    rintro _ ⟨⟩
  · rename_i type isCopy
    obtain ⟨temporary, _, making, rest⟩ := run_bind_eq_ok.mp done
    obtain ⟨load, _, loading, rest⟩ := run_bind_eq_ok.mp rest
    obtain ⟨same, rfl⟩ := Prod.mk.inj rest
    obtain ⟨isType, declared, made⟩ := newTemporary_eq_ok sound making
    obtain ⟨loaded, loads⟩ := loadValue_eq_ok made.sound given loading
    refine ⟨load, some temporary, (Except.ok.inj same).symm, ?_, ?_, made.trans loaded, loads⟩
    · rw [Option.map_some, isType, isCopy]
    · rintro _ ⟨⟩
      exact loaded.temporaries.subset declared

end Pass

namespace SiteCode

variable {expander : Expander} {pass after : Pass} {kind : PlaceholderKind}
  {target : List CodeItem}

theorem eq_of_loadsReceiver {item : CodeItem} (loads : loadsReceiver item = true) :
    item = .code (.argument .load 0) := by
  unfold loadsReceiver at loads
  split at loads
  · rfl
  · cases loads

theorem capturedTarget_eq_ok {value : CapturedValue} (sound : pass.Sound expander.captures)
    (done : run (capturedTarget expander.captures expander.options kind target) pass =
      (.ok value, after)) :
    ∃ read : CaptureRead, target = read.items ∧ read.copyType? = none ∧
      read.Answered expander value ∧ pass.Continues expander.captures [] after := by
  unfold capturedTarget at done
  dsimp only at done
  split at done
  · cases done
  · rename_i first following
    rw [run_ite] at done
    split_ifs at done with loads
    · obtain ⟨receiver, isReceiver⟩ := Bool.and_eq_true_iff.mp loads
      obtain ⟨⟨use, length⟩, _, using', rest⟩ := run_bind_eq_ok.mp done
      obtain ⟨read, given, behind, rfl, rfl, reference, owned, gives, _, rfl, continues⟩ :=
        Pass.receiverUse_eq_ok sound using'
      have isFirst := eq_of_loadsReceiver isReceiver
      cases copy : read.copyType? with
      | some type =>
          rw [CaptureRead.use, copy] at rest
          cases rest
      | none =>
          rw [CaptureRead.use, copy] at rest
          dsimp only at rest
          rw [run_ite] at rest
          split_ifs at rest with whole
          · obtain ⟨same, rfl⟩ := Prod.mk.inj rest
            rw [← Except.ok.inj same, isFirst]
            have nothing : behind = [] := by
              rw [CaptureRead.items, List.length_cons, List.length_cons,
                List.length_append] at whole
              exact List.length_eq_zero_iff.mp (by omega)
            rw [nothing, List.append_nil]
            exact ⟨read, rfl, copy, ⟨receiver, reference, owned, gives⟩, continues⟩
          · cases rest
    · cases done

theorem memberTarget_eq_ok {member : Member} (sound : pass.Sound expander.captures)
    (done : run (memberTarget expander.captures expander.options kind target) pass =
      (.ok member, after)) :
    ∃ read : CaptureRead, target = read.items ∧ read.copyType? = none ∧
      read.Answered expander (.member member) ∧ pass.Continues expander.captures [] after := by
  obtain ⟨value, _, targeting, rest⟩ := run_bind_eq_ok.mp done
  obtain ⟨read, isTarget, byValue, answered, continues⟩ := capturedTarget_eq_ok sound targeting
  split at rest
  · obtain ⟨same, rfl⟩ := Prod.mk.inj rest
    rw [← Except.ok.inj same]
    exact ⟨read, isTarget, byValue, answered, continues⟩
  · cases rest

theorem constructor?_eq_some {item : CodeItem} {constructor : Method}
    (found : constructor? item = some constructor) :
    item = .code (.raw Opcode.newobj (.method constructor)) := by
  unfold constructor? at found
  split at found
  · split_ifs at found with isNew
    rw [isNew, Option.some.inj found]
  · cases found

theorem callTarget_eq_ok {method : Method} (sound : pass.Sound expander.captures)
    (done : run (callTarget expander.captures expander.options target) pass =
      (.ok method, after)) :
    CallTarget expander target method ∧ pass.Continues expander.captures [] after := by
  unfold callTarget at done
  split at done
  · rename_i constructor found
    obtain ⟨built, rfl⟩ := Prod.mk.inj done
    obtain ⟨item, last, isNew⟩ := Option.bind_eq_some_iff.mp found
    obtain ⟨arguments, rfl⟩ := List.getLast?_eq_some_iff.mp last
    rw [List.dropLast_concat] at built
    rw [constructor?_eq_some isNew]
    exact ⟨.constructed built, sound.continues⟩
  · obtain ⟨value, _, targeting, rest⟩ := run_bind_eq_ok.mp done
    obtain ⟨read, rfl, byValue, answered, continues⟩ := capturedTarget_eq_ok sound targeting
    split at rest
    · obtain ⟨same, rfl⟩ := Prod.mk.inj rest
      rw [← Except.ok.inj same]
      exact ⟨.captured byValue answered (Or.inl rfl), continues⟩
    · obtain ⟨same, rfl⟩ := Prod.mk.inj rest
      rw [← Except.ok.inj same]
      exact ⟨.captured byValue answered (Or.inr rfl), continues⟩
    · cases rest

theorem ofSite_eq_ok {site : PlaceholderSite} {code : SiteCode} {behind : List (Instruction Label)}
    (opening : List CodeItem) (sound : pass.Sound expander.captures)
    (done : run (ofSite expander.captures expander.options site) pass = (.ok code, after))
    (possible : code.after = .ok behind) :
    ReplacedSite.Acts expander ⟨opening, site.target, site.operation, code.before, behind⟩
        site.values.length site.kind ∧ pass.Continues expander.captures [] after := by
  have whole : code = ⟨code.before, .ok behind⟩ := by rw [← possible]
  have onMember : ∀ {access : Access}, access? site.kind = some access →
      run (do
        let member ← memberTarget expander.captures expander.options site.kind site.target
        Action.ofExcept (ofMember expander.options site.kind access member)) pass =
          (.ok code, after) →
      ReplacedSite.Acts expander ⟨opening, site.target, site.operation, code.before, behind⟩
        site.values.length site.kind ∧ pass.Continues expander.captures [] after := by
    intro access accesses found
    obtain ⟨member, _, targeting, rest⟩ := run_bind_eq_ok.mp found
    obtain ⟨read, isTarget, byValue, answered, continues⟩ := memberTarget_eq_ok sound targeting
    obtain ⟨built, rfl⟩ := Prod.mk.inj rest
    exact ⟨.member accesses isTarget byValue answered (built.trans (congrArg Except.ok whole)),
      continues⟩
  unfold ofSite at done
  dsimp only at done
  split at done
  · rename_i isKind
    exact onMember (by rw [isKind]; rfl) done
  · rename_i isKind
    exact onMember (by rw [isKind]; rfl) done
  · rename_i isKind
    exact onMember (by rw [isKind]; rfl) done
  · rename_i isKind
    obtain ⟨method, _, targeting, rest⟩ := run_bind_eq_ok.mp done
    obtain ⟨isTarget, continues⟩ := callTarget_eq_ok sound targeting
    obtain ⟨built, rfl⟩ := Prod.mk.inj rest
    rw [isKind]
    exact ⟨.call isTarget (built.trans (congrArg Except.ok whole)), continues⟩

end SiteCode
namespace Expander

theorem placeCalls_append (accessors : List Accessor) (left right : List ExpandedItem) :
    placeCalls accessors (left ++ right) =
      placeCalls accessors left ++ placeCalls accessors right := by
  induction left with
  | nil => rfl
  | cons item rest inductionHypothesis =>
      cases item with
      | item found => exact congrArg (found :: ·) inductionHypothesis
      | accessorCall number =>
          rw [List.cons_append, placeCalls, placeCalls, inductionHypothesis, List.append_assoc]

theorem placeCalls_code (accessors : List Accessor) (code : List (Instruction Label)) :
    placeCalls accessors (code.map ExpandedItem.code) = (Part.ownCode code).items := by
  induction code with
  | nil => rfl
  | cons instruction rest inductionHypothesis =>
      exact congrArg (CodeItem.code instruction :: ·) inductionHypothesis

theorem numbers_code (code : List (Instruction Label)) :
    (code.map ExpandedItem.code).filterMap ExpandedItem.number? = [] :=
  List.filterMap_eq_nil_iff.mpr <| List.forall_mem_map.mpr fun _ _ => rfl

variable {expander : Expander} {pass after : Pass}

/-- The expansion of some code that a pass has completed. -/
structure TracedAs (expander : Expander) (after : Pass) (items : List CodeItem)
    (expanded : List ExpandedItem) (trace : Trace) : Prop where
  input : trace.items = items
  output : ∀ accessors, placeCalls accessors expanded =
    Part.flatten (trace.output expander.options.argumentOffset accessors)
  calls : expanded.filterMap ExpandedItem.number? = trace.loads.filterMap LoadedCapture.number?
  valid : ∀ objects, after.objects <+: objects → trace.Valid expander objects
  known : ∀ capture ∈ trace.loads, capture.Known after

/-- Wherever expansion of the items succeeds, it has a trace. -/
def Traced (expander : Expander) (items : List CodeItem) : Prop :=
  ∀ index pass output after, pass.Sound expander.captures →
    run (expander.expandItems index items) pass = (.ok output, after) →
      ∃ trace, pass.Continues expander.captures trace.objects after ∧
        TracedAs expander after items output trace

theorem traced_nil : Traced expander [] := by
  intro index pass output after sound done
  rw [expandItems] at done
  obtain ⟨same, rfl⟩ := Prod.mk.inj done
  rw [← Except.ok.inj same]
  exact ⟨.done, sound.continues, rfl, fun _ => rfl, rfl, fun _ _ => trivial,
    fun _ absent => by cases absent⟩

theorem traced_mark {rest : List CodeItem} (traced : Traced expander rest) (label : Label) :
    Traced expander (.mark label :: rest) := by
  intro index pass output after sound done
  rw [expandItems] at done
  obtain ⟨expanded, _, others, ended⟩ := run_bind_eq_ok.mp done
  obtain ⟨same, rfl⟩ := Prod.mk.inj ended
  obtain ⟨trace, continues, input, placed, calls, valid, known⟩ := traced _ _ _ _ sound others
  rw [← Except.ok.inj same]
  refine ⟨.shared (.mark label) trace, continues, ?_, ?_, calls, ?_, known⟩
  · exact congrArg (CodeItem.mark label :: ·) input
  · exact fun accessors => congrArg (CodeItem.mark label :: ·) (placed accessors)
  · exact fun objects more => ⟨trivial, valid objects more⟩

theorem shiftArgument_eq_ok {instruction shifted : Instruction Label}
    (done : expander.shiftArgument instruction = .ok shifted) {access : Access} {index : UInt16}
    (isArgument : instruction = .argument access index) :
    0 ≤ index.toNat + expander.options.argumentOffset ∧
      index.toNat + expander.options.argumentOffset ≤ 0xFFFF := by
  subst isArgument
  rw [shiftArgument, shiftIndex] at done
  split at done
  · assumption
  · cases done

theorem traced_plain {instruction : Instruction Label} {rest : List CodeItem}
    (traced : Traced expander rest)
    (noAccess : expander.placeholders.accessLength? expander.options.receiverCaptures
      (.code instruction :: rest) = none)
    (noRead : ¬(expander.options.receiverCaptures && instruction == .argument .load 0) = true) :
    Traced expander (.code instruction :: rest) := by
  intro index pass output after sound done
  have other : expander.options.receiverCaptures = true → instruction ≠ .argument .load 0 := by
    intro receiver isLoad
    exact noRead (by rw [receiver, isLoad]; rfl)
  cases operates : expander.placeholders.operation? instruction with
  | some operation =>
      rw [expandItems] at done
      simp only [noAccess, if_neg noRead, operates] at done
      cases done
  | none =>
      have plain : instruction.Plain expander := by
        refine ⟨other, ?_, operates, ?_⟩
        · rw [← accessLength?_cons _ _ other rest]
          exact noAccess
        · rw [expandItems] at done
          simp only [noAccess, if_neg noRead, operates] at done
          obtain ⟨shifted, _, shifting, _⟩ := run_bind_eq_ok.mp done
          obtain ⟨shifts, _⟩ := Prod.mk.inj shifting
          exact fun _ _ => shiftArgument_eq_ok shifts
      rw [expandItems_plain plain, shiftArgument_plain plain] at done
      obtain ⟨shifted, _, shifting, ended⟩ := run_bind_eq_ok.mp done
      obtain ⟨isShifted, rfl⟩ := Prod.mk.inj shifting
      obtain ⟨expanded, _, others, ended⟩ := run_bind_eq_ok.mp ended
      obtain ⟨same, rfl⟩ := Prod.mk.inj ended
      obtain ⟨trace, continues, input, placed, calls, valid, known⟩ :=
        traced _ _ _ _ sound others
      rw [← Except.ok.inj same, ← Except.ok.inj isShifted]
      refine ⟨.shared (.code instruction) trace, continues, ?_, ?_, calls, ?_, known⟩
      · exact congrArg (CodeItem.code instruction :: ·) input
      · exact fun accessors => congrArg (CodeItem.code _ :: ·) (placed accessors)
      · exact fun objects more => ⟨plain, valid objects more⟩

theorem expandItems_use_eq_ok {index : Nat} {following : List CodeItem} {pass after : Pass}
    {output : List ExpandedItem}
    (noAccess : expander.placeholders.accessLength? expander.options.receiverCaptures
      (.code (.argument .load 0) :: following) = none)
    (receiver : expander.options.receiverCaptures = true)
    (done : run (expandItems expander index (.code (.argument .load 0) :: following)) pass =
      (.ok output, after)) :
    ∃ use length used code loaded expanded,
      run (Pass.receiverUse expander.captures index following) pass = (.ok (use, length), used) ∧
      run (Pass.useCapture use) used = (.ok code, loaded) ∧
      run (expandItems expander (index + length) (following.drop (length - 1))) loaded =
        (.ok expanded, after) ∧
      output = code ++ expanded := by
  have loads : (expander.options.receiverCaptures &&
      (.argument .load 0 : Instruction Label) == .argument .load 0) = true := by
    rw [receiver]
    rfl
  rw [expandItems] at done
  simp only [noAccess, if_pos loads] at done
  obtain ⟨⟨use, length⟩, used, using', done⟩ := run_bind_eq_ok.mp done
  obtain ⟨code, loaded, loading, done⟩ := run_bind_eq_ok.mp done
  obtain ⟨expanded, _, others, ended⟩ := run_bind_eq_ok.mp done
  obtain ⟨same, rfl⟩ := Prod.mk.inj ended
  exact ⟨use, length, used, code, loaded, expanded, using', loading, others,
    (Except.ok.inj same).symm⟩

theorem traced_read {rest : List CodeItem}
    (traced : ∀ items, items.length ≤ rest.length → Traced expander items)
    (noAccess : expander.placeholders.accessLength? expander.options.receiverCaptures
      (.code (.argument .load 0) :: rest) = none)
    (receiver : expander.options.receiverCaptures = true) :
    Traced expander (.code (.argument .load 0) :: rest) := by
  intro index pass output after sound done
  obtain ⟨_, _, _, _, _, expanded, using', loading, others, rfl⟩ :=
    expandItems_use_eq_ok noAccess receiver done
  obtain ⟨read, value, behind, rfl, rfl, reference, owned, given, remembered, rfl, reads⟩ :=
    Pass.receiverUse_eq_ok sound using'
  obtain ⟨load, copy, rfl, isCopy, declared, loaded, loads⟩ :=
    Pass.useCapture_eq_ok reads.sound given loading
  have shorter : ((read.following ++ behind).drop (read.items.length - 1)) = behind :=
    List.drop_left
  rw [shorter] at others
  obtain ⟨trace, continues, input, placed, calls, valid, known⟩ := traced behind (by simp) _ _ _ _
    loaded.sound others
  have knownHere : LoadedCapture.Known ⟨read, value, load, copy⟩ _ :=
    ⟨continues.memo _ _ (loaded.memo _ _ remembered),
      fun slot member => continues.temporaries.subset (declared slot member)⟩
  refine ⟨.read read value load copy trace, ?_, ?_, ?_, ?_, ?_,
    List.forall_mem_cons.mpr ⟨knownHere, known⟩⟩
  · rw [Trace.objects_read]
    exact reads.trans (loaded.trans continues)
  · rw [← input]
    rfl
  · intro accessors
    rw [List.cons_append, ← List.singleton_append, placeCalls_append, placeCalls_append,
      placeCalls_code, placed accessors]
    rfl
  · rw [List.cons_append, List.filterMap_cons, List.filterMap_append, numbers_code, calls]
    cases load <;> rfl
  · intro objects more
    exact ⟨⟨receiver, reference, owned, given⟩,
      loads objects (continues.objects_prefix.trans more), isCopy, valid objects more⟩

structure ValuesTracedAs (expander : Expander) (after : Pass) (values : List (List CodeItem))
    (outputs : List (List ExpandedItem)) (traces : TraceValues) : Prop where
  input : traces.items = values
  output : ∀ accessors, placeCalls accessors outputs.flatten =
    Part.flatten (traces.output expander.options.argumentOffset accessors).flatten
  calls : outputs.flatten.filterMap ExpandedItem.number? =
    traces.loads.filterMap LoadedCapture.number?
  valid : ∀ objects, after.objects <+: objects → traces.Valid expander objects
  known : ∀ capture ∈ traces.loads, capture.Known after

theorem traced_values {values : List (List CodeItem)} {outputs : List (List ExpandedItem)}
    (traced : ∀ value ∈ values, Traced expander value) (sound : pass.Sound expander.captures)
    (done : run (values.mapM (expander.expandItems 0)) pass = (.ok outputs, after)) :
    ∃ traces : TraceValues, pass.Continues expander.captures traces.objects after ∧
      ValuesTracedAs expander after values outputs traces := by
  induction values generalizing pass outputs with
  | nil =>
      obtain ⟨same, rfl⟩ := Prod.mk.inj done
      rw [← Except.ok.inj same]
      exact ⟨.none, sound.continues, rfl, fun _ => rfl, rfl, fun _ _ => trivial,
        fun _ absent => by cases absent⟩
  | cons value rest inductionHypothesis =>
      obtain ⟨here, later⟩ := List.forall_mem_cons.mp traced
      rw [List.mapM_cons] at done
      obtain ⟨output, middle, first, done⟩ := run_bind_eq_ok.mp done
      obtain ⟨others, _, second, ended⟩ := run_bind_eq_ok.mp done
      obtain ⟨same, rfl⟩ := Prod.mk.inj ended
      obtain ⟨trace, starts, input, placed, calls, valid, known⟩ := here _ _ _ _ sound first
      obtain ⟨traces, continues, inputs, placedOthers, callsOthers, validOthers, knownOthers⟩ :=
        inductionHypothesis later starts.sound second
      rw [← Except.ok.inj same]
      refine ⟨.value trace traces, ?_, ?_, ?_, ?_, ?_, ?_⟩
      · rw [TraceValues.objects_value]
        exact starts.trans continues
      · exact congrArg₂ List.cons input inputs
      · intro accessors
        rw [List.flatten_cons, placeCalls_append, placed, placedOthers, TraceValues.output,
          List.flatten_cons, Part.flatten_append]
      · rw [List.flatten_cons, List.filterMap_append, calls, callsOthers, TraceValues.loads,
          List.filterMap_append]
      · intro objects more
        exact ⟨valid objects (continues.objects_prefix.trans more), validOthers objects more⟩
      · exact List.forall_mem_append.mpr
          ⟨fun capture member => continues.known (known capture member), knownOthers⟩

theorem expandItems_site_eq_ok {index length : Nat} {items : List CodeItem}
    {site : PlaceholderSite} {shorter} {output : List ExpandedItem}
    (accesses : expander.placeholders.accessLength? expander.options.receiverCaptures items =
      some length)
    (found : PlaceholderSite.read expander.placeholders expander.options.receiverCaptures index
      length items = .ok ⟨site, shorter⟩)
    (done : run (expander.expandItems index items) pass = (.ok output, after)) :
    ∃ (log : Log) (made valued : Pass) (code : SiteCode) (values : List (List ExpandedItem))
      (behind : List (Instruction Label)) (expanded : List ExpandedItem),
      run (SiteCode.ofSite expander.captures expander.options site) { pass with log := log } =
        (.ok code, made) ∧
      run (site.values.mapM (expander.expandItems 0)) made = (.ok values, valued) ∧
      code.after = .ok behind ∧
      run (expander.expandItems (index + site.length) site.rest) valued = (.ok expanded, after) ∧
      output = code.before.map ExpandedItem.code ++ values.flatten ++
        behind.map ExpandedItem.code ++ expanded := by
  rw [expandItems_site accesses found] at done
  obtain ⟨_, _, noting, done⟩ := run_bind_eq_ok.mp done
  obtain ⟨_, rfl⟩ := Prod.mk.inj noting
  obtain ⟨code, made, making, done⟩ := run_bind_eq_ok.mp done
  obtain ⟨values, valued, valuing, done⟩ := run_bind_eq_ok.mp done
  obtain ⟨behind, _, possible, done⟩ := run_bind_eq_ok.mp done
  obtain ⟨isPossible, rfl⟩ := Prod.mk.inj possible
  obtain ⟨expanded, _, others, ended⟩ := run_bind_eq_ok.mp done
  obtain ⟨same, rfl⟩ := Prod.mk.inj ended
  exact ⟨_, made, valued, code, values, behind, expanded, making, valuing, isPossible, others,
    (Except.ok.inj same).symm⟩

theorem traced_site {items : List CodeItem} {accessLength : Nat}
    (traced : ∀ shorter, shorter.length < items.length → Traced expander shorter)
    (accesses : expander.placeholders.accessLength? expander.options.receiverCaptures items =
      some accessLength) : Traced expander items := by
  intro index pass output after sound done
  obtain ⟨access, inside, rfl, rfl, isAccess⟩ := accessLength?_take accesses
  cases found : PlaceholderSite.read expander.placeholders expander.options.receiverCaptures index
      access.length (access ++ inside) with
  | error error =>
      rw [expandItems_site_error accesses found] at done
      cases done
  | ok located =>
      rcases located with ⟨site, shorter⟩
      obtain ⟨classified, operates, arity, separate, split⟩ := PlaceholderSite.read_eq_ok found
      rw [List.drop_left] at split
      subst split
      obtain ⟨log, _, _, code, outputs, behind, expanded, making, valuing, isPossible, others,
        rfl⟩ := expandItems_site_eq_ok accesses found done
      have starts : pass.Continues expander.captures [] { pass with log := log } :=
        ⟨⟨sound.memo, sound.objects⟩, rfl, fun _ _ known => known, List.prefix_refl _⟩
      obtain ⟨acts, made⟩ := SiteCode.ofSite_eq_ok access starts.sound making
        isPossible
      obtain ⟨traces, valued, inputs, placedValues, callsValues, validValues, knownValues⟩ :=
        traced_values (fun value member => traced value (shorter.2 value member)) made.sound
          valuing
      obtain ⟨trace, continues, input, placed, calls, valid, known⟩ :=
        traced site.rest shorter.1 _ _ _ _ valued.sound others
      refine ⟨.site ⟨access, site.target, site.operation, code.before, behind⟩ traces trace,
        ?_, ?_, ?_, ?_, ?_, ?_⟩
      · rw [Trace.objects_site]
        exact starts.trans (made.trans (valued.trans continues))
      · rw [Trace.items_site, inputs, input]
      · intro accessors
        rw [placeCalls_append, placeCalls_append, placeCalls_append, placeCalls_code,
          placeCalls_code, placedValues, placed, Trace.output, Part.flatten_cons,
          Part.flatten_append, Part.flatten_cons]
        simp only [List.append_assoc]
      · rw [List.filterMap_append, List.filterMap_append, List.filterMap_append, numbers_code,
          numbers_code, callsValues, calls, Trace.loads, List.filterMap_append, List.nil_append,
          List.append_nil]
      · intro objects more
        refine ⟨⟨?_, operates, ?_, ?_, ?_, site.kind, classified, ?_⟩,
          validValues objects (continues.objects_prefix.trans more), valid objects more⟩
        · exact isAccess
        · rw [inputs]
          exact arity
        · rw [inputs]
          exact separate
        · rw [inputs, input]
          exact ⟨index, site, shorter, found, rfl⟩
        · rw [inputs]
          exact acts
      · exact List.forall_mem_append.mpr
          ⟨fun capture member => continues.known (knownValues capture member), known⟩

theorem exists_trace (items : List CodeItem) : Traced expander items := by
  induction count : items.length using Nat.strongRecOn generalizing items with
  | _ count inductionHypothesis =>
      have shorter : ∀ other : List CodeItem, other.length < items.length →
          Traced expander other :=
        fun other less => inductionHypothesis other.length (count ▸ less) other rfl
      cases access : expander.placeholders.accessLength? expander.options.receiverCaptures
          items with
      | some length => exact traced_site shorter access
      | none =>
          cases items with
          | nil => exact traced_nil
          | cons item rest =>
              have traced := shorter rest (Nat.lt_succ_self _)
              cases item with
              | mark label => exact traced_mark traced label
              | code instruction =>
                  by_cases loads : (expander.options.receiverCaptures &&
                      instruction == .argument .load 0) = true
                  · obtain ⟨receiver, isLoad⟩ := Bool.and_eq_true_iff.mp loads
                    obtain rfl := eq_of_beq isLoad
                    exact traced_read
                      (fun other less => shorter other (Nat.lt_succ_of_le less)) access receiver
                  · exact traced_plain traced access loads

end Expander
end CilTemplate
