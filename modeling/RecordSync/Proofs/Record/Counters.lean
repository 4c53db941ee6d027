import RecordSync.Entity
import RecordSync.Proofs.Record.Editing

/-!
# Exact counts

A record can be reached from one just made by local edits, by attempts to send it, and by
commits and rollbacks of these attempts, in any order and any number of times.  Whatever
was done, the counts of dirty parts are exact: that of the record, of every set in it, and
of every record and set nested in them.

**Underflow.**  A count goes down in four places: when a written field becomes clean, when
a set of a record becomes clean, and when an element that is put back, removed or moved
becomes clean.  `Record.decrements` lists the values that the counts have just before.

**Results.**
* `Record.Reachable.sound`: a record that can be reached is sound.
* `Record.Reachable.exact_counts`: the counts are the sizes of the deltas and the numbers
  of elements that differ, and no count is taken below zero.
-/

namespace RecordSync

variable {τ : Type}

section Differing

/-- An element differs from its baseline: by its presence or position or, if the user sees
it, by its own parts. -/
def Element.Differs (kind : SetKind) (e : Element τ) : Prop :=
  e.position.current ≠ e.position.remote ∨ e.deleted.current ≠ e.deleted.remote ∨
    e.isPresent kind = true ∧ e.record.localMessage ≠ e.record.remoteMessage

instance (kind : SetKind) (e : Element τ) : Decidable (e.Differs kind) :=
  inferInstanceAs (Decidable (_ ∨ _ ∨ _ ∧ _))

/-- The number of elements that differ from their baseline. -/
def ElementSet.differing (s : ElementSet τ) : Nat :=
  s.elements.countP (fun e => decide (e.Differs s.decl.kind))

variable [Catalog τ]

/-- An element has something to tell iff it differs. -/
theorem Element.isDirty_iff_differs {kind : SetKind} {e : Element τ}
    (h : e.record.Sound) : e.isDirty kind = true ↔ e.Differs kind := by
  rw [← not_iff_not, Bool.not_eq_true, Element.isDirty_eq_false,
    Element.isPresenceDirty_eq_false, h.clean_iff, Element.Differs]
  tauto

/-- The count of dirty elements is the number of elements that differ. -/
theorem ElementSet.Sound.dirty_eq_differing {s : ElementSet τ} (h : s.Sound) :
    s.dirty = s.differing := by
  rw [h.tidy.counted, ElementSet.dirtyElements, ElementSet.differing]
  apply List.countP_congr
  intro e he
  rw [Element.isDirty_iff_differs (h.nested e he), decide_eq_true_iff]

end Differing

section Decrements

/-- The value that a count has when an adjustment takes one off it. -/
def adjustDecrement (count : Nat) (was is : Bool) : List Nat :=
  if was && !is then [count] else []

/-- The value that a record's count has when a notice of one of its sets takes one off
it. -/
def Notice.encloseDecrement (parent : Nat) : Option Notice → List Nat
  | some inner => if inner.dirty = 0 ∧ inner.change < 0 then [parent] else []
  | none => []

/-- The value that a record's count has when writing a field takes one off it. -/
def Record.writeDecrement (r : Record τ) (field : String) (value : Value) : List Nat :=
  match SortedList.find? Field.name field r.fields with
  | none => []
  | some f =>
    if f.decl.kind.Holds value ∧ f.value.writeTransition value = .left then [r.dirty]
    else []

def ElementSet.removeDecrement (s : ElementSet τ) (id : Int) : List Nat :=
  match s.present? id with
  | none => []
  | some e =>
    adjustDecrement s.dirty (e.isDirty s.decl.kind)
      (!(!e.isRemotePresent s.decl.kind && !e.sent) &&
        (e.markAbsent s.decl.kind).isDirty s.decl.kind)

def ElementSet.moveDecrement (s : ElementSet τ) (e : Element τ) (position : Int) :
    List Nat :=
  adjustDecrement s.dirty (e.isDirty s.decl.kind)
    (Element.isDirty s.decl.kind { e with position := e.position.write position })

def ElementSet.swapDecrements (s : ElementSet τ) (first second : Int) : List Nat :=
  match s.decl.kind, s.present? first, s.present? second with
  | .ordered, some a, some b =>
    if first = second then []
    else
      s.moveDecrement a b.position.current ++
        (s.move a b.position.current).moveDecrement b a.position.current
  | _, _, _ => []

variable [Catalog τ]

mutual

/-- The values that counts have when an edit of a record takes one off them. -/
def Record.decrements (r : Record τ) : Edit → List Nat
  | .write field value => r.writeDecrement field value
  | .within set edit =>
    match r.set? set with
    | none => []
    | some s => s.decrements edit ++ Notice.encloseDecrement r.dirty (s.edit edit).2.1

def Record.decrementsAll (r : Record τ) : List Edit → List Nat
  | [] => []
  | edit :: rest => r.decrements edit ++ (r.edit edit).1.decrementsAll rest

def ElementSet.decrements (s : ElementSet τ) : SetEdit → List Nat
  | .add seed edits =>
    match (seed.record s.decl.element).bind s.open? with
    | .error _ => []
    | .ok (opened, e, was) =>
      e.record.decrementsAll edits ++ adjustDecrement opened.dirty was
        (Element.isDirty opened.decl.kind { e with record := (e.record.editAll edits).1 })
  | .update id edits =>
    match s.present? id with
    | none => []
    | some e =>
      e.record.decrementsAll edits ++ adjustDecrement s.dirty (e.isDirty s.decl.kind)
        (Element.isDirty s.decl.kind { e with record := (e.record.editAll edits).1 })
  | .remove id => s.removeDecrement id
  | .swap first second => s.swapDecrements first second

end

theorem adjustDecrement_pos {count : Nat} {was is : Bool} (h : was = true → 0 < count) :
    ∀ n ∈ adjustDecrement count was is, 0 < n := by
  intro n hn
  rw [adjustDecrement] at hn
  split at hn
  next left =>
    simp only [Bool.and_eq_true, Bool.not_eq_true'] at left
    obtain rfl := List.mem_singleton.mp hn
    exact h left.1
  next => cases hn

omit [Catalog τ] in
/-- A set that becomes clean was counted. -/
theorem ElementSet.Told.encloseDecrement_pos {s s' : ElementSet τ}
    {notice : Option Notice} (told : s.Told s' notice) {parent : Nat}
    (h : 0 < s.dirty → 0 < parent) :
    ∀ n ∈ Notice.encloseDecrement parent notice, 0 < n := by
  intro n hn
  cases told with
  | silent => cases hn
  | moved =>
      rw [Notice.encloseDecrement] at hn
      split at hn
      next left =>
        obtain rfl := List.mem_singleton.mp hn
        have change : (Notice.ofMove s.dirty s'.dirty).change =
            (s'.dirty : Int) - s.dirty := rfl
        have dirty : (Notice.ofMove s.dirty s'.dirty).dirty = s'.dirty := rfl
        exact h (by omega)
      next => cases hn

theorem Record.Sound.writeDecrement_pos {r : Record τ} (h : r.Sound) (field : String)
    (value : Value) : ∀ n ∈ r.writeDecrement field value, 0 < n := by
  intro n hn
  rw [Record.writeDecrement] at hn
  split at hn
  next => cases hn
  next f found =>
    split at hn
    next left =>
      obtain rfl := List.mem_singleton.mp hn
      apply h.tidy.dirty_pos_of_field (SortedList.mem_of_find? found)
      by_contra clean
      have clean : f.value.isDirty = false := by simpa [Field.isDirty] using clean
      have left := left.2
      rw [Tracked.writeTransition, clean] at left
      split at left
      · cases left
      · cases is : (f.value.write value).isDirty <;> simp [is, Transition.between] at left
    next => cases hn

theorem ElementSet.Sound.removeDecrement_pos {s : ElementSet τ} (h : s.Sound) (id : Int) :
    ∀ n ∈ s.removeDecrement id, 0 < n := by
  rw [ElementSet.removeDecrement]
  cases present : s.present? id with
  | none => exact nofun
  | some e =>
      obtain ⟨found, -⟩ := ElementSet.present?_eq_some.mp present
      exact adjustDecrement_pos ((h.opened found).dirty_pos h.tidy)

theorem ElementSet.Sound.swapDecrements_pos {s : ElementSet τ} (h : s.Sound)
    (first second : Int) : ∀ n ∈ s.swapDecrements first second, 0 < n := by
  rw [ElementSet.swapDecrements]
  split
  next a b ordered ha hb =>
    obtain ⟨ha, -⟩ := ElementSet.present?_eq_some.mp ha
    obtain ⟨hb, -⟩ := ElementSet.present?_eq_some.mp hb
    split
    next => exact nofun
    next differ =>
      have moved := h.move ordered ha b.position.current
      have hb' := ElementSet.find?_move ha differ b.position.current
      intro n hn
      rcases List.mem_append.mp hn with hn | hn
      · exact adjustDecrement_pos ((h.opened ha).dirty_pos h.tidy) n hn
      · exact adjustDecrement_pos
          ((moved.sound.opened (hb'.trans hb)).dirty_pos moved.sound.tidy) n hn
  next => exact nofun

mutual

/-- An edit of a sound record takes nothing off a count that is zero. -/
theorem Record.Sound.decrements_pos {r : Record τ} (h : r.Sound) : (edit : Edit) →
    ∀ n ∈ r.decrements edit, 0 < n
  | .write field value => by
      rw [Record.decrements]
      exact h.writeDecrement_pos field value
  | .within set edit => by
      rw [Record.decrements]
      cases found : r.set? set with
      | none => exact nofun
      | some s =>
          have hs := SortedList.mem_of_find? found
          have sound : s.Sound := ⟨h.set hs, fun e he => h.nested hs he⟩
          intro n hn
          rcases List.mem_append.mp hn with hn | hn
          · exact ElementSet.Sound.decrements_pos sound edit n hn
          · refine (sound.edit edit).2.encloseDecrement_pos (fun dirty => ?_) n hn
            exact h.tidy.dirty_pos_of_set hs (by simpa [ElementSet.isDirty] using dirty)

theorem Record.Sound.decrementsAll_pos {r : Record τ} (h : r.Sound) :
    (edits : List Edit) →
    ∀ n ∈ r.decrementsAll edits, 0 < n
  | [] => by
      rw [Record.decrementsAll]
      exact nofun
  | edit :: rest => by
      rw [Record.decrementsAll]
      intro n hn
      rcases List.mem_append.mp hn with hn | hn
      · exact Record.Sound.decrements_pos h edit n hn
      · exact Record.Sound.decrementsAll_pos (h.edit edit).1.sound rest n hn

theorem ElementSet.Sound.decrements_pos {s : ElementSet τ} (h : s.Sound) :
    (edit : SetEdit) →
    ∀ n ∈ s.decrements edit, 0 < n
  | .add seed edits => by
      rw [ElementSet.decrements]
      cases made : seed.record s.decl.element with
      | error e => exact nofun
      | ok record =>
          cases opened : s.open? record with
          | error e =>
              simp only [Except.bind, opened]
              exact nofun
          | ok result =>
              obtain ⟨s', e, was⟩ := result
              have made := Seed.made made
              obtain ⟨ho, -, -, count⟩ := h.open? made.sound made.type_eq opened
              simp only [Except.bind, opened]
              intro n hn
              rcases List.mem_append.mp hn with hn | hn
              · exact Record.Sound.decrementsAll_pos ho.sound edits n hn
              · exact adjustDecrement_pos (fun dirty => count ▸ ho.dirty_pos h.tidy dirty) n hn
  | .update id edits => by
      rw [ElementSet.decrements]
      cases present : s.present? id with
      | none => exact nofun
      | some e =>
          obtain ⟨found, -⟩ := ElementSet.present?_eq_some.mp present
          have ho := h.opened found
          intro n hn
          rcases List.mem_append.mp hn with hn | hn
          · exact Record.Sound.decrementsAll_pos ho.sound edits n hn
          · exact adjustDecrement_pos (ho.dirty_pos h.tidy) n hn
  | .remove id => by
      rw [ElementSet.decrements]
      exact h.removeDecrement_pos id
  | .swap first second => by
      rw [ElementSet.decrements]
      exact h.swapDecrements_pos first second

end

end Decrements

section Reachable

variable [Catalog τ]

/-- A record that can be reached from one just made, with the deltas of the attempts so
far. -/
inductive Record.Reachable (type : τ) : Record τ → List Delta → Prop
  | blank (id : Int) : Reachable type (.blank type id) []
  | decoded {content : Message} {r : Record τ} :
      Record.ofMessage type content = .ok r → Reachable type r []
  | edit {r : Record τ} {attempts : List Delta} (edit : Edit) :
      Reachable type r attempts → Reachable type (r.edit edit).1 attempts
  | send {r r' : Record τ} {attempts : List Delta} {patch : Message} {d : Delta} :
      Reachable type r attempts → r.synchronize = some (patch, d, r') →
        Reachable type r' (d :: attempts)
  | commit {r r' : Record τ} {attempts : List Delta} {d : Delta} :
      Reachable type r attempts → d ∈ attempts → r.commit d = .ok r' →
      Reachable type r' attempts
  | rollback {r : Record τ} {attempts : List Delta} {d : Delta} :
      Reachable type r attempts → d ∈ attempts → Reachable type (r.rollback d) attempts

/-- A record that can be reached is sound, and its attempts are of its type. -/
theorem Record.Reachable.sound {type : τ} {r : Record τ} {attempts : List Delta}
    (h : Reachable type r attempts) :
    r.Sound ∧ r.type = type ∧ ∀ d ∈ attempts, d.Suits type := by
  induction h with
  | blank id => exact ⟨(blank_sound type id).sound, rfl, nofun⟩
  | decoded made =>
      have made := made_of_ofMessage _ type _ made
      exact ⟨made.sound, made.type_eq, nofun⟩
  | edit edit _ ih =>
      obtain ⟨sound, rfl, suits⟩ := ih
      have evolves := (sound.edit edit).1
      exact ⟨evolves.sound, evolves.type_eq, evolves.type_eq ▸ suits⟩
  | send _ sent ih =>
      obtain ⟨sound, rfl, suits⟩ := ih
      obtain ⟨-, -, rfl, rfl⟩ := synchronize_eq_some.mp sent
      have type := sound.alike_markSent.type_eq
      exact ⟨sound.markSent, type, List.forall_mem_cons.mpr ⟨sound.delta_suits, suits⟩⟩
  | commit _ hd committed ih =>
      obtain ⟨sound, rfl, suits⟩ := ih
      obtain ⟨-, rfl⟩ := (sound.commit_eq_ok_iff (suits _ hd)).mp committed
      exact ⟨sound.advance (suits _ hd), advance_type _ _, suits⟩
  | rollback _ hd ih =>
      obtain ⟨sound, rfl, suits⟩ := ih
      exact ⟨sound.rollback (suits _ hd), rollback_type _ _, suits⟩

/-- The count of a sound record is the size of its delta, and is zero exactly when there
is nothing to send and the user sees what the baseline has. -/
theorem Record.Sound.exact_count {r : Record τ} (h : r.Sound) :
    r.dirty = r.delta.size ∧ (r.dirty = 0 ↔ r.delta = .empty) ∧
      (r.dirty = 0 ↔ r.synchronize = none) ∧
      (r.dirty = 0 ↔ r.localMessage = r.remoteMessage) := by
  have size := h.tidy.dirty_eq_size
  refine ⟨size, ?_, ?_, h.clean_iff⟩
  · rw [size]
    cases r.delta with
    | mk fields sets => simp [Delta.size, Delta.empty, List.length_eq_zero_iff]
  · rw [Record.synchronize]
    split <;> simp_all

/-- In a record that can be reached the count of every record is the size of its delta,
and that of every set the size of its delta and the number of its elements that differ; a
count is zero exactly when there is nothing to send and both sides are the same; and no
edit takes anything off a count that is zero. -/
theorem Record.Reachable.exact_counts {type : τ} {r : Record τ} {attempts : List Delta}
    (h : Reachable type r attempts) :
    (∀ x : Record τ, x.Within r →
      x.dirty = x.delta.size ∧
      (∀ s ∈ x.sets, s.dirty = s.differing ∧ s.dirty = s.delta.length) ∧
      (x.dirty = 0 ↔ x.delta = .empty) ∧
      (x.dirty = 0 ↔ x.synchronize = none) ∧
      (x.dirty = 0 ↔ x.localMessage = x.remoteMessage)) ∧
    ∀ edit, ∀ n ∈ r.decrements edit, 0 < n := by
  obtain ⟨sound, -, -⟩ := h.sound
  refine ⟨?_, sound.decrements_pos⟩
  intro x hx
  have inner := sound.within hx
  obtain ⟨size, rest⟩ := inner.exact_count
  refine ⟨size, ?_, rest⟩
  intro s hs
  have set : s.Sound := ⟨inner.set hs, fun e he => inner.nested hs he⟩
  exact ⟨set.dirty_eq_differing, set.tidy.dirty_eq_length⟩

/-- A tag is written and sent, written again while the attempt is out, and the attempt is
committed: the count is that of the second tag. -/
theorem Record.exact_counts_of_tag :
    ∃ (r : Record Entity) (attempts : List Delta), Reachable .task r attempts ∧
      attempts.length = 1 ∧ r.dirty = 1 ∧ r.dirty = r.delta.size := by
  have blank : Reachable Entity.task (.blank .task 1) [] := .blank 1
  have written := blank.edit (.write "tag" (.text "a"))
  have sent := written.send (Record.synchronize_eq_some.mpr ⟨by decide, rfl, rfl, rfl⟩)
  have again := sent.edit (.write "tag" (.text "b"))
  have accepted := again.commit (List.mem_singleton_self _) rfl
  exact ⟨_, _, accepted, rfl, rfl, (accepted.exact_counts.1 _ (.self _)).1⟩

end Reachable

end RecordSync
