import RecordSync.Proofs.Record.Seating

/-!
# Parts by name and elements by id

A record has each of its fields and sets once, under its name, and each element of a set
once, in the order of the ids; a delta has its changes in the same way.  That much holds
of a record whatever was done with it, also when deltas were committed and rolled back
that were taken of other records, or that move the presence of an element in a way that
its set does not know.

**Results.**
* `Record.Keyed.edit`, `Record.Keyed.markSent`, `Record.Keyed.advance`,
  `Record.Keyed.rollback`: a keyed record stays keyed.
* `Record.Keyed.accords`: a keyed delta is committed and rolled back element by element.
-/

namespace RecordSync

variable {τ : Type}

/-- A record has its fields and sets by name and their elements by id, and so has every
record in it. -/
inductive Record.Keyed : Record τ → Prop
  | intro {r : Record τ} :
      (r.fields.map Field.name).Nodup →
      (r.sets.map ElementSet.name).Nodup →
      (∀ s ∈ r.sets, SortedList.Sorted Element.id s.elements) →
      (∀ s ∈ r.sets, ∀ e ∈ s.elements, Keyed e.record) → Keyed r

/-- A set has its elements by id, and the records in it are keyed. -/
structure ElementSet.Keyed (s : ElementSet τ) : Prop where
  sorted : SortedList.Sorted Element.id s.elements
  nested : ∀ e ∈ s.elements, e.record.Keyed

/-- A delta names each set once and each element of a set once, in the order of the ids,
and so does the change of every element. -/
inductive Delta.Keyed : Delta → Prop
  | intro {d : Delta} :
      (d.sets.map SetDelta.name).Nodup →
      (∀ x ∈ d.sets, SortedList.Sorted ElementDelta.id x.elements) →
      (∀ x ∈ d.sets, ∀ y ∈ x.elements, Keyed y.record) → Keyed d

section Basics

variable {r : Record τ} {s : ElementSet τ} {d : Delta}

namespace Record.Keyed

theorem field_names (h : r.Keyed) : (r.fields.map Field.name).Nodup := by
  cases h
  assumption

theorem names (h : r.Keyed) : (r.sets.map ElementSet.name).Nodup := by
  cases h
  assumption

theorem set (h : r.Keyed) (hs : s ∈ r.sets) : s.Keyed := by
  cases h with
  | intro _ _ sorted nested => exact ⟨sorted s hs, nested s hs⟩

theorem of_sets (fields : (r.fields.map Field.name).Nodup)
    (names : (r.sets.map ElementSet.name).Nodup) (h : ∀ s ∈ r.sets, s.Keyed) : r.Keyed :=
  .intro fields names (fun s hs => (h s hs).sorted) (fun s hs => (h s hs).nested)

/-- A record stays keyed when a set of it becomes another keyed set of the same name. -/
theorem putSet (h : r.Keyed) (hs : s.Keyed) {dirty : Nat} :
    Record.Keyed { r.withSet s with dirty := dirty } := by
  refine of_sets h.field_names ?_ ?_
  · have same : (r.withSet s).sets.map ElementSet.name = r.sets.map ElementSet.name :=
      SortedList.map_key_modify (fun t ht => ht.symm)
    exact same.symm ▸ h.names
  · intro t ht
    rcases SortedList.eq_or_mem_of_mem_modify ht with rfl | ht
    · exact hs
    · exact h.set ht

/-- A keyed record meets a keyed delta set by set and element by element. -/
theorem accords (h : r.Keyed) (hd : d.Keyed) : r.Accords d := by
  induction h generalizing d with
  | intro _ own sorted _ ih =>
      cases hd with
      | intro names changed inner =>
          exact .intro own names sorted changed
            (fun s hs x hx _ e he y hy => ih s hs e he (inner x hx y hy))

/-- Every record within a keyed one is keyed. -/
theorem within {x : Record τ} (h : r.Keyed) (hx : x.Within r) : x.Keyed := by
  induction hx with
  | self => exact h
  | nested hs he _ ih => exact ih ((h.set hs).nested _ he)

theorem of_sound [Catalog τ] (h : r.Sound) : r.Keyed := by
  induction h with
  | intro tidy _ ih =>
      exact .intro tidy.field_names tidy.set_names
        (fun s hs => (tidy.sets_tidy s hs).sorted) ih

end Record.Keyed

theorem Delta.Keyed.changed (h : d.Keyed) {x : SetDelta} (hx : x ∈ d.sets) :
    SortedList.Sorted ElementDelta.id x.elements ∧ ∀ y ∈ x.elements, y.record.Keyed := by
  cases h with
  | intro _ changed inner => exact ⟨changed x hx, inner x hx⟩

theorem Delta.Keyed.of_fields (fields : List (String × Value)) :
    Delta.Keyed ⟨fields, []⟩ :=
  .intro List.nodup_nil (fun _ hx => absurd hx List.not_mem_nil)
    (fun _ hx => absurd hx List.not_mem_nil)

/-- A delta that names one set is keyed when the changes of its elements are. -/
theorem Delta.Keyed.single {fields : List (String × Value)} {name : String}
    {elements : List ElementDelta} (sorted : SortedList.Sorted ElementDelta.id elements)
    (inner : ∀ y ∈ elements, y.record.Keyed) : Delta.Keyed ⟨fields, [⟨name, elements⟩]⟩ :=
  .intro (List.nodup_singleton name) (List.forall_mem_singleton.mpr sorted)
    (List.forall_mem_singleton.mpr inner)

end Basics

section Edits

variable [Catalog τ]

/-- An edit keeps the elements of a set in the order of their ids. -/
theorem ElementSet.sorted_edit {s : ElementSet τ}
    (h : SortedList.Sorted Element.id s.elements) (edit : SetEdit) :
    SortedList.Sorted Element.id (s.edit edit).1.elements := by
  rw [ElementSet.edit.eq_def]
  cases edit with
  | add seed edits =>
      cases added : (seed.record s.decl.element).bind s.open? with
      | error e => simpa only [added] using h
      | ok result =>
          obtain ⟨opened, e, was⟩ := result
          obtain ⟨record, -, opens⟩ := record_of_bind added
          simp only [added, close, insert, (origin_of_open? opens).2.1]
          exact h.insert _
  | update id edits =>
      cases present : s.present? id with
      | none => simpa only [present] using h
      | some e =>
          simp only [present, close, insert]
          exact h.insert _
  | remove id =>
      dsimp only
      rw [removeElement]
      split
      · exact h
      · dsimp only
        split
        · exact h.erase id
        · exact h.insert _
  | swap first second =>
      dsimp only
      rw [swapElements]
      split
      · exact h
      · split
        · exact h
        · exact h
        · split
          · exact h
          · exact (h.insert _).insert _

theorem Seed.keyed {type : τ} {seed : Seed} {record : Record τ}
    (h : seed.record type = .ok record) : record.Keyed :=
  .of_sound (Seed.made h).sound

mutual

/-- A keyed record stays keyed when it is edited. -/
theorem Record.Keyed.edit {r : Record τ} (h : r.Keyed) :
    (edit : Edit) → (r.edit edit).1.Keyed
  | .write field value => by
      rw [Record.edit, Record.writeField]
      split
      next => exact h
      next f found =>
        obtain rfl := SortedList.key_of_find? found
        split
        · have same : (SortedList.modify Field.name f.name
              (fun _ => { f with value := f.value.write value }) r.fields).map Field.name =
                r.fields.map Field.name :=
            SortedList.map_key_modify (fun g hg => hg.symm)
          exact .of_sets (same.symm ▸ h.field_names) h.names (fun s hs => h.set hs)
        · exact h
  | .within set edit => by
      rw [Record.edit]
      cases found : r.set? set with
      | none => exact h
      | some s =>
          have own := h.set (SortedList.mem_of_find? found)
          exact h.putSet ⟨ElementSet.sorted_edit own.sorted edit,
            ElementSet.Keyed.edit_nested own edit⟩

theorem Record.Keyed.editAll {r : Record τ} (h : r.Keyed) :
    (edits : List Edit) → (r.editAll edits).1.Keyed
  | [] => by
      rw [Record.editAll]
      exact h
  | edit :: rest => by
      rw [Record.editAll]
      exact Record.Keyed.editAll (Record.Keyed.edit h edit) rest

/-- The records in a set stay keyed. -/
theorem ElementSet.Keyed.edit_nested {s : ElementSet τ} (h : s.Keyed) :
    (edit : SetEdit) → ∀ x ∈ (s.edit edit).1.elements, x.record.Keyed
  | .add seed edits => by
      intro x hx
      cases s.origin_of_edit (.add seed edits) x hx with
      | kept hold shifts => exact shifts.record_eq ▸ h.nested _ hold
      | added made fresh _ =>
          subst fresh
          rw [Element.record_fresh]
          exact Record.Keyed.editAll (Seed.keyed made) edits
      | restored hold shifts _ =>
          exact Record.Keyed.editAll (shifts.record_eq ▸ h.nested _ hold) edits
  | .update id edits => by
      intro x hx
      cases s.origin_of_edit (.update id edits) x hx with
      | kept hold shifts => exact shifts.record_eq ▸ h.nested _ hold
      | updated he _ => exact Record.Keyed.editAll (h.nested _ he) edits
  | .remove id => by
      intro x hx
      cases s.origin_of_edit (.remove id) x hx with
      | kept hold shifts => exact shifts.record_eq ▸ h.nested _ hold
  | .swap first second => by
      intro x hx
      cases s.origin_of_edit (.swap first second) x hx with
      | kept hold shifts => exact shifts.record_eq ▸ h.nested _ hold

end

end Edits

section Attempts

variable {r : Record τ} {d : Delta}

theorem Record.Keyed.markSent (h : r.Keyed) : r.markSent.Keyed := by
  induction h with
  | @intro r fields names sorted nested ih =>
      rw [Record.markSent_eq]
      refine .of_sets fields ?_ ?_
      · rw [List.map_map]
        exact names
      · intro s' hs'
        obtain ⟨s, hs, rfl⟩ := List.mem_map.mp hs'
        rw [ElementSet.markSent_eq]
        refine ⟨(sorted s hs).map (fun e _ => e.markSent_id s.decl.kind), ?_⟩
        intro e' he'
        obtain ⟨e, he, rfl⟩ := List.mem_map.mp he'
        rw [Element.markSent]
        split
        · exact ih s hs e he
        · exact nested s hs e he

/-- A record stays keyed when the elements that a delta names are settled by a change that
keeps their ids. -/
theorem Record.Keyed.settle (h : r.Keyed) (move : Field → Field)
    (named : ∀ f, (move f).name = f.name)
    (change : SetKind → ElementDelta → Element τ → Element τ)
    (keeps : ∀ kind x e, (change kind x e).id = e.id)
    (inner : ∀ s ∈ r.sets, ∀ e ∈ s.elements, ∀ x ∈ d.sets, ∀ y ∈ x.elements,
      (change s.decl.kind y e).record.Keyed) :
    (Record.recount { r with
      fields := r.fields.map move
      sets := r.sets.map (ElementSet.visited (fun changes s => { s with
        elements := s.elements.filterMap
          (Element.settled s.decl.kind (change s.decl.kind) changes) }.recount)
          d.sets) }).Keyed := by
  refine .of_sets ?_ ?_ ?_
  · have same : (r.fields.map move).map Field.name = r.fields.map Field.name := by
      rw [List.map_map]
      exact List.map_congr_left (fun f _ => named f)
    exact same.symm ▸ h.field_names
  · simp only [Record.recount, List.map_map]
    have same : (r.sets.map ElementSet.name) = r.sets.map (ElementSet.name ∘
        ElementSet.visited (fun changes s => { s with
          elements := s.elements.filterMap
            (Element.settled s.decl.kind (change s.decl.kind) changes) }.recount) d.sets) := by
      apply List.map_congr_left
      intro s _
      rw [Function.comp_apply, ElementSet.visited]
      split <;> rfl
    exact same ▸ h.names
  · intro s' hs'
    obtain ⟨s, hs, rfl⟩ := List.mem_map.mp hs'
    rw [ElementSet.visited]
    split
    next => exact h.set hs
    next x found =>
      refine ⟨(h.set hs).sorted.filterMap (fun e _ e' h' =>
        Element.settled_id (keeps s.decl.kind) h'), ?_⟩
      intro e' he'
      obtain ⟨e, he, settled⟩ := List.mem_filterMap.mp he'
      rcases Element.settled_eq_some.mp settled with ⟨-, rfl⟩ | ⟨y, hy, -, rfl⟩
      · exact (h.set hs).nested _ he
      · exact inner s hs e he x (SortedList.mem_of_find? found) y (SortedList.mem_of_find? hy)

/-- A record stays keyed when its baseline moves. -/
theorem Record.Keyed.advance (h : r.Keyed) (hd : d.Keyed) : (r.advance d).Keyed := by
  induction h generalizing d with
  | @intro r fields names sorted nested ih =>
      have settled := Record.Keyed.settle (.intro fields names sorted nested)
        (Field.commitFrom d.fields) (fun _ => rfl) (fun _ => Element.advance)
        (fun _ => Element.advance_id)
        (fun s hs e he x hx y hy => ih s hs e he ((hd.changed hx).2 y hy))
      rw [Record.advance_eq]
      exact settled

/-- A record stays keyed when an attempt is rolled back. -/
theorem Record.Keyed.rollback (h : r.Keyed) (hd : d.Keyed) : (r.rollback d).Keyed := by
  induction h generalizing d with
  | @intro r fields names sorted nested ih =>
      have keyed : r.Keyed := .intro fields names sorted nested
      rw [(keyed.accords hd).rollback_eq]
      refine keyed.settle _ (fun _ => rfl) Element.retract
        (fun kind x e => e.retract_id kind x) ?_
      intro s hs e he x hx y hy
      rw [Element.retract_record]
      exact ih s hs e he ((hd.changed hx).2 y hy)

end Attempts

end RecordSync
