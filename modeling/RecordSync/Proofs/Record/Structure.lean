import RecordSync.Proofs.SortedList
import RecordSync.Record.Basic

/-!
# The structure of records

What every record keeps to, at every depth: its parts are those that its type declares,
each field holds values of its kind, the elements of a set stand in the order of their
ids, and every count is what it is to be.

**Depth.**  `Record.Within` relates a record to every record that is nested in it.
`Record.Sound` says that a record and all records nested in it are tidy; its induction is
the one along which most properties of records are proved.

**Deltas.**  `Delta.Suits` says the same of a delta: it names parts of a type, each once.
-/

namespace RecordSync

variable {τ : Type}

/-- One record is the other or is nested in it. -/
inductive Record.Within : Record τ → Record τ → Prop
  | self (r : Record τ) : Within r r
  | nested {x r : Record τ} {s : ElementSet τ} {e : Element τ} :
      s ∈ r.sets → e ∈ s.elements → Within x e.record → Within x r

/-- The presence of an element moves only in the way of its set: by position or by
deletion. -/
def Element.Shaped (kind : SetKind) (e : Element τ) : Prop :=
  match kind with
  | .ordered => e.deleted = .clean false
  | .unordered => e.position = .clean 0

/-- A set keeps its elements in order and counts the dirty ones. -/
structure ElementSet.Tidy (s : ElementSet τ) : Prop where
  sorted : SortedList.Sorted Element.id s.elements
  counted : s.dirty = s.dirtyElements
  typed : ∀ e ∈ s.elements, e.record.type = s.decl.element
  shaped : ∀ e ∈ s.elements, e.Shaped s.decl.kind

/-- A field holds values of its kind, the baseline included. -/
def Field.Typed (f : Field) : Prop :=
  f.decl.kind.Holds f.value.current = true ∧ f.decl.kind.Holds f.value.remote = true

variable [Catalog τ]

/-- A record has the parts that its type declares, and counts the dirty ones. -/
structure Record.Tidy (r : Record τ) : Prop where
  fields_decl : r.fields.map (·.decl) = Catalog.fields r.type
  sets_decl : r.sets.map (·.decl) = Catalog.sets r.type
  typed : ∀ f ∈ r.fields, f.Typed
  counted : r.dirty = r.dirtyParts
  sets_tidy : ∀ s ∈ r.sets, s.Tidy

/-- A record and every record nested in it are tidy. -/
inductive Record.Sound : Record τ → Prop
  | intro {r : Record τ} :
      r.Tidy → (∀ s ∈ r.sets, ∀ e ∈ s.elements, Sound e.record) → Sound r

/-- The change of an element says of its presence only what its set can tell. -/
def ElementDelta.Shaped (kind : SetKind) (d : ElementDelta) : Prop :=
  match kind with
  | .ordered => d.deleted = none
  | .unordered => d.position = none

/-- A delta names parts of a type, each once, and gives fields values of their kinds. -/
inductive Delta.Suits : τ → Delta → Prop
  | intro {type : τ} {d : Delta} :
      (∀ decl ∈ Catalog.fields type, ∀ x ∈ d.fields, x.1 = decl.name →
        decl.kind.Holds x.2 = true) →
      (d.sets.map SetDelta.name).Nodup →
      (∀ x ∈ d.sets, SortedList.Sorted ElementDelta.id x.elements) →
      (∀ decl ∈ Catalog.sets type, ∀ x ∈ d.sets, x.name = decl.name →
        ∀ y ∈ x.elements, y.Shaped decl.kind) →
      (∀ decl ∈ Catalog.sets type, ∀ x ∈ d.sets, x.name = decl.name →
        ∀ y ∈ x.elements, Suits decl.element y.record) →
      Suits type d

section Catalogs

theorem nodup_field_names (type : τ) :
    ((Catalog.fields type).map FieldDecl.name).Nodup :=
  (List.nodup_append.mp (Catalog.nodup_names type)).1

theorem nodup_set_names (type : τ) :
    ((Catalog.sets type).map (fun decl : SetDecl τ => decl.name)).Nodup :=
  (List.nodup_append.mp (Catalog.nodup_names type)).2.1

end Catalogs

namespace Record

variable {r : Record τ} {s : ElementSet τ} {e : Element τ}

section Tidy

theorem Tidy.field_names (h : r.Tidy) : (r.fields.map Field.name).Nodup := by
  have : r.fields.map Field.name = (Catalog.fields r.type).map FieldDecl.name := by
    rw [← h.fields_decl, List.map_map]
    rfl
  rw [this]
  exact nodup_field_names r.type

theorem Tidy.set_names (h : r.Tidy) : (r.sets.map ElementSet.name).Nodup := by
  have : r.sets.map ElementSet.name =
      (Catalog.sets r.type).map (fun decl : SetDecl τ => decl.name) := by
    rw [← h.sets_decl, List.map_map]
    rfl
  rw [this]
  exact nodup_set_names r.type

theorem Tidy.set_decl_mem (h : r.Tidy) (hs : s ∈ r.sets) : s.decl ∈ Catalog.sets r.type :=
  h.sets_decl ▸ List.mem_map_of_mem hs

theorem Tidy.set?_of_mem (h : r.Tidy) (hs : s ∈ r.sets) : r.set? s.name = some s :=
  SortedList.find?_of_mem h.set_names hs

end Tidy

theorem Sound.tidy (h : r.Sound) : r.Tidy := by
  cases h
  assumption

theorem Sound.nested (h : r.Sound) (hs : s ∈ r.sets) (he : e ∈ s.elements) :
    e.record.Sound := by
  cases h with
  | intro _ inner => exact inner s hs e he

theorem Sound.set (h : r.Sound) (hs : s ∈ r.sets) : s.Tidy := h.tidy.sets_tidy s hs

/-- Every record within a sound one is sound. -/
theorem Sound.within {x : Record τ} (h : r.Sound) (hx : x.Within r) : x.Sound := by
  induction hx with
  | self => exact h
  | nested hs he _ ih => exact ih (h.nested hs he)

end Record

section Presence

variable {kind : SetKind} {e : Element τ}

omit [Catalog τ]

theorem Tracked.isDirty_eq_false {α : Type} [DecidableEq α] {t : Tracked α} :
    t.isDirty = false ↔ t.current = t.remote := by
  simp [Tracked.isDirty]

theorem Element.isPresenceDirty_eq_false :
    e.isPresenceDirty = false ↔
      e.position.current = e.position.remote ∧ e.deleted.current = e.deleted.remote := by
  simp [Element.isPresenceDirty, Tracked.isDirty_eq_false]

theorem Element.isPresent_withRecord (e : Element τ) (record : Record τ) :
    Element.isPresent kind { e with record := record } = e.isPresent kind := by
  cases kind <;> rfl

theorem Element.isRemotePresent_withRecord (e : Element τ) (record : Record τ) :
    Element.isRemotePresent kind { e with record := record } =
      e.isRemotePresent kind := by
  cases kind <;> rfl

/-- An element whose presence is clean is present on both sides or on none. -/
theorem Element.isPresent_eq_of_clean (h : e.isPresenceDirty = false) :
    e.isPresent kind = e.isRemotePresent kind := by
  obtain ⟨position, deleted⟩ := Element.isPresenceDirty_eq_false.mp h
  cases kind <;> simp [Element.isPresent, Element.isRemotePresent, position, deleted]

/-- An element that is present on no side has a clean presence. -/
theorem Element.Shaped.clean_of_absent (h : e.Shaped kind)
    (here : e.isPresent kind = false) (there : e.isRemotePresent kind = false) :
    e.isPresenceDirty = false := by
  rw [Element.isPresenceDirty_eq_false]
  cases kind with
  | ordered =>
      have h : e.deleted = .clean false := h
      simp_all [Element.isPresent, Element.isRemotePresent, Tracked.clean]
  | unordered =>
      have h : e.position = .clean 0 := h
      simp_all [Element.isPresent, Element.isRemotePresent, Tracked.clean]

/-- A clean element has a clean presence and, if the user sees it, a clean record. -/
theorem Element.isDirty_eq_false :
    e.isDirty kind = false ↔
      e.isPresenceDirty = false ∧ (e.isPresent kind = true → e.record.dirty = 0) := by
  cases hp : e.isPresent kind <;> cases hd : e.isPresenceDirty <;>
    simp [Element.isDirty, Element.dirtyParts, hp, hd]

/-- An element is dead when no side has it. -/
theorem Element.Shaped.isDead_iff (h : e.Shaped kind) :
    e.isDead kind = true ↔ e.isPresent kind = false ∧ e.isRemotePresent kind = false := by
  constructor
  · intro dead
    simp only [Element.isDead, Bool.and_eq_true, Bool.not_eq_true'] at dead
    exact dead.1
  · rintro ⟨here, there⟩
    have clean : e.isDirty kind = false :=
      Element.isDirty_eq_false.mpr ⟨h.clean_of_absent here there, by simp [here]⟩
    simp [Element.isDead, here, there, clean]

end Presence

end RecordSync
