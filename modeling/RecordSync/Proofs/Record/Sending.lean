import RecordSync.Proofs.Record.Attempts

/-!
# Sending and its failure

When what a record has to tell leaves for the server, the elements concerned are marked as
sent, and when the attempt fails the marks are taken back, with the elements that only the
marks kept.  Neither is seen in any view of the record.

**Results.**
* `Record.Sound.alike_markSent` and `Record.Sound.alike_rollback`: all views stay as they
  are.
* `Record.Sound.delta_suits`: the delta of a sound record is one of its type.
-/

namespace RecordSync

variable {τ : Type}

/-- Two records of one type with the same views. -/
structure Record.Alike (r r' : Record τ) : Prop where
  type_eq : r'.type = r.type
  id_eq : r'.id = r.id
  dirty_eq : r'.dirty = r.dirty
  delta_eq : r'.delta = r.delta
  patch_eq : r'.patch = r.patch
  remote_eq : r'.remoteMessage = r.remoteMessage
  local_eq : r'.localMessage = r.localMessage

/-- Two elements with one presence and records with the same views. -/
structure Element.Alike (e e' : Element τ) : Prop where
  position_eq : e'.position = e.position
  deleted_eq : e'.deleted = e.deleted
  record : e.record.Alike e'.record

namespace Element.Alike

variable {kind : SetKind} {e e' : Element τ}

theorem id_eq (h : e.Alike e') : e'.id = e.id := h.record.id_eq

theorem isPresent_eq (h : e.Alike e') : e'.isPresent kind = e.isPresent kind := by
  cases kind <;> simp [Element.isPresent, h.position_eq, h.deleted_eq]

theorem isRemotePresent_eq (h : e.Alike e') :
    e'.isRemotePresent kind = e.isRemotePresent kind := by
  cases kind <;> simp [Element.isRemotePresent, h.position_eq, h.deleted_eq]

theorem isDirty_eq (h : e.Alike e') : e'.isDirty kind = e.isDirty kind := by
  simp [Element.isDirty, Element.dirtyParts, Element.isPresenceDirty, h.isPresent_eq,
    h.position_eq, h.deleted_eq, h.record.dirty_eq]

theorem shaped (h : e.Alike e') (shaped : e.Shaped kind) : e'.Shaped kind := by
  cases kind with
  | ordered => exact h.deleted_eq.trans shaped
  | unordered => exact h.position_eq.trans shaped

theorem delta?_eq (h : e.Alike e') : e'.delta? kind = e.delta? kind := by
  simp [Element.delta?, h.isDirty_eq, h.isPresent_eq, h.id_eq, h.position_eq, h.deleted_eq,
    h.record.delta_eq]

theorem patch?_eq (h : e.Alike e') : e'.patch? kind = e.patch? kind := by
  simp [Element.patch?, h.isDirty_eq, h.isPresent_eq, h.id_eq, h.position_eq, h.deleted_eq,
    h.record.patch_eq]

theorem remote?_eq (h : e.Alike e') : e'.remote? kind = e.remote? kind := by
  simp [Element.remote?, h.isRemotePresent_eq, h.position_eq, h.record.remote_eq]

theorem local?_eq (h : e.Alike e') : e'.local? kind = e.local? kind := by
  simp [Element.local?, h.isPresent_eq, h.position_eq, h.record.local_eq]

end Element.Alike

/-- The element is kept with its views, or it goes and was on no side. -/
def Element.Kept (kind : SetKind) (e : Element τ) : Option (Element τ) → Prop
  | some e' => e.Alike e'
  | none => e.isPresent kind = false ∧ e.isRemotePresent kind = false ∧ e.isDirty kind = false

/-- Two sets of one declaration in which every element is kept. -/
def ElementSet.Alike (s s' : ElementSet τ) : Prop :=
  s'.decl = s.decl ∧ ∃ keep : Element τ → Option (Element τ),
    s'.elements = s.elements.filterMap keep ∧ ∀ e ∈ s.elements,
      e.Kept s.decl.kind (keep e)

namespace ElementSet.Alike

variable {s s' : ElementSet τ}

/-- What is read off each element of a set is read off the other set too. -/
theorem filterMap_eq {β : Type} (h : s.Alike s') {view : Element τ → Option β}
    (same : ∀ e e', e.Alike e' → view e' = view e)
    (gone : ∀ e, e.isPresent s.decl.kind = false → e.isRemotePresent s.decl.kind = false →
      e.isDirty s.decl.kind = false → view e = none) :
    s'.elements.filterMap view = s.elements.filterMap view := by
  obtain ⟨-, keep, elements, kept⟩ := h
  rw [elements, List.filterMap_filterMap]
  apply List.filterMap_congr
  intro e he
  have kept := kept e he
  cases hk : keep e with
  | none =>
      rw [hk] at kept
      obtain ⟨here, there, clean⟩ := kept
      exact (gone e here there clean).symm
  | some e' =>
      rw [hk] at kept
      exact same e e' kept

theorem delta_eq (h : s.Alike s') : s'.delta = s.delta := by
  rw [ElementSet.delta_eq, ElementSet.delta_eq, h.1]
  exact h.filterMap_eq (fun _ _ => Element.Alike.delta?_eq)
    (fun e _ _ clean => by simp [Element.delta?, clean])

theorem patches_eq (h : s.Alike s') : s'.patches = s.patches := by
  rw [ElementSet.patches_eq, ElementSet.patches_eq, h.1]
  exact h.filterMap_eq (fun _ _ => Element.Alike.patch?_eq)
    (fun e _ _ clean => by simp [Element.patch?, clean])

theorem remoteMessages_eq (h : s.Alike s') : s'.remoteMessages = s.remoteMessages := by
  rw [ElementSet.remoteMessages_eq, ElementSet.remoteMessages_eq, h.1]
  congr 1
  exact h.filterMap_eq (fun _ _ => Element.Alike.remote?_eq)
    (fun e _ there _ => by simp [Element.remote?, there])

theorem localMessages_eq (h : s.Alike s') : s'.localMessages = s.localMessages := by
  rw [ElementSet.localMessages_eq, ElementSet.localMessages_eq, h.1]
  congr 1
  exact h.filterMap_eq (fun _ _ => Element.Alike.local?_eq)
    (fun e here _ _ => by simp [Element.local?, here])

theorem name_eq (h : s.Alike s') : s'.name = s.name := congrArg SetDecl.name h.1

theorem delta?_eq (h : s.Alike s') : s'.delta? = s.delta? := by
  rw [ElementSet.delta?, ElementSet.delta?, h.delta_eq, h.name_eq]

end ElementSet.Alike

/-- A record with the same fields and count and with sets that are alike has the same
views. -/
theorem Record.Alike.of_sets {r : Record τ} {change : ElementSet τ → ElementSet τ}
    {dirty : Nat} (count : dirty = r.dirty) (sets : ∀ s ∈ r.sets, s.Alike (change s)) :
    r.Alike { r with dirty := dirty, sets := r.sets.map change } where
  type_eq := rfl
  id_eq := rfl
  dirty_eq := count
  delta_eq := by
    rw [Record.delta_eq, Record.delta_eq, List.filterMap_map]
    congr 1
    exact List.filterMap_congr (fun s hs => (sets s hs).delta?_eq)
  patch_eq := by
    rw [Record.patch_eq, Record.patch_eq, List.map_map]
    congr 2
    apply List.map_congr_left
    intro s hs
    rw [Function.comp_apply, (sets s hs).name_eq, (sets s hs).patches_eq]
  remote_eq := by
    rw [Record.remoteMessage_eq, Record.remoteMessage_eq, List.map_map]
    congr 2
    apply List.map_congr_left
    intro s hs
    rw [Function.comp_apply, (sets s hs).name_eq, (sets s hs).remoteMessages_eq]
  local_eq := by
    rw [Record.localMessage_eq, Record.localMessage_eq, List.map_map]
    congr 2
    apply List.map_congr_left
    intro s hs
    rw [Function.comp_apply, (sets s hs).name_eq, (sets s hs).localMessages_eq]

theorem Record.Alike.refl (r : Record τ) : r.Alike r :=
  ⟨rfl, rfl, rfl, rfl, rfl, rfl, rfl⟩

theorem Element.Alike.refl (e : Element τ) : e.Alike e := ⟨rfl, rfl, .refl e.record⟩

section Delta

theorem Record.synchronize_eq_some {r r' : Record τ} {patch : Message} {d : Delta} :
    r.synchronize = some (patch, d, r') ↔
      r.dirty ≠ 0 ∧ patch = r.patch ∧ d = r.delta ∧ r' = r.markSent := by
  rw [Record.synchronize]
  split
  next clean => simp [clean]
  next dirty => simp [dirty, eq_comm]

theorem ElementSet.delta?_eq_some {s : ElementSet τ} {x : SetDelta}
    (h : s.delta? = some x) : x = ⟨s.name, s.delta⟩ := by
  rw [ElementSet.delta?] at h
  split at h
  · cases h
  · exact (Option.some.inj h).symm

theorem ElementSet.mem_delta {s : ElementSet τ} {y : ElementDelta} :
    y ∈ s.delta ↔ ∃ e ∈ s.elements, e.isDirty s.decl.kind = true ∧
      y = ⟨e.id, if e.isPresent s.decl.kind then e.record.delta else .empty, e.position.delta?,
        e.deleted.delta?⟩ := by
  rw [ElementSet.delta_eq, List.mem_filterMap]
  simp only [Element.delta?, Option.ite_none_right_eq_some, Option.some.injEq]
  constructor
  · rintro ⟨e, he, dirty, rfl⟩
    exact ⟨e, he, dirty, rfl⟩
  · rintro ⟨e, he, dirty, rfl⟩
    exact ⟨e, he, dirty, rfl⟩

end Delta

variable [Catalog τ]

section MarkSent

/-- A record is seen as before when it has been noted that it leaves. -/
theorem Record.Sound.alike_markSent {r : Record τ} (h : r.Sound) :
    r.Alike r.markSent := by
  induction h with
  | @intro r tidy inner ih =>
      rw [Record.markSent_eq]
      refine Record.Alike.of_sets rfl ?_
      intro s hs
      rw [ElementSet.markSent_eq]
      refine ⟨rfl, fun e => some (e.markSent s.decl.kind), ?_, ?_⟩
      · exact congrFun List.filterMap_eq_map.symm s.elements
      · intro e he
        show e.Alike (e.markSent s.decl.kind)
        rw [Element.markSent]
        split
        · exact ⟨rfl, rfl, ih s hs e he⟩
        · exact .refl e

omit [Catalog τ] in
/-- A set stays tidy when it has been noted that its elements leave. -/
theorem ElementSet.Tidy.markSent {s : ElementSet τ} (h : s.Tidy)
    (alike : ∀ e ∈ s.elements, e.Alike (e.markSent s.decl.kind)) : s.markSent.Tidy := by
  rw [ElementSet.markSent_eq]
  refine ⟨h.sorted.map (fun e he => (alike e he).id_eq), ?_, ?_, ?_⟩
  · rw [h.counted, ElementSet.dirtyElements, ElementSet.dirtyElements, List.countP_map]
    exact List.countP_congr (fun e he => by rw [Function.comp_apply, (alike e he).isDirty_eq])
  · intro e' he'
    obtain ⟨e, he, rfl⟩ := List.mem_map.mp he'
    exact (alike e he).record.type_eq.trans (h.typed e he)
  · intro e' he'
    obtain ⟨e, he, rfl⟩ := List.mem_map.mp he'
    exact (alike e he).shaped (h.shaped e he)

/-- A sound record stays sound when it has been noted that it leaves. -/
theorem Record.Sound.markSent {r : Record τ} (h : r.Sound) : r.markSent.Sound := by
  induction h with
  | @intro r tidy inner ih =>
      have alike : ∀ s ∈ r.sets, ∀ e ∈ s.elements, e.Alike (e.markSent s.decl.kind) := by
        intro s hs e he
        rw [Element.markSent]
        split
        · exact ⟨rfl, rfl, (inner s hs e he).alike_markSent⟩
        · exact .refl e
      rw [Record.markSent_eq]
      refine .intro ⟨tidy.fields_decl, ?_, tidy.typed, ?_, ?_⟩ ?_
      · rw [List.map_map, ← tidy.sets_decl]
        rfl
      · rw [tidy.counted, Record.dirtyParts, Record.dirtyParts, List.countP_map]
        rfl
      · intro s' hs'
        obtain ⟨s, hs, rfl⟩ := List.mem_map.mp hs'
        exact (tidy.sets_tidy s hs).markSent (alike s hs)
      · intro s' hs' e' he'
        obtain ⟨s, hs, rfl⟩ := List.mem_map.mp hs'
        rw [ElementSet.markSent_eq] at he'
        obtain ⟨e, he, rfl⟩ := List.mem_map.mp he'
        rw [Element.markSent]
        split
        · exact ih s hs e he
        · exact inner s hs e he

end MarkSent

section Rollback

/-- A record is seen as before when an attempt has been rolled back. -/
theorem Record.Sound.alike_rollback {r : Record τ} (h : r.Sound) {d : Delta}
    (hd : d.Suits r.type) : r.Alike (r.rollback d) := by
  induction h generalizing d with
  | @intro r tidy inner ih =>
      have sound : r.Sound := .intro tidy inner
      have sets : ∀ s ∈ r.sets, s.Alike (s.visited (fun changes s => { s with
          elements := s.elements.filterMap
            (Element.settled s.decl.kind (Element.retract s.decl.kind) changes) }.recount)
            d.sets) := by
        intro s hs
        have kept : ∀ e ∈ s.elements, e.Kept s.decl.kind (some e) :=
          fun e _ => Element.Alike.refl e
        rw [ElementSet.visited]
        split
        next => exact ⟨rfl, some, List.filterMap_some.symm, kept⟩
        next x found =>
          refine ⟨rfl, _, rfl, ?_⟩
          intro e he
          rw [Element.settled]
          split
          next => exact kept e he
          next y hy =>
            have suits := ((tidy.suits hd hs found).2 y (SortedList.mem_of_find? hy)).2
            rw [← (tidy.sets_tidy s hs).typed e he] at suits
            have alike : e.Alike (e.retract s.decl.kind y) := by
              obtain ⟨position, deleted⟩ := Element.retract_presence s.decl.kind y e
              exact ⟨position, deleted,
                Element.retract_record s.decl.kind y e ▸ ih s hs e he suits⟩
            split
            next dead =>
              simp only [Element.isDead, alike.isPresent_eq, alike.isRemotePresent_eq,
                alike.isDirty_eq, Bool.and_eq_true, Bool.not_eq_true'] at dead
              exact ⟨dead.1.1, dead.1.2, dead.2⟩
            next => exact alike
      have form := (sound.accords hd rfl).rollback_eq
      rw [List.map_id'] at form
      have count : (r.rollback d).dirty = r.dirty := by
        have same := (Record.Alike.of_sets rfl sets).delta_eq
        have size := (sound.rollback hd).tidy.dirty_eq_size
        rw [size, tidy.dirty_eq_size, ← same, form]
        rw [Record.delta_eq, Record.delta_eq]
        rfl
      have alike := Record.Alike.of_sets count sets
      rw [form] at alike ⊢
      exact alike

end Rollback

section Suits

theorem Delta.suits_empty (type : τ) : Delta.empty.Suits type :=
  .intro nofun List.nodup_nil nofun nofun nofun

omit [Catalog τ] in
/-- What a set tells of the presence of an element is what a set of its kind can tell. -/
theorem Element.Shaped.delta {kind : SetKind} {e : Element τ}
    (h : e.Shaped kind) (id : Int) (record : Delta) :
    (⟨id, record, e.position.delta?, e.deleted.delta?⟩ : ElementDelta).Shaped kind := by
  cases kind with
  | ordered =>
      have h : e.deleted = .clean false := h
      simp [ElementDelta.Shaped, h, Tracked.delta?, Tracked.isDirty_clean]
  | unordered =>
      have h : e.position = .clean 0 := h
      simp [ElementDelta.Shaped, h, Tracked.delta?, Tracked.isDirty_clean]

/-- The delta of a sound record is one of its type. -/
theorem Record.Sound.delta_suits {r : Record τ} (h : r.Sound) : r.delta.Suits r.type := by
  induction h with
  | @intro r tidy inner ih =>
      have named : ∀ decl ∈ Catalog.sets r.type, ∀ x ∈ r.delta.sets, x.name = decl.name →
          ∃ s ∈ r.sets, s.decl = decl ∧ x.elements = s.delta := by
        intro decl hdecl x hx hname
        rw [Record.delta_eq] at hx
        obtain ⟨s, hs, hx⟩ := List.mem_filterMap.mp hx
        obtain rfl := ElementSet.delta?_eq_some hx
        refine ⟨s, hs, ?_, rfl⟩
        exact List.inj_on_of_nodup_map (nodup_set_names r.type)
          (tidy.set_decl_mem hs) hdecl hname
      refine .intro ?_ ?_ ?_ ?_ ?_
      · intro decl hdecl x hx hname
        rw [Record.delta_eq] at hx
        obtain ⟨f, hf, hx⟩ := List.mem_filterMap.mp hx
        rw [Tracked.delta?] at hx
        split at hx
        · cases hx
          have hd : f.decl = decl := List.inj_on_of_nodup_map (nodup_field_names r.type)
            (tidy.fields_decl ▸ List.mem_map_of_mem hf) hdecl hname
          exact hd ▸ (tidy.typed f hf).1
        · cases hx
      · rw [Record.delta_eq]
        apply SortedList.nodup_filterMap tidy.set_names
        intro s _ x hx
        rw [ElementSet.delta?_eq_some hx]
      · intro x hx
        rw [Record.delta_eq] at hx
        obtain ⟨s, hs, hx⟩ := List.mem_filterMap.mp hx
        obtain rfl := ElementSet.delta?_eq_some hx
        show SortedList.Sorted ElementDelta.id s.delta
        rw [ElementSet.delta_eq]
        apply (tidy.sets_tidy s hs).sorted.filterMap
        intro e _ y hy
        rw [Element.delta?] at hy
        split at hy
        · cases hy
          rfl
        · cases hy
      · intro decl hdecl x hx hname y hy
        obtain ⟨s, hs, rfl, hx⟩ := named decl hdecl x hx hname
        rw [hx] at hy
        obtain ⟨e, he, -, rfl⟩ := ElementSet.mem_delta.mp hy
        exact ((tidy.sets_tidy s hs).shaped e he).delta _ _
      · intro decl hdecl x hx hname y hy
        obtain ⟨s, hs, rfl, hx⟩ := named decl hdecl x hx hname
        rw [hx] at hy
        obtain ⟨e, he, -, rfl⟩ := ElementSet.mem_delta.mp hy
        rw [← (tidy.sets_tidy s hs).typed e he]
        dsimp only
        split
        · exact ih s hs e he
        · exact Delta.suits_empty _

end Suits

end RecordSync
