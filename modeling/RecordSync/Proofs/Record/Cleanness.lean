import RecordSync.Proofs.Record.Views

/-!
# Clean records

A sound record is clean exactly when it has nothing to tell, and exactly when the user
sees what the baseline has.

**Results.**
* `Record.Tidy.dirty_eq_size`: the count of dirty parts is the size of the delta.
* `ElementSet.Tidy.dirty_eq_length`: the count of dirty elements is the size of the set's
  delta.
* `Record.Sound.clean_iff`: a record is clean iff its two whole messages are equal.
-/

namespace RecordSync

variable {τ : Type}

section Messages

/-- The fields of a message tell the value that is given for each name. -/
theorem messageFields_inj {β : Type} {l : List β} {name : β → String} {f g : β → Value}
    (hl : (l.map name).Nodup)
    (h : messageFields (l.map (fun x => (name x, f x))) =
      messageFields (l.map (fun x => (name x, g x)))) :
    ∀ x ∈ l, f x = g x := by
  intro x hx
  have keys (v : β → Value) : (l.map (fun x => (name x, v x))).map Prod.fst =
      l.map name := by
    rw [List.map_map]
    rfl
  have found (v : β → Value) : SortedList.find? Prod.fst (name x)
      (messageFields (l.map (fun x => (name x, v x)))) = some (name x, v x) := by
    rw [messageFields, SortedList.find?_ofList ((keys v).symm ▸ hl)]
    show SortedList.find? Prod.fst (Prod.fst (name x, v x)) _ = _
    exact SortedList.find?_of_mem ((keys v).symm ▸ hl) (List.mem_map_of_mem hx)
  have same := found f
  rw [h, found g] at same
  exact (Prod.mk.inj (Option.some.inj same)).2.symm

/-- The groups of a message tell the members that are given for each name. -/
theorem messageGroups_inj {β : Type} {l : List β} {name : β → String}
    {f g : β → List Message} (hl : (l.map name).Nodup)
    (h : messageGroups (l.map (fun x => ⟨name x, f x⟩)) =
      messageGroups (l.map (fun x => ⟨name x, g x⟩))) :
    ∀ x ∈ l, f x = g x := by
  intro x hx
  have keys (v : β → List Message) :
      ((l.map (fun x => (⟨name x, v x⟩ : Group))).map Group.name).Nodup := by
    rw [List.map_map]
    exact hl
  have found (v : β → List Message) : SortedList.find? Group.name (name x)
      (messageGroups (l.map (fun x => ⟨name x, v x⟩))) =
        if v x = [] then none else some ⟨name x, v x⟩ := by
    rw [messageGroups, SortedList.find?_ofList ((keys v).sublist (List.filter_sublist.map _)),
      SortedList.find?_filter (keys v),
      SortedList.find?_of_mem (x := (⟨name x, v x⟩ : Group)) (keys v) (List.mem_map_of_mem hx)]
    cases v x <;> simp [Option.filter]
  have same := found f
  rw [h, found g] at same
  split at same <;> split at same <;> simp_all

/-- The message of an element with the position that its set shows. -/
def placed (kind : SetKind) (x : Int × Message) : Message :=
  match kind with
  | .ordered => x.2.withPosition x.1
  | .unordered => x.2

theorem placedMessages_eq (kind : SetKind) (l : List (Int × Message)) :
    placedMessages kind l = (SortedList.sortOn Prod.fst l).map (placed kind) := rfl

theorem mem_placedMessages {kind : SetKind} {l : List (Int × Message)} {m : Message} :
    m ∈ placedMessages kind l ↔ ∃ x ∈ l, placed kind x = m := by
  rw [placedMessages_eq, List.mem_map]
  simp only [(SortedList.sortOn_perm l).mem_iff]

theorem placed_id (kind : SetKind) (x : Int × Message) : (placed kind x).id = x.2.id := by
  cases kind <;> rfl

end Messages

section Counts

theorem Element.delta?_isSome {kind : SetKind} (e : Element τ) :
    (e.delta? kind).isSome = e.isDirty kind := by
  rw [Element.delta?]
  split <;> simp_all

theorem ElementSet.length_delta (s : ElementSet τ) :
    s.delta.length = s.dirtyElements := by
  rw [ElementSet.delta_eq, List.length_filterMap_eq_countP]
  exact List.countP_congr (fun e _ => by rw [Element.delta?_isSome])

/-- The count of dirty elements is the size of the set's delta. -/
theorem ElementSet.Tidy.dirty_eq_length {s : ElementSet τ} (h : s.Tidy) :
    s.dirty = s.delta.length := by
  rw [s.length_delta, h.counted]

theorem ElementSet.Tidy.isDirty_iff {s : ElementSet τ} (h : s.Tidy) :
    s.isDirty = true ↔ s.delta ≠ [] := by
  rw [ElementSet.isDirty, h.dirty_eq_length]
  simp [List.length_pos_iff]

/-- No element of a clean set has something to tell. -/
theorem ElementSet.Tidy.clean_iff {s : ElementSet τ} (h : s.Tidy) :
    s.dirty = 0 ↔ ∀ e ∈ s.elements, e.isDirty s.decl.kind = false := by
  rw [h.counted, ElementSet.dirtyElements, List.countP_eq_zero]
  simp

theorem length_fieldDeltas (fields : List Field) :
    (fieldDeltas fields).length = fields.countP Field.isDirty := by
  rw [fieldDeltas, List.length_filterMap_eq_countP]
  apply List.countP_congr
  intro f _
  cases h : f.value.isDirty <;> simp [Field.isDirty, Tracked.delta?, h]

variable [Catalog τ]

/-- The count of dirty parts is the size of the delta. -/
theorem Record.Tidy.dirty_eq_size {r : Record τ} (h : r.Tidy) :
    r.dirty = r.delta.size := by
  rw [h.counted, Record.dirtyParts, Record.delta_eq, Delta.size, length_fieldDeltas,
    List.length_filterMap_eq_countP]
  congr 1
  apply List.countP_congr
  intro s hs
  have := (h.sets_tidy s hs).isDirty_iff
  rw [ElementSet.delta?]
  split <;> simp_all

theorem Record.Tidy.clean_iff_parts {r : Record τ} (h : r.Tidy) :
    r.dirty = 0 ↔
      (∀ f ∈ r.fields, f.value.current = f.value.remote) ∧ ∀ s ∈ r.sets, s.dirty = 0 := by
  rw [h.counted, Record.dirtyParts, Nat.add_eq_zero_iff, List.countP_eq_zero,
    List.countP_eq_zero]
  simp [Field.isDirty, Tracked.isDirty_eq_false, ElementSet.isDirty]

end Counts

section Equality

@[simp] theorem Record.localMessage_id (r : Record τ) : r.localMessage.id = r.id := by
  rw [Record.localMessage_eq]

@[simp] theorem Record.remoteMessage_id (r : Record τ) : r.remoteMessage.id = r.id := by
  rw [Record.remoteMessage_eq]

theorem Record.localMessage_position (r : Record τ) : r.localMessage.position = none := by
  rw [Record.localMessage_eq]

theorem Record.remoteMessage_position (r : Record τ) :
    r.remoteMessage.position = none := by
  rw [Record.remoteMessage_eq]

/-- Two placed messages of records without positions of their own agree in both parts. -/
theorem placed_inj {kind : SetKind} {p q : Int} {m n : Message} (hm : m.position = none)
    (hn : n.position = none) (h : placed kind (p, m) = placed kind (q, n)) :
    m = n ∧ (kind = .ordered → p = q) := by
  cases kind with
  | ordered =>
      obtain ⟨i, f, c, pos, swap, del⟩ := m
      obtain ⟨i', f', c', pos', swap', del'⟩ := n
      simp_all [placed, Message.withPosition]
  | unordered => exact ⟨h, nofun⟩

theorem Element.local?_eq_remote? {kind : SetKind} {e : Element τ}
    (shaped : e.Shaped kind) (clean : e.isDirty kind = false)
    (same : e.record.dirty = 0 → e.record.localMessage = e.record.remoteMessage) :
    e.local? kind = e.remote? kind := by
  obtain ⟨presence, record⟩ := Element.isDirty_eq_false.mp clean
  have position : seenPosition kind e.position = e.position.remote := by
    cases kind with
    | ordered => exact (Element.isPresenceDirty_eq_false.mp presence).1
    | unordered =>
        have shaped : e.position = .clean 0 := shaped
        rw [shaped]
        rfl
  rw [Element.local?, Element.remote?, Element.isPresent_eq_of_clean presence, position]
  split
  next there => rw [same (record (Element.isPresent_eq_of_clean presence ▸ there))]
  next => rfl

/-- Two views of the elements of a set that show the same messages show the same of each
element. -/
theorem ElementSet.Tidy.shown_of_same {s : ElementSet τ} (h : s.Tidy) {kind : SetKind}
    {f g : Element τ → Option (Int × Message)}
    (hf : ∀ e x, f e = some x → x.2.id = e.id) (hg : ∀ e x, g e = some x → x.2.id = e.id)
    (same : placedMessages kind (s.elements.filterMap f) =
      placedMessages kind (s.elements.filterMap g))
    {e : Element τ} (he : e ∈ s.elements) {x : Int × Message} (hx : f e = some x) :
    ∃ y, g e = some y ∧ placed kind y = placed kind x := by
  have shown : placed kind x ∈ placedMessages kind (s.elements.filterMap f) :=
    mem_placedMessages.mpr ⟨x, List.mem_filterMap.mpr ⟨e, he, hx⟩, rfl⟩
  rw [same, mem_placedMessages] at shown
  obtain ⟨y, hy, shown⟩ := shown
  obtain ⟨e', he', hy⟩ := List.mem_filterMap.mp hy
  have hid : e'.id = e.id := by
    have := congrArg Message.id shown
    rwa [placed_id, placed_id, hf e x hx, hg e' y hy] at this
  obtain rfl := h.sorted.eq_of_key he' he hid
  exact ⟨y, hy, shown⟩

theorem Element.id_of_local? {kind : SetKind} (e : Element τ) (x : Int × Message)
    (h : e.local? kind = some x) : x.2.id = e.id := by
  rw [Element.local?] at h
  split at h
  · obtain rfl := Option.some.inj h
    exact e.record.localMessage_id
  · cases h

theorem Element.id_of_remote? {kind : SetKind} (e : Element τ) (x : Int × Message)
    (h : e.remote? kind = some x) : x.2.id = e.id := by
  rw [Element.remote?] at h
  split at h
  · obtain rfl := Option.some.inj h
    exact e.record.remoteMessage_id
  · cases h

/-- If both sides of a set show the same messages, each element has a clean presence and,
if the user sees it, shows the same message on both sides. -/
theorem ElementSet.Tidy.agree_of_messages {s : ElementSet τ} (h : s.Tidy)
    (same : s.localMessages = s.remoteMessages) {e : Element τ} (he : e ∈ s.elements) :
    e.isPresenceDirty = false ∧
      (e.isPresent s.decl.kind = true → e.record.localMessage = e.record.remoteMessage) := by
  rw [ElementSet.localMessages_eq, ElementSet.remoteMessages_eq] at same
  have shaped := h.shaped e he
  by_cases p : e.isPresent s.decl.kind = true
  · have here : e.local? s.decl.kind =
        some (seenPosition s.decl.kind e.position, e.record.localMessage) := if_pos p
    obtain ⟨y, hy, shown⟩ :=
      h.shown_of_same Element.id_of_local? Element.id_of_remote? same he here
    rw [Element.remote?] at hy
    split at hy
    next there =>
      obtain rfl := Option.some.inj hy
      obtain ⟨message, moved⟩ :=
        placed_inj (Record.remoteMessage_position _) (Record.localMessage_position _) shown
      refine ⟨?_, fun _ => message.symm⟩
      rw [Element.isPresenceDirty_eq_false]
      cases hk : s.decl.kind with
      | ordered =>
          rw [hk] at shaped moved
          have shaped : e.deleted = .clean false := shaped
          exact ⟨(moved rfl).symm, by rw [shaped]; rfl⟩
      | unordered =>
          rw [hk] at shaped p there
          have shaped : e.position = .clean 0 := shaped
          refine ⟨by rw [shaped]; rfl, ?_⟩
          simp_all [Element.isPresent, Element.isRemotePresent]
    next => cases hy
  · have absent : e.isRemotePresent s.decl.kind = false := by
      by_contra q
      have there : e.remote? s.decl.kind =
          some (e.position.remote, e.record.remoteMessage) :=
        if_pos (by simpa using q)
      obtain ⟨y, hy, -⟩ :=
        h.shown_of_same Element.id_of_remote? Element.id_of_local? same.symm he there
      rw [Element.local?, if_neg p] at hy
      cases hy
    exact ⟨shaped.clean_of_absent (by simpa using p) absent, fun q => absurd q p⟩

variable [Catalog τ]

/-- The user sees in a clean record what the baseline has. -/
theorem Record.Sound.localMessage_of_clean {r : Record τ} (h : r.Sound)
    (clean : r.dirty = 0) : r.localMessage = r.remoteMessage := by
  induction h with
  | @intro r tidy inner ih =>
      obtain ⟨fields, sets⟩ := tidy.clean_iff_parts.mp clean
      have values : r.fields.map (fun f => (f.name, f.value.current)) =
          r.fields.map (fun f => (f.name, f.value.remote)) :=
        List.map_congr_left (fun f hf => by rw [fields f hf])
      have groups : r.sets.map (fun s => (⟨s.name, s.localMessages⟩ : Group)) =
          r.sets.map (fun s => ⟨s.name, s.remoteMessages⟩) := by
        apply List.map_congr_left
        intro s hs
        have st := tidy.sets_tidy s hs
        have elements := st.clean_iff.mp (sets s hs)
        rw [ElementSet.localMessages_eq, ElementSet.remoteMessages_eq]
        congr 2
        apply List.filterMap_congr
        intro e he
        exact Element.local?_eq_remote? (st.shaped e he) (elements e he) (ih s hs e he)
      rw [Record.localMessage_eq, Record.remoteMessage_eq, values, groups]

/-- A record is clean iff the user sees what the baseline has. -/
theorem Record.Sound.clean_iff {r : Record τ} (h : r.Sound) :
    r.dirty = 0 ↔ r.localMessage = r.remoteMessage := by
  refine ⟨h.localMessage_of_clean, ?_⟩
  induction h with
  | @intro r tidy inner ih =>
      intro same
      rw [Record.localMessage_eq, Record.remoteMessage_eq] at same
      obtain ⟨-, fields, groups, -⟩ := Message.mk.inj same
      refine tidy.clean_iff_parts.mpr ⟨messageFields_inj tidy.field_names fields, ?_⟩
      intro s hs
      have st := tidy.sets_tidy s hs
      rw [st.clean_iff]
      intro e he
      have agree := st.agree_of_messages (messageGroups_inj tidy.set_names groups s hs) he
      exact Element.isDirty_eq_false.mpr ⟨agree.1, fun p => ih s hs e he (agree.2 p)⟩

end Equality

end RecordSync
