import RecordSync.Proofs.Record.Loading
import RecordSync.Proofs.Record.Trunk
import RecordSync.Record.Edit

/-!
# Local edits

An edit moves what the user sees and the counts with it.  It keeps a record sound, and it
keeps its trunk: no baseline moves, and no element goes of which the server may know.

**Counts.**  The counts are moved one at a time, each by the transition of the part that
was edited.  `adjust_add`, `Notice.enclose_add` and `Tracked.writeTransition_add` say that
each rule keeps a count exact.

**Notices.**  A set tells of an edit by the move of its count, and is as before if it
tells nothing.  A record that tells nothing is as before.

**Results.**
* `Record.Sound.edit` and `Record.Sound.editAll`: what edits keep, and what silence means.
* `ElementSet.Tidy.edit`: the same for the edits of a set.
-/

namespace RecordSync

variable {τ : Type}

section Counts

theorem adjust_add {count : Nat} {was is : Bool} (h : was = true → 0 < count) :
    adjust count was is + was.toNat = count + is.toNat := by
  cases was <;> cases is <;> simp [adjust]
  have := h rfl
  omega

/-- The count of a record is exact after one of its sets told of a move. -/
theorem Notice.enclose_add {parent before after : Nat} (h : 0 < before → 0 < parent) :
    (Notice.enclose parent (.ofMove before after)).dirty + (decide (0 < before)).toNat =
      parent + (decide (0 < after)).toNat := by
  have dirty : (Notice.ofMove before after).dirty = after := rfl
  have change : (Notice.ofMove before after).change = (after : Int) - before := rfl
  rw [Notice.enclose, dirty, change]
  by_cases b : 0 < before <;> by_cases a : 0 < after
  · rw [if_neg (by omega), if_neg (by omega)]
    simp [a, b]
  · rw [if_pos (by omega)]
    have := h b
    simp [a, b]
    omega
  · rw [if_neg (by omega), if_pos (by omega)]
    simp [a, b]
  · rw [if_neg (by omega), if_neg (by omega)]
    simp [a, b]

/-- The count of a record is exact after one of its fields was written. -/
theorem Tracked.writeTransition_add {α : Type} [DecidableEq α] {t : Tracked α} {x : α}
    {count : Nat} (h : t.isDirty = true → 0 < count) :
    dirtyAfter count ((t.writeTransition x).notice? count) + t.isDirty.toNat =
      count + (t.write x).isDirty.toNat := by
  rw [Tracked.writeTransition]
  split
  next same =>
    have : t.write x = t := by
      obtain ⟨remote, current⟩ := t
      exact congrArg _ same.symm
    rw [this]
    rfl
  next =>
    cases was : t.isDirty <;> cases is : (t.write x).isDirty <;>
      simp [Transition.between, Transition.notice?, dirtyAfter]
    have := h was
    omega

/-- Writing is not told of exactly when the content is the same. -/
theorem Tracked.writeTransition_silent {α : Type} [DecidableEq α] {t : Tracked α} {x : α}
    {count : Nat} (h : (t.writeTransition x).notice? count = none) : t.write x = t := by
  obtain ⟨remote, current⟩ := t
  rw [Tracked.writeTransition] at h
  split at h
  next same => exact congrArg _ same.symm
  next differ =>
    cases was : Tracked.isDirty ⟨remote, current⟩ <;>
      cases is : (Tracked.write ⟨remote, current⟩ x).isDirty <;>
      simp [was, is, Transition.between, Transition.notice?] at h
    have was := Tracked.isDirty_eq_false.mp was
    have is := Tracked.isDirty_eq_false.mp is
    exact absurd (was.trans is.symm) differ

end Counts

section Presence

theorem Element.Shaped.markAbsent {kind : SetKind} {e : Element τ} (h : e.Shaped kind) :
    (e.markAbsent kind).Shaped kind := by
  cases kind <;> exact h

theorem Element.Shaped.reinstate {kind : SetKind} {e : Element τ} (h : e.Shaped kind)
    (position : Int) : (e.reinstate kind position).Shaped kind := by
  cases kind <;> exact h

theorem Element.Shaped.fresh (kind : SetKind) (record : Record τ) (position : Int) :
    (Element.fresh kind record position).Shaped kind := by
  cases kind <;> rfl

theorem Element.record_fresh (kind : SetKind) (record : Record τ) (position : Int) :
    (Element.fresh kind record position).record = record := by
  cases kind <;> rfl

/-- A new element is not one that the server may know. -/
theorem Element.trunk?_fresh (kind : SetKind) (record : Record τ) (position : Int) :
    (Element.fresh kind record position).trunk? kind = none := by
  cases kind <;> rfl

/-- An element of which the user edits the record or the presence is the same to the
server. -/
theorem Element.trunk?_congr {kind : SetKind} {e e' : Element τ}
    (position : e'.position.remote = e.position.remote)
    (deleted : e'.deleted.remote = e.deleted.remote) (sent : e'.sent = e.sent)
    (record : e'.record.trunk = e.record.trunk) : e'.trunk? kind = e.trunk? kind := by
  cases kind <;>
    simp [Element.trunk?, Element.isRemotePresent, position, deleted, sent, record]

theorem Element.trunk?_markAbsent {kind : SetKind} (e : Element τ) :
    (e.markAbsent kind).trunk? kind = e.trunk? kind := by
  cases kind <;> exact Element.trunk?_congr rfl rfl rfl rfl

theorem Element.trunk?_reinstate {kind : SetKind} (e : Element τ) (position : Int) :
    (e.reinstate kind position).trunk? kind = e.trunk? kind := by
  cases kind <;> exact Element.trunk?_congr rfl rfl rfl rfl

theorem Element.record_markAbsent (kind : SetKind) (e : Element τ) :
    (e.markAbsent kind).record = e.record := by
  cases kind <;> rfl

theorem Element.record_reinstate (kind : SetKind) (e : Element τ) (position : Int) :
    (e.reinstate kind position).record = e.record := by
  cases kind <;> rfl

end Presence

variable [Catalog τ]

/-- A record is what became of another one by local edits. -/
structure Record.Evolves (r r' : Record τ) : Prop where
  sound : r'.Sound
  type_eq : r'.type = r.type
  id_eq : r'.id = r.id
  trunk_eq : r'.trunk = r.trunk

theorem Record.Sound.evolves {r : Record τ} (h : r.Sound) : r.Evolves r :=
  ⟨h, rfl, rfl, rfl⟩

theorem Record.Evolves.trans {r r' r'' : Record τ} (h : r.Evolves r')
    (h' : r'.Evolves r'') : r.Evolves r'' :=
  ⟨h'.sound, h'.type_eq.trans h.type_eq, h'.id_eq.trans h.id_eq, h'.trunk_eq.trans h.trunk_eq⟩

theorem Record.Evolves.remote_eq {r r' : Record τ} (h : r.Evolves r') (sound : r.Sound) :
    r'.remoteMessage = r.remoteMessage := by
  rw [← h.sound.remote_trunk, h.trunk_eq, sound.remote_trunk]

/-- A set is sound when it is tidy and all its records are sound. -/
structure ElementSet.Sound (s : ElementSet τ) : Prop where
  tidy : s.Tidy
  nested : ∀ e ∈ s.elements, e.record.Sound

/-- A set is what became of another one by local edits. -/
structure ElementSet.Evolves (s s' : ElementSet τ) : Prop where
  sound : s'.Sound
  decl_eq : s'.decl = s.decl
  trunk_eq : s'.trunk = s.trunk

/-- The notice of an edit of a set says how the count of the set moved; silence says that
nothing changed. -/
inductive ElementSet.Told (s s' : ElementSet τ) : Option Notice → Prop
  | silent : s' = s → Told s s' none
  | moved : Told s s' (some (.ofMove s.dirty s'.dirty))

section Sets

variable {s : ElementSet τ}

theorem ElementSet.Sound.evolves (h : s.Sound) : s.Evolves s := ⟨h, rfl, rfl⟩

theorem ElementSet.Evolves.trans {s' s'' : ElementSet τ} (h : s.Evolves s')
    (h' : s'.Evolves s'') : s.Evolves s'' :=
  ⟨h'.sound, h'.decl_eq.trans h.decl_eq, h'.trunk_eq.trans h.trunk_eq⟩

omit [Catalog τ] in
/-- A set with a dirty element counts it. -/
theorem ElementSet.Tidy.dirty_pos (h : s.Tidy) {id : Int}
    (dirty : (s.find? id).any (·.isDirty s.decl.kind) = true) : 0 < s.dirty := by
  cases found : s.find? id with
  | none =>
      rw [found] at dirty
      cases dirty
  | some e =>
      rw [found] at dirty
      rw [h.counted, ElementSet.dirtyElements, List.countP_pos_iff]
      exact ⟨e, SortedList.mem_of_find? found, dirty⟩

/-- A set stays sound when an element is put in that is for the server what was there, and
the count is kept exact. -/
theorem ElementSet.Sound.put (h : s.Sound) {e : Element τ}
    (typed : e.record.type = s.decl.element) (shaped : e.Shaped s.decl.kind)
    (sound : e.record.Sound)
    (trunk : e.trunk? s.decl.kind = (s.find? e.id).bind (Element.trunk? s.decl.kind))
    {count : Nat} (exact : count + ((s.find? e.id).any (·.isDirty s.decl.kind)).toNat =
      s.dirty + (e.isDirty s.decl.kind).toNat) (next : Int) :
    s.Evolves ⟨s.decl, SortedList.insert Element.id e s.elements, count, next⟩ where
  sound := {
    tidy := {
      sorted := h.tidy.sorted.insert e
      counted := by
        have counted := SortedList.countP_insert (x := e) (·.isDirty s.decl.kind) h.tidy.sorted
        have before := h.tidy.counted
        rw [ElementSet.dirtyElements] at before ⊢
        rw [ElementSet.find?] at exact
        dsimp only
        omega
      typed := by
        intro y hy
        rcases (SortedList.mem_insert h.tidy.sorted).mp hy with rfl | ⟨hy, -⟩
        · exact typed
        · exact h.tidy.typed y hy
      shaped := by
        intro y hy
        rcases (SortedList.mem_insert h.tidy.sorted).mp hy with rfl | ⟨hy, -⟩
        · exact shaped
        · exact h.tidy.shaped y hy }
    nested := by
      intro y hy
      rcases (SortedList.mem_insert h.tidy.sorted).mp hy with rfl | ⟨hy, -⟩
      · exact sound
      · exact h.nested y hy }
  decl_eq := rfl
  trunk_eq := by
    rw [ElementSet.trunk, ElementSet.trunk]
    congr 1
    exact SortedList.filterMap_insert h.tidy.sorted trunk

/-- A set stays sound when an element goes of which the server cannot know, and the count
is kept exact. -/
theorem ElementSet.Sound.drop (h : s.Sound) {id : Int}
    (unknown : (s.find? id).bind (Element.trunk? s.decl.kind) = none) {count : Nat}
    (exact : count + ((s.find? id).any (·.isDirty s.decl.kind)).toNat = s.dirty)
    (next : Int) :
    s.Evolves ⟨s.decl, SortedList.erase Element.id id s.elements, count, next⟩ where
  sound := {
    tidy := {
      sorted := h.tidy.sorted.erase id
      counted := by
        have counted := SortedList.countP_erase (k := id) (·.isDirty s.decl.kind) h.tidy.sorted
        have before := h.tidy.counted
        rw [ElementSet.dirtyElements] at before ⊢
        rw [ElementSet.find?] at exact
        dsimp only
        omega
      typed := fun y hy => h.tidy.typed y (SortedList.mem_erase.mp hy).1
      shaped := fun y hy => h.tidy.shaped y (SortedList.mem_erase.mp hy).1 }
    nested := fun y hy => h.nested y (SortedList.mem_erase.mp hy).1 }
  decl_eq := rfl
  trunk_eq := by
    rw [ElementSet.trunk, ElementSet.trunk]
    congr 1
    exact SortedList.filterMap_erase h.tidy.sorted unknown

/-- An element that is about to be edited: to the server it is what the set holds under
its id. -/
structure ElementSet.Opened (s : ElementSet τ) (e : Element τ) (was : Bool) : Prop where
  typed : e.record.type = s.decl.element
  shaped : e.Shaped s.decl.kind
  sound : e.record.Sound
  trunk : e.trunk? s.decl.kind = (s.find? e.id).bind (Element.trunk? s.decl.kind)
  was_eq : was = (s.find? e.id).any (·.isDirty s.decl.kind)

theorem ElementSet.Opened.dirty_pos {e : Element τ} {was : Bool}
    (ho : s.Opened e was) (h : s.Tidy) (dirty : was = true) : 0 < s.dirty := by
  rw [ho.was_eq] at dirty
  exact h.dirty_pos dirty

theorem ElementSet.Sound.opened (h : s.Sound) {id : Int} {e : Element τ}
    (found : s.find? id = some e) : s.Opened e (e.isDirty s.decl.kind) := by
  have he := SortedList.mem_of_find? found
  have hid : s.find? e.id = some e := by
    have : e.id = id := SortedList.key_of_find? found
    rw [this, found]
  exact ⟨h.tidy.typed e he, h.tidy.shaped e he, h.nested e he,
    by rw [hid]; rfl, by rw [hid]; rfl⟩

/-- An added record is a new element, or the old one that comes back. -/
theorem ElementSet.Sound.open? (h : s.Sound) {record : Record τ} (sound : record.Sound)
    (typed : record.type = s.decl.element) {s' : ElementSet τ} {e : Element τ}
    {was : Bool} (ho : s.open? record = .ok (s', e, was)) :
    s.Opened e was ∧ s'.decl = s.decl ∧ s'.elements = s.elements ∧
      s'.dirty = s.dirty := by
  rw [ElementSet.open?] at ho
  cases found : s.find? record.id with
  | none =>
      have new (position : Int) :
          s.Opened (.fresh s.decl.kind record position) false := by
        have id : (Element.fresh s.decl.kind record position).id = record.id := by
          rw [Element.id, Element.record_fresh]
        refine ⟨?_, Element.Shaped.fresh _ _ _, ?_, ?_, ?_⟩
        · rw [Element.record_fresh, typed]
        · rw [Element.record_fresh]
          exact sound
        · rw [id, found, Element.trunk?_fresh]
          rfl
        · rw [id, found]
          rfl
      rw [found] at ho
      cases hk : s.decl.kind with
      | ordered =>
          simp only [hk] at ho
          cases ho
          exact ⟨hk ▸ new s.nextPosition, rfl, rfl, rfl⟩
      | unordered =>
          simp only [hk] at ho
          cases ho
          exact ⟨hk ▸ new 0, rfl, rfl, rfl⟩
  | some old =>
      simp only [found] at ho
      split at ho
      next => cases ho
      next =>
        cases ho
        have known := h.opened found
        have id : (old.reinstate s.decl.kind s.nextPosition).id = old.id := by
          rw [Element.id, Element.record_reinstate]
          rfl
        refine ⟨⟨?_, known.shaped.reinstate _, ?_, ?_, ?_⟩, rfl, rfl, rfl⟩
        · rw [Element.record_reinstate]
          exact known.typed
        · rw [Element.record_reinstate]
          exact known.sound
        · rw [Element.trunk?_reinstate, id]
          exact known.trunk
        · rw [id]
          exact known.was_eq

/-- A set stays sound when an opened element is edited and put back, and it tells of that
unless nothing is to be announced and the count is as before. -/
theorem ElementSet.Opened.close {opened : ElementSet τ} {e : Element τ} {was : Bool}
    (ho : s.Opened e was) (h : s.Sound)
    (same : opened.decl = s.decl ∧ opened.elements = s.elements ∧ opened.dirty = s.dirty)
    {record : Record τ} (evolves : e.record.Evolves record) (announce : Bool)
    (silent : announce = false →
      (opened.close was announce { e with record := record }).1.dirty = s.dirty →
      (opened.close was announce { e with record := record }).1 = s) :
    s.Evolves (opened.close was announce { e with record := record }).1 ∧
      s.Told (opened.close was announce { e with record := record }).1
        (opened.close was announce { e with record := record }).2 := by
  obtain ⟨decl, elements, dirty, next⟩ := opened
  obtain ⟨rfl, rfl, rfl⟩ := same
  have id : ({ e with record := record } : Element τ).id = e.id := evolves.id_eq
  have trunk : ({ e with record := record } : Element τ).trunk? s.decl.kind =
    e.trunk? s.decl.kind :=
    Element.trunk?_congr rfl rfl rfl evolves.trunk_eq
  have counted := ho.dirty_pos h.tidy
  constructor
  · refine h.put (evolves.type_eq.trans ho.typed) ?_ evolves.sound ?_ ?_ next
    · have shaped := ho.shaped
      revert shaped
      cases s.decl.kind <;> exact fun shaped => shaped
    · rw [trunk, id]
      exact ho.trunk
    · rw [id, ← ho.was_eq]
      exact adjust_add counted
  · simp only [ElementSet.close] at silent ⊢
    split
    next => exact .moved
    next told =>
      simp only [Bool.or_eq_true, bne_iff_ne, ne_eq, not_or, Bool.not_eq_true, not_not] at told
      exact .silent (silent told.1 told.2)

omit [Catalog τ] in
/-- Putting back an element as it was changes nothing but the count. -/
theorem ElementSet.Tidy.close_same (h : s.Tidy) {id : Int} {e : Element τ}
    (found : s.find? id = some e) {was announce : Bool}
    (count : (s.close was announce e).1.dirty = s.dirty) :
    (s.close was announce e).1 = s := by
  have hid : e.id = id := SortedList.key_of_find? found
  have kept : SortedList.insert Element.id e s.elements = s.elements :=
    SortedList.insert_self h.sorted (hid.symm ▸ found)
  obtain ⟨decl, elements, dirty, next⟩ := s
  simp only [ElementSet.close, ElementSet.insert] at count ⊢
  rw [count, kept]

omit [Catalog τ] in
theorem ElementSet.present?_eq_some {id : Int} {e : Element τ} :
    s.present? id = some e ↔ s.find? id = some e ∧ e.isPresent s.decl.kind = true := by
  rw [ElementSet.present?, Option.filter_eq_some_iff]

theorem ElementSet.Sound.removeElement (h : s.Sound) (id : Int) :
    s.Evolves (s.removeElement id).1 ∧
      s.Told (s.removeElement id).1 (s.removeElement id).2.1 := by
  rw [ElementSet.removeElement]
  cases present : s.present? id with
  | none => exact ⟨h.evolves, .silent rfl⟩
  | some e =>
      obtain ⟨found, -⟩ := ElementSet.present?_eq_some.mp present
      have ho := h.opened found
      have hid : e.id = id := SortedList.key_of_find? found
      have counted := ho.dirty_pos h.tidy
      refine ⟨?_, .moved⟩
      dsimp only
      split
      next gone =>
        simp only [Bool.and_eq_true, Bool.not_eq_true'] at gone
        refine h.drop ?_ ?_ s.nextPosition
        · rw [found, Option.bind_some, Element.trunk?, gone.1, gone.2]
          rfl
        · rw [found]
          exact adjust_add counted
      next =>
        have id : (e.markAbsent s.decl.kind).id = e.id := by
          rw [Element.id, Element.record_markAbsent]
          rfl
        refine h.put ?_ ho.shaped.markAbsent ?_ ?_ ?_ s.nextPosition
        · rw [Element.record_markAbsent]
          exact ho.typed
        · rw [Element.record_markAbsent]
          exact ho.sound
        · rw [Element.trunk?_markAbsent, id]
          exact ho.trunk
        · rw [id, ← ho.was_eq]
          exact adjust_add counted

omit [Catalog τ] in
/-- Moving an element does not touch the others. -/
theorem ElementSet.find?_move {id other : Int} {e : Element τ}
    (found : s.find? id = some e) (differ : id ≠ other) (position : Int) :
    (s.move e position).find? other = s.find? other := by
  have hid : e.id = id := SortedList.key_of_find? found
  exact (SortedList.find?_insert _ _ _ _).trans (if_neg (by rwa [← hid] at differ))

theorem ElementSet.Sound.move (h : s.Sound) (ordered : s.decl.kind = .ordered) {id : Int}
    {e : Element τ} (found : s.find? id = some e) (position : Int) :
    s.Evolves (s.move e position) := by
  have ho := h.opened found
  have counted := ho.dirty_pos h.tidy
  have shaped :
      Element.Shaped s.decl.kind { e with position := e.position.write position } := by
    have shaped := ho.shaped
    rw [ordered] at shaped ⊢
    exact shaped
  have trunk : Element.trunk? s.decl.kind { e with position := e.position.write position } =
      e.trunk? s.decl.kind := Element.trunk?_congr rfl rfl rfl rfl
  have was : (s.find? e.id).any (·.isDirty s.decl.kind) = e.isDirty s.decl.kind :=
    ho.was_eq.symm
  refine h.put (e := { e with position := e.position.write position }) ho.typed shaped ho.sound
    (trunk.trans ho.trunk) ?_ s.nextPosition
  have id : Element.id { e with position := e.position.write position } = e.id := rfl
  rw [id, was]
  exact adjust_add counted

theorem ElementSet.Sound.swapElements (h : s.Sound) (first second : Int) :
    s.Evolves (s.swapElements first second).1 ∧
      s.Told (s.swapElements first second).1 (s.swapElements first second).2.1 := by
  rw [ElementSet.swapElements]
  split
  next => exact ⟨h.evolves, .silent rfl⟩
  next ordered =>
    have ordered : s.decl.kind = .ordered := by simpa using ordered
    split
    next => exact ⟨h.evolves, .silent rfl⟩
    next => exact ⟨h.evolves, .silent rfl⟩
    next a b ha hb =>
      obtain ⟨ha, -⟩ := ElementSet.present?_eq_some.mp ha
      obtain ⟨hb, -⟩ := ElementSet.present?_eq_some.mp hb
      split
      next => exact ⟨h.evolves, .silent rfl⟩
      next differ =>
        have moved := h.move ordered ha b.position.current
        have hb' := (ElementSet.find?_move ha differ b.position.current).trans hb
        exact ⟨moved.trans (moved.sound.move ordered hb' a.position.current), .moved⟩

end Sets

section Parts

variable {r : Record τ}

/-- A record stays sound when a field is given another content and the count is kept
exact. -/
theorem Record.Sound.putField (h : r.Sound) {f g : Field} (hf : f ∈ r.fields)
    (decl : g.decl = f.decl) (typed : g.Typed) (remote : g.value.remote = f.value.remote)
    {count : Nat} (exact : count + f.isDirty.toNat = r.dirty + g.isDirty.toNat) :
    r.Evolves { r with
      dirty := count,
      fields := SortedList.modify Field.name f.name (fun _ => g) r.fields } := by
  have names := h.tidy.field_names
  have found := SortedList.find?_of_mem names hf
  refine ⟨.intro ⟨?_, h.tidy.sets_decl, ?_, ?_, h.tidy.sets_tidy⟩ ?_, rfl, rfl, ?_⟩
  · exact (SortedList.map_modify names found decl).trans h.tidy.fields_decl
  · intro x hx
    obtain ⟨x', hx', rfl⟩ := List.mem_map.mp hx
    split
    · exact typed
    · exact h.tidy.typed x' hx'
  · have counted := SortedList.countP_modify (y := g) Field.isDirty names found
    have before := h.tidy.counted
    rw [Record.dirtyParts] at before ⊢
    dsimp only
    omega
  · intro s hs e he
    exact h.nested hs he
  · have trunk : g.trunk = f.trunk := by rw [Field.trunk, Field.trunk, decl, remote]
    rw [Record.trunk_eq, Record.trunk_eq]
    congr 1
    exact SortedList.map_modify names found trunk

/-- A record stays sound when a set evolves and the count is kept exact. -/
theorem Record.Sound.putSet (h : r.Sound) {s s' : ElementSet τ} (hs : s ∈ r.sets)
    (evolves : s.Evolves s') {count : Nat}
    (exact : count + s.isDirty.toNat = r.dirty + s'.isDirty.toNat) :
    r.Evolves { r with
      dirty := count,
      sets := SortedList.modify ElementSet.name s.name (fun _ => s') r.sets } := by
  have names := h.tidy.set_names
  have found := SortedList.find?_of_mem names hs
  refine ⟨.intro ⟨h.tidy.fields_decl, ?_, h.tidy.typed, ?_, ?_⟩ ?_, rfl, rfl, ?_⟩
  · exact (SortedList.map_modify names found evolves.decl_eq).trans h.tidy.sets_decl
  · have counted := SortedList.countP_modify (y := s') ElementSet.isDirty names found
    have before := h.tidy.counted
    rw [Record.dirtyParts] at before ⊢
    dsimp only
    omega
  · intro x hx
    rcases SortedList.eq_or_mem_of_mem_modify hx with rfl | hx
    · exact evolves.sound.tidy
    · exact h.set hx
  · intro x hx
    rcases SortedList.eq_or_mem_of_mem_modify hx with rfl | hx
    · exact evolves.sound.nested
    · intro e he
      exact h.nested hx he
  · rw [Record.trunk_eq, Record.trunk_eq]
    congr 1
    exact SortedList.map_modify names found evolves.trunk_eq

theorem Record.Tidy.dirty_pos_of_field (h : r.Tidy) {f : Field} (hf : f ∈ r.fields)
    (dirty : f.isDirty = true) : 0 < r.dirty := by
  rw [h.counted, Record.dirtyParts]
  exact Nat.add_pos_left (List.countP_pos_iff.mpr ⟨f, hf, dirty⟩) _

theorem Record.Tidy.dirty_pos_of_set (h : r.Tidy) {s : ElementSet τ} (hs : s ∈ r.sets)
    (dirty : s.isDirty = true) : 0 < r.dirty := by
  rw [h.counted, Record.dirtyParts]
  exact Nat.add_pos_right _ (List.countP_pos_iff.mpr ⟨s, hs, dirty⟩)

/-- What writing a field keeps, and that silence means that nothing changed. -/
theorem Record.Sound.writeField (h : r.Sound) (field : String) (value : Value) :
    r.Evolves (r.writeField field value).1 ∧
      ((r.writeField field value).2.1 = none → (r.writeField field value).1 = r) := by
  rw [Record.writeField]
  cases found : SortedList.find? Field.name field r.fields with
  | none => exact ⟨h.evolves, fun _ => rfl⟩
  | some f =>
      have hf := SortedList.mem_of_find? found
      obtain rfl : f.name = field := SortedList.key_of_find? found
      dsimp only
      split
      next holds =>
        have exact :=
          Tracked.writeTransition_add (x := value) (h.tidy.dirty_pos_of_field hf)
        refine ⟨h.putField (g := { f with value := f.value.write value }) hf rfl
          ⟨holds, (h.tidy.typed f hf).2⟩ rfl exact, ?_⟩
        intro silent
        have silent : (f.value.writeTransition value).notice? r.dirty = none := silent
        have same := Tracked.writeTransition_silent silent
        dsimp only
        rw [silent, same, SortedList.modify_self h.tidy.field_names found]
        cases r
        rfl
      next => exact ⟨h.evolves, fun _ => rfl⟩

/-- What an edit of one of a record's sets keeps of the record. -/
theorem Record.Sound.afterSetEdit (h : r.Sound) {s s' : ElementSet τ} (hs : s ∈ r.sets)
    (evolves : s.Evolves s') {notice : Option Notice} (told : s.Told s' notice)
    (result : SetOutcome) :
    r.Evolves (r.afterSetEdit s' notice result).1 ∧
      ((r.afterSetEdit s' notice result).2.1 = none →
        (r.afterSetEdit s' notice result).1 = r) := by
  have name : s'.name = s.name := congrArg SetDecl.name evolves.decl_eq
  have exact : dirtyAfter r.dirty (notice.map (Notice.enclose r.dirty)) + s.isDirty.toNat =
      r.dirty + s'.isDirty.toNat := by
    cases told with
    | silent same =>
        rw [same]
        rfl
    | moved =>
        refine Notice.enclose_add (fun dirty => h.tidy.dirty_pos_of_set hs ?_)
        simpa [ElementSet.isDirty] using dirty
  rw [Record.afterSetEdit, Record.withSet, name]
  refine ⟨h.putSet hs evolves exact, ?_⟩
  intro silent
  cases told with
  | silent same =>
      dsimp only
      rw [same, SortedList.modify_self h.tidy.set_names
        (SortedList.find?_of_mem h.tidy.set_names hs)]
      cases r
      rfl
  | moved => cases silent

end Parts

section Edits

/-- A seed gives a record that is sound and clean. -/
theorem Seed.made {type : τ} {seed : Seed} {record : Record τ}
    (h : seed.record type = .ok record) : record.Made type := by
  cases seed with
  | blank id =>
      cases h
      exact Record.blank_sound type id
  | message content => exact Record.made_of_ofMessage content type record h

mutual

/-- What an edit keeps of a record, and that silence means that nothing changed. -/
theorem Record.Sound.edit {r : Record τ} (h : r.Sound) : (edit : Edit) →
    r.Evolves (r.edit edit).1 ∧ ((r.edit edit).2.1 = none → (r.edit edit).1 = r)
  | .write field value => by
      rw [Record.edit]
      exact h.writeField field value
  | .within set edit => by
      rw [Record.edit]
      cases found : r.set? set with
      | none => exact ⟨h.evolves, fun _ => rfl⟩
      | some s =>
          have hs := SortedList.mem_of_find? found
          obtain ⟨evolves, told⟩ :=
            ElementSet.Sound.edit ⟨h.set hs, fun e he => h.nested hs he⟩ edit
          exact h.afterSetEdit hs evolves told _

theorem Record.Sound.editAll {r : Record τ} (h : r.Sound) : (edits : List Edit) →
    r.Evolves (r.editAll edits).1 ∧
      ((r.editAll edits).2.any (·.1.isSome) = false → (r.editAll edits).1 = r)
  | [] => by
      rw [Record.editAll]
      exact ⟨h.evolves, fun _ => rfl⟩
  | edit :: rest => by
      obtain ⟨evolves, unchanged⟩ := Record.Sound.edit h edit
      obtain ⟨evolves', unchanged'⟩ := Record.Sound.editAll evolves.sound rest
      rw [Record.editAll]
      refine ⟨evolves.trans evolves', ?_⟩
      intro silent
      simp only [List.any_cons, Bool.or_eq_false_iff, Option.isSome_eq_false_iff,
        Option.isNone_iff_eq_none] at silent
      exact (unchanged' silent.2).trans (unchanged silent.1)

/-- What an edit keeps of a set, and what it tells. -/
theorem ElementSet.Sound.edit {s : ElementSet τ} (h : s.Sound) : (edit : SetEdit) →
    s.Evolves (s.edit edit).1 ∧ s.Told (s.edit edit).1 (s.edit edit).2.1
  | .add seed edits => by
      rw [ElementSet.edit]
      cases opened : (seed.record s.decl.element).bind s.open? with
      | error e => exact ⟨h.evolves, .silent rfl⟩
      | ok result =>
          obtain ⟨s', e, was⟩ := result
          cases made : seed.record s.decl.element with
          | error e => simp [made, Except.bind] at opened
          | ok record =>
              simp only [made, Except.bind] at opened
              have made := Seed.made made
              obtain ⟨ho, same⟩ := h.open? made.sound made.type_eq opened
              obtain ⟨evolves, -⟩ := Record.Sound.editAll ho.sound edits
              exact ho.close h same evolves true nofun
  | .update id edits => by
      rw [ElementSet.edit]
      cases present : s.present? id with
      | none => exact ⟨h.evolves, .silent rfl⟩
      | some e =>
          obtain ⟨found, -⟩ := ElementSet.present?_eq_some.mp present
          have ho := h.opened found
          obtain ⟨evolves, unchanged⟩ := Record.Sound.editAll ho.sound edits
          refine ho.close h ⟨rfl, rfl, rfl⟩ evolves _ (fun announced count => ?_)
          have kept : ({ e with record := (e.record.editAll edits).1 } : Element τ) =
            e := by
            rw [unchanged announced]
            cases e
            rfl
          rw [kept] at count ⊢
          exact h.tidy.close_same found count
  | .remove id => by
      rw [ElementSet.edit]
      exact h.removeElement id
  | .swap first second => by
      rw [ElementSet.edit]
      exact h.swapElements first second

end

end Edits

end RecordSync
