import RecordSync.Proofs.Record.Clashes
import RecordSync.Proofs.Record.Editing

/-!
# An ordered set beside a list

To the user an ordered set is a list of ids.  Its own state is another: elements by id,
present and absent ones, with positions that have gaps.  `Roster` is the plain list, to
which an id is appended, from which one is erased, and in which two exchange their places.

**Standing.**  A set stands as a list if the ids of the list are those of the elements
that have a position, and their positions rise along the list (`ElementSet.Stands`).  The
list is then the only one, so that it is what the set gives as its ids.  A new element
goes to the end because its position is above all others.

**Ids that come back.**  An id that was removed may come back to an older position than
the last one; the list keeps the removed ids to tell these edits apart.

**Results.**
* `ElementSet.Stands.ids_eq`: the list that a set stands as is the list of its ids.
* `ElementSet.Stands.edit`: an edit of the set is the edit of the list, refusals included.
* `ElementSet.Sound.swap_swap`: exchanging two elements twice changes nothing.
-/

namespace RecordSync

variable {τ : Type}

section Roster

/-- A list of ids, and the ids that were removed from it. -/
structure Roster where
  ids : List Int
  gone : List Int

namespace Roster

variable [Catalog τ]

/-- An edit of the list: a new id goes to the end, and two ids of the list exchange their
places. -/
def edit (type : τ) (l : Roster) : SetEdit → Except RecordError Roster
  | .add seed _ =>
    match seed.record type with
    | .error error => .error error
    | .ok record =>
      if record.id ∈ l.ids then .error (.duplicateElement record.id)
      else .ok { l with ids := l.ids ++ [record.id] }
  | .update id _ => if id ∈ l.ids then .ok l else .error (.unknownElement id)
  | .remove id =>
    if id ∈ l.ids then .ok ⟨l.ids.erase id, id :: l.gone⟩ else .error (.unknownElement id)
  | .swap first second =>
    if first ∉ l.ids then .error (.unknownElement first)
    else if second ∉ l.ids then .error (.unknownElement second)
    else .ok { l with ids := l.ids.map (Equiv.swap first second) }

/-- The list after an edit; one that is refused leaves it as it was. -/
def after (type : τ) (l : Roster) (edit : SetEdit) : Roster :=
  ((l.edit type edit).toOption).getD l

/-- The edit does not add an id that was removed. -/
def Allows (type : τ) (l : Roster) : SetEdit → Prop
  | .add seed _ => ∀ record, seed.record type = .ok record → record.id ∉ l.gone
  | .update _ _ | .remove _ | .swap _ _ => True

end Roster

end Roster

/-- An element is as it was when its position has been written and written back. -/
theorem Element.position_back (e : Element τ) (p : Int) :
    ({ e with position := (e.position.write p).write e.position.current } : Element τ) =
      e := by
  cases e
  rfl

namespace ElementSet

section Seats

/-- The position of the element of an id, or `absentPosition` if there is none. -/
def seat (s : ElementSet τ) (id : Int) : Int :=
  ((s.find? id).map (·.position.current)).getD absentPosition

variable {s s' : ElementSet τ} {e : Element τ} {id : Int}

theorem seat_of_find? (found : s.find? id = some e) : s.seat id = e.position.current := by
  rw [seat, found]
  rfl

theorem seat_of_mem (hs : SortedList.Sorted Element.id s.elements) (he : e ∈ s.elements) :
    s.seat e.id = e.position.current :=
  seat_of_find? (SortedList.find?_of_mem hs.nodup_keys he)

/-- The user sees exactly the elements that have a position. -/
theorem seat_ne_absent_iff (ordered : s.decl.kind = .ordered) :
    s.seat id ≠ absentPosition ↔ ∃ e, s.present? id = some e := by
  rw [seat, present?, ordered]
  cases s.find? id with
  | none => simp
  | some e => simp [Option.filter_eq_some_iff, Element.isPresent]

theorem seat_of_insert (put : s'.elements = SortedList.insert Element.id e s.elements)
    (id : Int) : s'.seat id = if id = e.id then e.position.current else s.seat id := by
  rw [seat, find?, put, SortedList.find?_insert]
  by_cases same : e.id = id
  · rw [if_pos same, if_pos same.symm]
    rfl
  · rw [if_neg same, if_neg (Ne.symm same)]
    rfl

theorem seat_of_erase {gone : Int}
    (taken : s'.elements = SortedList.erase Element.id gone s.elements) (id : Int) :
    s'.seat id = if id = gone then absentPosition else s.seat id := by
  rw [seat, find?, taken, SortedList.find?_erase]
  split
  · rfl
  · rfl

end Seats

section Stands

/-- The set is seen as the list: the ids of the list are those with a position, along the
list the positions rise, and all are below the next one.  What is held of absent elements
are the removed ids. -/
structure Stands (s : ElementSet τ) (l : Roster) : Prop where
  mem : ∀ id, id ∈ l.ids ↔ s.seat id ≠ absentPosition
  rising : l.ids.Pairwise (fun i j => s.seat i < s.seat j)
  room : absentPosition < s.nextPosition
  below : ∀ id, s.seat id < s.nextPosition
  gone : ∀ e ∈ s.elements, e.position.current = absentPosition → e.id ∈ l.gone

variable {s s' : ElementSet τ} {l : Roster}

theorem Stands.nodup_seats (h : s.Stands l) : (l.ids.map s.seat).Nodup :=
  List.pairwise_map.mpr (h.rising.imp (fun less => less.ne))

theorem Stands.nodup (h : s.Stands l) : l.ids.Nodup := .of_map s.seat h.nodup_seats

/-- Two ids with one position are one. -/
theorem Stands.eq_of_seat (h : s.Stands l) {i j : Int} (here : s.seat i ≠ absentPosition)
    (same : s.seat i = s.seat j) : i = j :=
  List.inj_on_of_nodup_map h.nodup_seats ((h.mem i).mpr here)
    ((h.mem j).mpr (same ▸ here)) same

theorem mem_ids (ordered : s.decl.kind = .ordered) (id : Int) :
    id ∈ s.ids ↔ ∃ e ∈ s.elements, e.id = id ∧ e.position.current ≠ absentPosition := by
  rw [ids, listed, ordered, List.mem_map]
  simp only [(SortedList.sortOn_perm _).mem_iff, presentElements, List.mem_filter, ordered,
    Element.isPresent, decide_eq_true_eq]
  constructor
  · rintro ⟨e, ⟨he, here⟩, rfl⟩
    exact ⟨e, he, rfl, here⟩
  · rintro ⟨e, he, rfl, here⟩
    exact ⟨e, ⟨he, here⟩, rfl⟩

theorem nodup_ids (ordered : s.decl.kind = .ordered)
    (hs : SortedList.Sorted Element.id s.elements) : s.ids.Nodup := by
  rw [ids, listed, ordered]
  refine ((SortedList.sortOn_perm _).map Element.id).nodup_iff.mpr ?_
  exact hs.nodup_keys.sublist (List.filter_sublist.map _)

theorem seat_le_along_ids (ordered : s.decl.kind = .ordered)
    (hs : SortedList.Sorted Element.id s.elements) :
    s.ids.Pairwise (fun i j => s.seat i ≤ s.seat j) := by
  rw [ids, listed, ordered, List.pairwise_map]
  refine (SortedList.pairwise_sortOn s.presentElements).imp_of_mem ?_
  intro x y hx hy le
  have held {e : Element τ}
      (he : e ∈ SortedList.sortOn (·.position.current) s.presentElements) :
      e ∈ s.elements := (List.mem_filter.mp ((SortedList.sortOn_perm _).mem_iff.mp he)).1
  rwa [seat_of_mem hs (held hx), seat_of_mem hs (held hy)]

theorem seat_ne_absent_iff_mem_ids (ordered : s.decl.kind = .ordered)
    (hs : SortedList.Sorted Element.id s.elements) (id : Int) :
    id ∈ s.ids ↔ s.seat id ≠ absentPosition := by
  rw [mem_ids ordered]
  constructor
  · rintro ⟨e, he, rfl, here⟩
    rwa [seat_of_mem hs he]
  · intro here
    obtain ⟨e, present⟩ := (seat_ne_absent_iff ordered).mp here
    obtain ⟨found, rfl, -⟩ := find?_of_present? present
    exact ⟨e, SortedList.mem_of_find? found, rfl, seat_of_find? found ▸ here⟩

/-- A set gives the list that it stands as. -/
theorem Stands.ids_eq (ordered : s.decl.kind = .ordered)
    (hs : SortedList.Sorted Element.id s.elements) (h : s.Stands l) : s.ids = l.ids := by
  have same : ∀ id, id ∈ s.ids ↔ id ∈ l.ids := fun id =>
    (seat_ne_absent_iff_mem_ids ordered hs id).trans (h.mem id).symm
  have perm : s.ids.Perm l.ids :=
    (List.perm_ext_iff_of_nodup (nodup_ids ordered hs) h.nodup).mpr same
  refine perm.eq_of_pairwise ?_ (seat_le_along_ids ordered hs)
    (h.rising.imp (fun less => less.le))
  intro i j _ hj le ge
  exact h.eq_of_seat ((le_antisymm le ge) ▸ (h.mem j).mp hj) (le_antisymm le ge)

/-- A set whose positions are distinct and in range stands as its ids. -/
theorem stands_ids (ordered : s.decl.kind = .ordered) (seated : s.Seated false)
    (ranged : s.Ranged)
    (present : ∀ e ∈ s.elements, e.position.current ≠ absentPosition) :
    s.Stands ⟨s.ids, []⟩ where
  mem := seat_ne_absent_iff_mem_ids ordered seated.sorted
  rising := by
    have sorted := seat_le_along_ids ordered seated.sorted
    have distinct : s.ids.Pairwise (· ≠ ·) := nodup_ids ordered seated.sorted
    refine (sorted.and distinct).imp_of_mem ?_
    rintro i j hi hj ⟨le, differ⟩
    obtain ⟨x, hx, rfl, here⟩ := (mem_ids ordered i).mp hi
    obtain ⟨y, hy, rfl, -⟩ := (mem_ids ordered j).mp hj
    refine lt_of_le_of_ne le (fun same => differ ?_)
    rw [seat_of_mem seated.sorted hx, seat_of_mem seated.sorted hy] at same
    exact seated.apart rfl x hx y hy here same
  room := lt_of_lt_of_le (by decide) seated.nonneg
  below := by
    intro id
    cases found : s.find? id with
    | none =>
        rw [seat, found]
        show absentPosition < s.nextPosition
        exact lt_of_lt_of_le (by decide) seated.nonneg
    | some e =>
        rw [seat_of_find? found]
        exact ranged _ ⟨e, SortedList.mem_of_find? found, .inl rfl⟩
  gone := fun e he absent => absurd absent (present e he)

/-- Nothing that the list shows moves when every element keeps its position. -/
theorem Stands.congr (h : s.Stands l) (next : s'.nextPosition = s.nextPosition)
    (seats : ∀ id, s'.seat id = s.seat id)
    (held : ∀ e' ∈ s'.elements, ∃ e ∈ s.elements, e.id = e'.id ∧
      e.position.current = e'.position.current) : s'.Stands l where
  mem := fun id => by rw [seats, h.mem]
  rising := h.rising.imp (fun less => by rwa [seats, seats])
  room := next ▸ h.room
  below := fun id => by rw [seats, next]; exact h.below id
  gone := by
    intro e' he' absent
    obtain ⟨e, he, same, current⟩ := held e' he'
    exact same ▸ h.gone e he (current.trans absent)

/-- A new element at the next position is a new id at the end. -/
theorem Stands.append (h : s.Stands l) {e : Element τ}
    (put : s'.elements = SortedList.insert Element.id e s.elements) (new : e.id ∉ l.ids)
    (here : e.position.current = s.nextPosition)
    (next : s'.nextPosition = s.nextPosition + 1) :
    s'.Stands { l with ids := l.ids ++ [e.id] } := by
  have seats := seat_of_insert put
  have others {id : Int} (hid : id ∈ l.ids) : s'.seat id = s.seat id :=
    (seats id).trans (if_neg (fun (same : id = e.id) => new (same ▸ hid)))
  have last : s'.seat e.id = s.nextPosition := by rw [seats, if_pos rfl, here]
  constructor
  · intro id
    rw [List.mem_append, List.mem_singleton, seats]
    split
    next same => simp [same, here, h.room.ne']
    next differ => simp [differ, h.mem]
  · refine List.pairwise_append.mpr ⟨?_, List.pairwise_singleton _ _, ?_⟩
    · refine h.rising.imp_of_mem ?_
      intro i j hi hj less
      rwa [others hi, others hj]
    · rintro i hi _ (_ | ⟨_, ⟨⟩⟩)
      rw [others hi, last]
      exact h.below i
  · exact next ▸ h.room.trans (Int.lt_succ _)
  · intro id
    rw [seats, next]
    split
    · exact here ▸ Int.lt_succ _
    · exact (h.below id).trans (Int.lt_succ _)
  · intro x hx absent
    rw [put] at hx
    rcases SortedList.mem_of_mem_insert hx with rfl | hx
    · exact absurd (here.symm.trans absent) h.room.ne'
    · exact h.gone x hx absent

/-- An element that loses its position is an id that is erased. -/
theorem Stands.erase (h : s.Stands l) {id : Int}
    (seats : ∀ i, s'.seat i = if i = id then absentPosition else s.seat i)
    (next : s'.nextPosition = s.nextPosition)
    (held : ∀ e ∈ s'.elements, e.id = id ∨ e ∈ s.elements) :
    s'.Stands ⟨l.ids.erase id, id :: l.gone⟩ where
  mem := by
    intro i
    rw [h.nodup.mem_erase_iff, seats]
    split
    next same => simp [same]
    next differ => simp [differ, h.mem]
  rising := by
    refine (h.rising.sublist List.erase_sublist).imp_of_mem ?_
    intro i j hi hj less
    rw [h.nodup.mem_erase_iff] at hi hj
    rwa [seats, seats, if_neg hi.1, if_neg hj.1]
  room := next ▸ h.room
  below := by
    intro i
    rw [seats, next]
    split
    · exact h.room
    · exact h.below i
  gone := by
    intro e he absent
    rcases held e he with rfl | he
    · exact List.mem_cons_self
    · exact List.mem_cons_of_mem _ (h.gone e he absent)

/-- Two elements that exchange their positions are two ids that exchange their places. -/
theorem Stands.exchange (h : s.Stands l) {a b : Int}
    (seats : ∀ i, s'.seat i = s.seat (Equiv.swap a b i))
    (next : s'.nextPosition = s.nextPosition)
    (held : ∀ e ∈ s'.elements, e.position.current = absentPosition → e ∈ s.elements) :
    s'.Stands { l with ids := l.ids.map (Equiv.swap a b) } where
  mem := by
    intro i
    rw [seats, ← h.mem, List.mem_map]
    constructor
    · rintro ⟨j, hj, rfl⟩
      rwa [Equiv.swap_apply_self]
    · intro hi
      exact ⟨_, hi, Equiv.swap_apply_self a b i⟩
  rising := by
    rw [List.pairwise_map]
    refine h.rising.imp (fun less => ?_)
    rwa [seats, seats, Equiv.swap_apply_self, Equiv.swap_apply_self]
  room := next ▸ h.room
  below := fun i => by rw [seats, next]; exact h.below _
  gone := fun e he absent => h.gone e (held e he absent) absent

end Stands

section Edits

variable {s : ElementSet τ} {l : Roster}

/-- The element of an id after two others exchanged their positions. -/
theorem find?_exchange (s : ElementSet τ) (a b : Element τ) (i : Int) :
    ((s.move a b.position.current).move b a.position.current).find? i =
      if b.id = i then some { b with position := b.position.write a.position.current }
      else if a.id = i then some { a with position := a.position.write b.position.current }
      else s.find? i :=
  (SortedList.find?_insert _ _ _ _).trans
    (if_congr Iff.rfl rfl (SortedList.find?_insert _ _ _ _))

theorem mem_of_mem_exchange {a b x : Element τ}
    (hx : x ∈ ((s.move a b.position.current).move b a.position.current).elements) :
    x.position.current = a.position.current ∨ x.position.current = b.position.current ∨
      x ∈ s.elements := by
  rcases SortedList.mem_of_mem_insert hx with rfl | hx
  · exact .inl rfl
  · rcases SortedList.mem_of_mem_insert hx with rfl | hx
    · exact .inr (.inl rfl)
    · exact .inr (.inr hx)

/-- Two elements that the user sees exchange their places in the list. -/
theorem Stands.swapped (ordered : s.decl.kind = .ordered) (h : s.Stands l)
    {first second : Int} {a b : Element τ} (ha : s.present? first = some a)
    (hb : s.present? second = some b) : (s.swapElements first second).1.Stands
      { l with ids := l.ids.map (Equiv.swap first second) } := by
  obtain ⟨founda, rfl, herea⟩ := find?_of_present? ha
  obtain ⟨foundb, rfl, hereb⟩ := find?_of_present? hb
  rw [ElementSet.swapElements, if_neg (not_not.mpr ordered), ha, hb]
  dsimp only
  split
  next same =>
    refine h.exchange ?_ rfl (fun _ he _ => he)
    intro i
    rw [same, Equiv.swap_self, Equiv.refl_apply]
  next differ =>
    refine h.exchange ?_ rfl ?_
    · intro i
      rw [seat, find?_exchange]
      split
      next eq =>
        rw [← eq, Equiv.swap_apply_right, seat_of_find? founda]
        rfl
      next notb =>
        split
        next eq =>
          rw [← eq, Equiv.swap_apply_left, seat_of_find? foundb]
          rfl
        next nota =>
          rw [Equiv.swap_apply_of_ne_of_ne (Ne.symm nota) (Ne.symm notb)]
          rfl
    · intro x hx absent
      rw [ordered] at herea hereb
      rcases mem_of_mem_exchange hx with current | current | hx
      · simp [Element.isPresent, ← current, absent] at herea
      · simp [Element.isPresent, ← current, absent] at hereb
      · exact hx

theorem Stands.mem_iff_present (ordered : s.decl.kind = .ordered) (h : s.Stands l)
    (id : Int) : id ∈ l.ids ↔ ∃ e, s.present? id = some e :=
  (h.mem id).trans (seat_ne_absent_iff ordered)

theorem Stands.not_mem_of_absent (ordered : s.decl.kind = .ordered)
    (h : s.Stands l) {id : Int} (absent : s.present? id = none) : id ∉ l.ids := by
  rw [h.mem_iff_present ordered, absent]
  simp

/-- A record is not added only if the user sees an element of its id. -/
theorem present_of_open?_error {record : Record τ} {error : RecordError}
    (h : s.open? record = .error error) :
    error = .duplicateElement record.id ∧ ∃ e, s.present? record.id = some e := by
  rw [open?] at h
  cases found : s.find? record.id with
  | none => simp [found] at h
  | some e =>
      simp only [found] at h
      split at h
      next here =>
        refine ⟨(Except.error.inj h).symm, e, ?_⟩
        rw [present?, found]
        exact (Option.filter_some_pos here)
      next => cases h

variable [Catalog τ]

/-- The set takes an edit as the list does. -/
structure Mirrors (s : ElementSet τ) (l : Roster) (edit : SetEdit) : Prop where
  stands : (s.edit edit).1.Stands (l.after s.decl.element edit)
  refused_iff : ∀ error,
    (s.edit edit).2.2 = .refused error ↔ l.edit s.decl.element edit = .error error
  kept : ∀ error, (s.edit edit).2.2 = .refused error → (s.edit edit).1 = s

theorem Mirrors.of_refused {edit : SetEdit} (error : RecordError) (h : s.Stands l)
    (here : s.edit edit = (s, none, .refused error))
    (there : l.edit s.decl.element edit = .error error) : s.Mirrors l edit where
  stands := by
    rw [here, Roster.after, there]
    exact h
  refused_iff := by
    intro other
    rw [here, there]
    simp
  kept := fun _ _ => by rw [here]

theorem Mirrors.of_taken {edit : SetEdit} (l' : Roster)
    (stands : (s.edit edit).1.Stands l') (there : l.edit s.decl.element edit = .ok l')
    (here : ∀ error, (s.edit edit).2.2 ≠ .refused error) : s.Mirrors l edit where
  stands := by
    rw [Roster.after, there]
    exact stands
  refused_iff := by
    intro error
    rw [there]
    simp [here error]
  kept := fun error refused => absurd refused (here error)

theorem Stands.add (ordered : s.decl.kind = .ordered) (h : s.Stands l) {seed : Seed}
    {edits : List Edit} (allowed : l.Allows s.decl.element (.add seed edits)) :
    s.Mirrors l (.add seed edits) := by
  cases made : seed.record s.decl.element with
  | error error =>
      refine .of_refused error h ?_ ?_
      · simp [ElementSet.edit, made, Except.bind]
      · simp [Roster.edit, made]
  | ok record =>
      cases opens : s.open? record with
      | error error =>
          obtain ⟨rfl, present⟩ := present_of_open?_error opens
          have mem := (h.mem_iff_present ordered record.id).mpr present
          refine .of_refused (.duplicateElement record.id) h ?_ ?_
          · simp [ElementSet.edit, made, Except.bind, opens]
          · simp [Roster.edit, made, mem]
      | ok result =>
          obtain ⟨opened, e, was⟩ := result
          obtain ⟨hid, decl, elements, absent, place⟩ := placement_of_open? ordered opens
          have new := h.not_mem_of_absent ordered absent
          have edited : s.edit (.add seed edits) =
              ((opened.close was true { e with record := (e.record.editAll edits).1 }).1,
                (opened.close was true { e with record := (e.record.editAll edits).1 }).2,
                .edited (e.record.editAll edits).1.id (e.record.editAll edits).1.dirty
                  ((e.record.editAll edits).2.map (·.2))) := by
            simp [ElementSet.edit, made, Except.bind, opens]
          have id : Element.id { e with record := (e.record.editAll edits).1 } =
            record.id :=
            (e.record.editAll_id edits).trans hid
          refine .of_taken { l with ids := l.ids ++ [record.id] } ?_ ?_ ?_
          · rw [edited, ← id]
            cases place with
            | allotted next current =>
                refine h.append ?_ (id ▸ new) current next
                rw [← elements]
                rfl
            | @restored old found gone =>
                -- the list has the old element among the removed ones
                have held := h.gone old (SortedList.mem_of_find? found) gone
                rw [SortedList.key_of_find? found] at held
                exact absurd held (allowed record made)
          · simp [Roster.edit, made, new]
          · intro error
            rw [edited]
            simp

theorem Stands.update (ordered : s.decl.kind = .ordered) (h : s.Stands l) (id : Int)
    (edits : List Edit) : s.Mirrors l (.update id edits) := by
  cases present : s.present? id with
  | none =>
      have new := h.not_mem_of_absent ordered present
      refine .of_refused (.unknownElement id) h ?_ ?_
      · simp [ElementSet.edit, present]
      · simp [Roster.edit, new]
  | some e =>
      have mem := (h.mem_iff_present ordered id).mpr ⟨e, present⟩
      obtain ⟨found, rfl, -⟩ := find?_of_present? present
      have same : Element.id { e with record := (e.record.editAll edits).1 } = e.id :=
        e.record.editAll_id edits
      refine .of_taken l ?_ ?_ ?_
      · refine h.congr ?_ ?_ ?_
        · simp [ElementSet.edit, present, close, insert]
        · intro i
          have put : (s.edit (.update e.id edits)).1.elements =
              SortedList.insert Element.id
              { e with record := (e.record.editAll edits).1 } s.elements := by
            simp [ElementSet.edit, present, close, insert]
          rw [seat_of_insert put, same]
          split
          next eq => rw [eq, seat_of_find? found]
          next => rfl
        · intro x hx
          simp only [ElementSet.edit, present, close, insert] at hx
          rcases SortedList.mem_of_mem_insert hx with rfl | hx
          · exact ⟨e, SortedList.mem_of_find? found, same.symm, rfl⟩
          · exact ⟨x, hx, rfl, rfl⟩
      · simp [Roster.edit, mem]
      · intro error
        simp [ElementSet.edit, present]

theorem Stands.remove (ordered : s.decl.kind = .ordered) (h : s.Stands l) (id : Int) :
    s.Mirrors l (.remove id) := by
  cases present : s.present? id with
  | none =>
      have new := h.not_mem_of_absent ordered present
      refine .of_refused (.unknownElement id) h ?_ ?_
      · simp [ElementSet.edit, removeElement, present]
      · simp [Roster.edit, new]
  | some e =>
      have mem := (h.mem_iff_present ordered id).mpr ⟨e, present⟩
      obtain ⟨found, rfl, -⟩ := find?_of_present? present
      have absent : (e.markAbsent s.decl.kind).position.current = absentPosition := by
        rw [ordered]
        rfl
      have same : (e.markAbsent s.decl.kind).id = e.id := by
        rw [ordered]
        rfl
      refine .of_taken ⟨l.ids.erase e.id, e.id :: l.gone⟩ ?_ ?_ ?_
      · rw [ElementSet.edit, removeElement, present]
        dsimp only
        split
        · refine h.erase (seat_of_erase rfl) rfl ?_
          intro x hx
          exact .inr (SortedList.mem_erase.mp hx).1
        · refine h.erase ?_ rfl ?_
          · intro i
            rw [seat_of_insert (s := s) (e := e.markAbsent s.decl.kind) rfl, same, absent]
          · intro x hx
            rcases SortedList.mem_of_mem_insert hx with rfl | hx
            · exact .inl same
            · exact .inr hx
      · simp [Roster.edit, mem]
      · intro error
        simp [ElementSet.edit, removeElement, present]

theorem Stands.swap (ordered : s.decl.kind = .ordered) (h : s.Stands l)
    (first second : Int) : s.Mirrors l (.swap first second) := by
  cases ha : s.present? first with
  | none =>
      have new := h.not_mem_of_absent ordered ha
      refine .of_refused (.unknownElement first) h ?_ ?_
      · simp [ElementSet.edit, swapElements, ordered, ha]
      · simp [Roster.edit, new]
  | some a =>
      have mema := (h.mem_iff_present ordered first).mpr ⟨a, ha⟩
      cases hb : s.present? second with
      | none =>
          have new := h.not_mem_of_absent ordered hb
          refine .of_refused (.unknownElement second) h ?_ ?_
          · simp [ElementSet.edit, swapElements, ordered, ha, hb]
          · simp [Roster.edit, mema, new]
      | some b =>
          have memb := (h.mem_iff_present ordered second).mpr ⟨b, hb⟩
          refine .of_taken { l with ids := l.ids.map (Equiv.swap first second) } ?_ ?_ ?_
          · rw [ElementSet.edit]
            exact h.swapped ordered ha hb
          · simp [Roster.edit, mema, memb]
          · intro error
            rw [ElementSet.edit, swapElements, if_neg (not_not.mpr ordered), ha, hb]
            dsimp only
            split <;> simp

/-- An edit of the set is the edit of the list. -/
theorem Stands.edit (ordered : s.decl.kind = .ordered) (h : s.Stands l) {edit : SetEdit}
    (allowed : l.Allows s.decl.element edit) : s.Mirrors l edit := by
  cases edit with
  | add seed edits => exact h.add ordered allowed
  | update id edits => exact h.update ordered id edits
  | remove id => exact h.remove ordered id
  | swap first second => exact h.swap ordered first second

omit [Catalog τ] in
/-- An exchange does nothing, or two elements that the user sees take each other's
position. -/
theorem swapElements_cases (s : ElementSet τ) (first second : Int) :
    (s.swapElements first second).1 = s ∨
      ∃ a b, s.decl.kind = .ordered ∧ s.present? first = some a ∧
      s.present? second = some b ∧
        first ≠ second ∧ (s.swapElements first second).1 =
          (s.move a b.position.current).move b a.position.current := by
  rw [ElementSet.swapElements]
  split
  next => exact .inl rfl
  next ordered =>
    split
    next => exact .inl rfl
    next => exact .inl rfl
    next a b ha hb =>
      split
      next => exact .inl rfl
      next differ => exact .inr ⟨a, b, not_not.mp ordered, ha, hb, differ, rfl⟩

omit [Catalog τ] in
theorem swapElements_next (s : ElementSet τ) (first second : Int) :
    (s.swapElements first second).1.nextPosition = s.nextPosition := by
  rcases s.swapElements_cases first second with same | ⟨a, b, -, -, -, -, exchanged⟩
  · rw [same]
  · rw [exchanged]
    rfl

omit [Catalog τ] in
/-- Two elements that exchange their positions once more have the ones that they had. -/
theorem exchange_exchange (ordered : s.decl.kind = .ordered) {a b : Element τ}
    (ha : s.present? a.id = some a) (hb : s.present? b.id = some b)
    (differ : a.id ≠ b.id) (i : Int) :
    ((((s.move a b.position.current).move b a.position.current).swapElements a.id
      b.id).1).find? i = s.find? i := by
  obtain ⟨founda, -, herea⟩ := find?_of_present? ha
  obtain ⟨foundb, -, hereb⟩ := find?_of_present? hb
  have find := find?_exchange s a b
  -- each of the two is seen on the position of the other
  have seena : ((s.move a b.position.current).move b a.position.current).present? a.id =
      some { a with position := a.position.write b.position.current } := by
    refine present?_eq_some.mpr ⟨by rw [find, if_neg differ.symm, if_pos rfl], ?_⟩
    rw [ordered] at hereb
    show Element.isPresent s.decl.kind _ = true
    rw [ordered]
    exact hereb
  have seenb : ((s.move a b.position.current).move b a.position.current).present? b.id =
      some { b with position := b.position.write a.position.current } := by
    refine present?_eq_some.mpr ⟨by rw [find, if_pos rfl], ?_⟩
    rw [ordered] at herea
    show Element.isPresent s.decl.kind _ = true
    rw [ordered]
    exact herea
  have kind : ((s.move a b.position.current).move b a.position.current).decl.kind =
      .ordered :=
    ordered
  rw [ElementSet.swapElements, if_neg (not_not.mpr kind), seena, seenb]
  dsimp only
  rw [if_neg differ]
  refine (find?_exchange _ { a with position := a.position.write b.position.current }
    { b with position := b.position.write a.position.current } i).trans ?_
  rw [find]
  split
  next same =>
    obtain rfl : b.id = i := same
    exact (congrArg some (b.position_back a.position.current)).trans foundb.symm
  next notb =>
    split
    next same =>
      obtain rfl : a.id = i := same
      exact (congrArg some (a.position_back b.position.current)).trans founda.symm
    next nota => exact (if_neg notb).trans (if_neg nota)

/-- Exchanging two elements twice changes nothing. -/
theorem Sound.swap_swap (h : s.Sound) (first second : Int) :
    ((s.edit (.swap first second)).1.edit (.swap first second)).1 = s := by
  rw [ElementSet.edit, ElementSet.edit]
  have once := (h.swapElements first second).1
  have again := (once.sound.swapElements first second).1
  rcases s.swapElements_cases first second with same |
    ⟨a, b, ordered, ha, hb, differ, exchanged⟩
  · rw [same, same]
  · obtain ⟨-, rfl, -⟩ := find?_of_present? ha
    obtain ⟨-, rfl, -⟩ := find?_of_present? hb
    have elements : ((s.swapElements a.id b.id).1.swapElements a.id b.id).1.elements =
        s.elements := by
      refine SortedList.ext_find? again.sound.tidy.sorted h.tidy.sorted (fun i => ?_)
      rw [exchanged]
      exact exchange_exchange ordered ha hb differ i
    have decl := again.decl_eq.trans once.decl_eq
    have dirty : ((s.swapElements a.id b.id).1.swapElements a.id b.id).1.dirty =
        s.dirty := by
      rw [again.sound.tidy.counted, h.tidy.counted, dirtyElements, dirtyElements,
        elements, decl]
    have next : ((s.swapElements a.id b.id).1.swapElements a.id b.id).1.nextPosition =
        s.nextPosition := by
      rw [swapElements_next, swapElements_next]
    generalize ((s.swapElements a.id b.id).1.swapElements a.id b.id).1 =
      t at decl elements dirty next
    obtain ⟨_, _, _, _⟩ := t
    obtain rfl : _ = s.decl := decl
    cases s
    simp_all

end Edits

end ElementSet

end RecordSync
