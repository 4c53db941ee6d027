import Mathlib.Logic.Equiv.Basic
import RecordSync.Proofs.Record.Attempts
import RecordSync.Proofs.Record.Loading
import RecordSync.Record.Edit

/-!
# Positions in ordered sets

An ordered set gives its elements positions.  They move in four ways: a new element takes
the next position, an exchange hands two of them over, a removal takes an element off its
position, and an element that comes back returns to the position of its baseline.

**Clashes.**  `ElementSet.clashes` says that an edit puts an element on a position that is
taken.  Only adding can: the other edits hand positions over or free them.

**Results.**
* `ElementSet.Reseats`: what an operation does to the positions of a set.
* `ElementSet.reseats_edit`, `ElementSet.reseats_commit`, `ElementSet.reseats_rollback`,
  `ElementSet.reseats_markSent`: this, for each operation.
* `ElementSet.Seated.load`: the positions of a set that was loaded.
-/

namespace RecordSync

variable {τ : Type}

section Ids

theorem Record.commit_id {r r' : Record τ} {d : Delta} (h : r.commit d = .ok r') :
    r'.id = r.id := by
  obtain ⟨fields, sets⟩ := d
  rw [Record.commit] at h
  cases check : r.checkCommit ⟨fields, sets⟩ with
  | error e => simp [check, bind, Except.bind] at h
  | ok _ =>
      cases own : commitSets r.sets sets with
      | error e => simp [check, own, bind, Except.bind] at h
      | ok own' =>
          simp only [check, own, bind, Except.bind, Except.ok.injEq] at h
          rw [← h]
          rfl

variable [Catalog τ]

theorem Record.edit_id (r : Record τ) (edit : Edit) : (r.edit edit).1.id = r.id := by
  cases edit with
  | write field value =>
      rw [Record.edit, Record.writeField]
      split
      · rfl
      · split <;> rfl
  | within set edit =>
      rw [Record.edit]
      split <;> rfl

theorem Record.editAll_id (r : Record τ) (edits : List Edit) :
    (r.editAll edits).1.id = r.id := by
  induction edits generalizing r with
  | nil => rw [Record.editAll]
  | cons edit rest ih =>
      rw [Record.editAll]
      exact (ih _).trans (r.edit_id edit)

end Ids

namespace ElementSet

/-- The positions of the elements that the user sees, in the order of their ids. -/
def positions (s : ElementSet τ) : List Int := s.presentElements.map (·.position.current)

/-- An element of the set has the position on one of its sides. -/
def Uses (s : ElementSet τ) (p : Int) : Prop :=
  ∃ e ∈ s.elements, p = e.position.current ∨ p = e.position.remote

/-- No two elements stand on one position. -/
def Apart (s : ElementSet τ) : Prop :=
  ∀ x ∈ s.elements, ∀ y ∈ s.elements, x.position.current ≠ absentPosition →
    x.position.current = y.position.current → x.id = y.id

/-- An edit puts an element on a position on which the user sees another one. -/
def clashes [Catalog τ] (s : ElementSet τ) : SetEdit → Bool
  | .add seed _ =>
    match (seed.record s.decl.element).bind s.open? with
    | .error _ => false
    | .ok (_, e, _) => s.decl.kind == .ordered && s.positions.contains e.position.current
  | .update _ _ | .remove _ | .swap _ _ => false

/-- The positions of a set become those of another one: it uses no others but the `given`
ones, and elements that stood apart still do, if nothing `clashes`. -/
structure Reseats (given : Int → Prop) (clashes : Bool) (s s' : ElementSet τ) : Prop where
  decl_eq : s'.decl = s.decl
  sorted : SortedList.Sorted Element.id s'.elements
  next_le : s.nextPosition ≤ s'.nextPosition
  uses : ∀ p, s'.Uses p → s.Uses p ∨ given p
  apart : clashes = false → s.Apart → s'.Apart

/-- A set whose elements have positions, distinct ones unless an edit clashed. -/
structure Seated (clashed : Bool) (s : ElementSet τ) : Prop where
  sorted : SortedList.Sorted Element.id s.elements
  nonneg : 0 ≤ s.nextPosition
  above : ∀ p, s.Uses p → absentPosition ≤ p
  apart : clashed = false → s.Apart

/-- Every position that is in use was given out by the set. -/
def Ranged (s : ElementSet τ) : Prop := ∀ p, s.Uses p → p < s.nextPosition

section Basics

variable {s s' : ElementSet τ} {clashed : Bool}

theorem mem_positions (ordered : s.decl.kind = .ordered) {p : Int} :
    p ∈ s.positions ↔ p ≠ absentPosition ∧ ∃ e ∈ s.elements, e.position.current = p := by
  simp only [positions, presentElements, List.mem_map, List.mem_filter, ordered,
    Element.isPresent, decide_eq_true_eq]
  constructor
  · rintro ⟨e, ⟨he, present⟩, rfl⟩
    exact ⟨present, e, he, rfl⟩
  · rintro ⟨present, e, he, rfl⟩
    exact ⟨e, ⟨he, present⟩, rfl⟩

/-- Elements stand apart iff the positions that the user sees are distinct. -/
theorem nodup_positions_iff (ordered : s.decl.kind = .ordered)
    (hs : SortedList.Sorted Element.id s.elements) : s.positions.Nodup ↔ s.Apart := by
  have present (e : Element τ) : e.isPresent s.decl.kind = true ↔
      e.position.current ≠ absentPosition := by
    rw [ordered, Element.isPresent, decide_eq_true_iff]
  have unique : s.presentElements.Nodup := List.Nodup.filter _ hs.nodup_keys.of_map
  constructor
  · intro distinct x hx y hy here same
    refine congrArg Element.id (List.inj_on_of_nodup_map distinct ?_ ?_ same)
    · exact List.mem_filter.mpr ⟨hx, (present x).mpr here⟩
    · exact List.mem_filter.mpr ⟨hy, (present y).mpr (same ▸ here)⟩
  · intro apart
    refine unique.map_on ?_
    intro x hx y hy same
    obtain ⟨hx, here⟩ := List.mem_filter.mp hx
    exact hs.eq_of_key hx (List.mem_filter.mp hy).1
      (apart x hx y (List.mem_filter.mp hy).1 ((present x).mp here) same)

/-- Elements stand apart if each that is present has the position of one that stood
apart. -/
theorem Apart.of_sources (h : s.Apart) {source : Int → Int} (inj : source.Injective)
    (sources : ∀ e' ∈ s'.elements, e'.position.current ≠ absentPosition →
      ∃ e ∈ s.elements, e.id = source e'.id ∧ e.position.current = e'.position.current) :
    s'.Apart := by
  intro x' hx' y' hy' here same
  obtain ⟨x, hx, hxid, hxp⟩ := sources x' hx' here
  obtain ⟨y, hy, hyid, hyp⟩ := sources y' hy' (same ▸ here)
  have id := h x hx y hy (hxp ▸ here) (hxp.trans (same.trans hyp.symm))
  exact inj (hxid.symm.trans (id.trans hyid))

theorem Reseats.recount {given : Int → Prop} {clash : Bool}
    (h : s.Reseats given clash s') : s.Reseats given clash s'.recount :=
  ⟨h.decl_eq, h.sorted, h.next_le, h.uses, h.apart⟩

theorem Reseats.refl (hs : SortedList.Sorted Element.id s.elements) (given : Int → Prop)
    (clash : Bool) : s.Reseats given clash s :=
  ⟨rfl, hs, le_rfl, fun _ used => .inl used, fun _ apart => apart⟩

theorem Seated.reseats {given : Int → Prop} {clash : Bool} (h : s.Seated clashed)
    (moved : s.Reseats given clash s') (above : ∀ p, given p → absentPosition ≤ p) :
    s'.Seated (clashed || clash) where
  sorted := moved.sorted
  nonneg := h.nonneg.trans moved.next_le
  above := fun p used => (moved.uses p used).elim (h.above p) (above p)
  apart := by
    intro free
    obtain ⟨before, now⟩ := Bool.or_eq_false_iff.mp free
    exact moved.apart now (h.apart before)

theorem Ranged.reseats {given : Int → Prop} {clash : Bool} (h : s.Ranged)
    (moved : s.Reseats given clash s') (below : ∀ p, given p → p < s'.nextPosition) :
    s'.Ranged :=
  fun p used => (moved.uses p used).elim (fun used => (h p used).trans_le moved.next_le)
    (below p)

end Basics

section Edits

variable {s : ElementSet τ}

/-- What an edit may give out: no position, or the next one. -/
def Allots (s s' : ElementSet τ) (p : Int) : Prop :=
  p = absentPosition ∨ p = s.nextPosition ∧ s.nextPosition < s'.nextPosition

/-- The position at which a record is added to an ordered set. -/
inductive Placement (s : ElementSet τ) (id : Int) (opened : ElementSet τ)
    (e : Element τ) : Prop
  /-- It is the next one. -/
  | allotted : opened.nextPosition = s.nextPosition + 1 →
      e.position.current = s.nextPosition →
      e.position.remote = absentPosition → Placement s id opened e
  /-- It is the one that the baseline has for an element that was removed. -/
  | restored {old : Element τ} : s.find? id = some old →
      old.position.current = absentPosition →
      old.position.remote ≠ absentPosition → opened.nextPosition = s.nextPosition →
      e.position = .clean old.position.remote → Placement s id opened e

theorem placement_of_open? (ordered : s.decl.kind = .ordered) {record : Record τ}
    {opened : ElementSet τ} {e : Element τ} {was : Bool}
    (h : s.open? record = .ok (opened, e, was)) :
    e.id = record.id ∧ opened.decl = s.decl ∧ opened.elements = s.elements ∧
      s.present? record.id = none ∧ s.Placement record.id opened e := by
  rw [ElementSet.open?] at h
  cases found : s.find? record.id with
  | none =>
      simp only [found, ordered] at h
      cases h
      refine ⟨rfl, rfl, rfl, ?_, .allotted rfl rfl rfl⟩
      rw [ElementSet.present?, found]
      rfl
  | some old =>
      have hid : old.id = record.id := SortedList.key_of_find? found
      simp only [found, ordered] at h
      split at h
      next => cases h
      next gone =>
        have absent : old.position.current = absentPosition := by
          simpa [Element.isPresent] using gone
        have unseen : s.present? record.id = none := by
          rw [ElementSet.present?, found, ordered]
          simpa [Option.filter] using gone
        cases h
        refine ⟨hid, rfl, rfl, unseen, ?_⟩
        cases there : old.isRemotePresent .ordered with
        | true =>
            have remote : old.position.remote ≠ absentPosition := by
              simpa [Element.isRemotePresent] using there
            refine .restored found absent remote ?_ ?_
            · simp
            · simp [Element.reinstate, there, Tracked.write, Tracked.clean]
        | false =>
            have remote : old.position.remote = absentPosition := by
              simpa [Element.isRemotePresent] using there
            refine .allotted ?_ ?_ ?_
            · simp
            · simp [Element.reinstate, there, Tracked.write]
            · simpa [Element.reinstate, Tracked.write] using remote

/-- A set in which an element was put in the place of one of its id: the element keeps its
position or leaves it. -/
theorem reseats_insert (hs : SortedList.Sorted Element.id s.elements) {e old : Element τ}
    (found : s.find? e.id = some old) (remote : e.position.remote = old.position.remote)
    (current : e.position.current = old.position.current ∨ e.position.current = absentPosition)
    (dirty : Nat) (clash : Bool) :
    s.Reseats
      (s.Allots ⟨s.decl, SortedList.insert Element.id e s.elements, dirty,
        s.nextPosition⟩) clash ⟨s.decl, SortedList.insert Element.id e s.elements, dirty,
        s.nextPosition⟩ where
  decl_eq := rfl
  sorted := hs.insert e
  next_le := le_rfl
  uses := by
    have hold := SortedList.mem_of_find? found
    rintro p ⟨x, hx, used⟩
    rcases SortedList.mem_of_mem_insert hx with rfl | hx
    · rcases used with rfl | rfl
      · exact current.imp (fun same => ⟨old, hold, .inl same⟩) .inl
      · exact .inl ⟨old, hold, .inr remote⟩
    · exact .inl ⟨x, hx, used⟩
  apart := by
    intro _ apart
    refine apart.of_sources Function.injective_id ?_
    intro x hx here
    rcases SortedList.mem_of_mem_insert hx with rfl | hx
    · have same := current.resolve_right here
      exact ⟨old, SortedList.mem_of_find? found, SortedList.key_of_find? found, same.symm⟩
    · exact ⟨x, hx, rfl, rfl⟩

theorem reseats_erase (hs : SortedList.Sorted Element.id s.elements)
    (given : Int → Prop) (id : Int) (dirty : Nat) (clash : Bool) :
    s.Reseats given clash ⟨s.decl, SortedList.erase Element.id id s.elements, dirty,
      s.nextPosition⟩ where
  decl_eq := rfl
  sorted := hs.erase id
  next_le := le_rfl
  uses := by
    rintro p ⟨x, hx, used⟩
    exact .inl ⟨x, (SortedList.mem_erase.mp hx).1, used⟩
  apart := by
    intro _ apart
    refine apart.of_sources Function.injective_id ?_
    intro x hx _
    exact ⟨x, (SortedList.mem_erase.mp hx).1, rfl, rfl⟩

theorem find?_of_present? {id : Int} {e : Element τ} (h : s.present? id = some e) :
    s.find? id = some e ∧ e.id = id ∧ e.isPresent s.decl.kind = true := by
  rw [ElementSet.present?, Option.filter_eq_some_iff] at h
  exact ⟨h.1, SortedList.key_of_find? h.1, h.2⟩

theorem reseats_remove (ordered : s.decl.kind = .ordered)
    (hs : SortedList.Sorted Element.id s.elements) (id : Int) (clash : Bool) :
    s.Reseats (s.Allots (s.removeElement id).1) clash (s.removeElement id).1 := by
  rw [ElementSet.removeElement]
  cases present : s.present? id with
  | none => exact .refl hs _ _
  | some e =>
      obtain ⟨found, rfl, -⟩ := find?_of_present? present
      dsimp only
      split
      next => exact reseats_erase hs _ _ _ _
      next =>
        rw [ordered]
        exact reseats_insert (e := e.markAbsent .ordered) hs found rfl (.inr rfl) _ _

/-- An exchange hands the two positions over. -/
theorem reseats_swap (hs : SortedList.Sorted Element.id s.elements) (first second : Int)
    (clash : Bool) :
    s.Reseats (s.Allots (s.swapElements first second).1) clash
      (s.swapElements first second).1 := by
  rw [ElementSet.swapElements]
  split
  next => exact .refl hs _ _
  next =>
    split
    next => exact .refl hs _ _
    next => exact .refl hs _ _
    next a b ha hb =>
      obtain ⟨ha, rfl, -⟩ := find?_of_present? ha
      obtain ⟨hb, rfl, -⟩ := find?_of_present? hb
      split
      next => exact .refl hs _ _
      next differ =>
        have ha := SortedList.mem_of_find? ha
        have hb := SortedList.mem_of_find? hb
        have sorted :=
          hs.insert { a with position := a.position.write b.position.current }
        -- the element is one of the two, or neither
        have cases : ∀ x ∈ ((s.move a b.position.current).move b a.position.current).elements,
            (x.id = b.id ∧ x.position = b.position.write a.position.current) ∨
            (x.id = a.id ∧ x.position = a.position.write b.position.current) ∨
            (x ∈ s.elements ∧ x.id ≠ a.id ∧ x.id ≠ b.id) := by
          intro x hx
          rcases (SortedList.mem_insert sorted).mp hx with rfl | ⟨hx, notb⟩
          · exact .inl ⟨rfl, rfl⟩
          · rcases (SortedList.mem_insert hs).mp hx with rfl | ⟨hx, nota⟩
            · exact .inr (.inl ⟨rfl, rfl⟩)
            · exact .inr (.inr ⟨hx, nota, notb⟩)
        refine ⟨rfl, sorted.insert _, le_rfl, ?_, ?_⟩
        · rintro p ⟨x, hx, used⟩
          left
          rcases cases x hx with ⟨-, seat⟩ | ⟨-, seat⟩ | ⟨hx, -⟩
          · rw [seat] at used
            exact used.elim (fun h => ⟨a, ha, .inl h⟩) (fun h => ⟨b, hb, .inr h⟩)
          · rw [seat] at used
            exact used.elim (fun h => ⟨b, hb, .inl h⟩) (fun h => ⟨a, ha, .inr h⟩)
          · exact ⟨x, hx, used⟩
        · intro _ apart
          refine apart.of_sources (Equiv.swap a.id b.id).injective ?_
          intro x hx _
          rcases cases x hx with ⟨id, seat⟩ | ⟨id, seat⟩ | ⟨hx, nota, notb⟩
          · exact ⟨a, ha, by rw [id, Equiv.swap_apply_right], by rw [seat]; rfl⟩
          · exact ⟨b, hb, by rw [id, Equiv.swap_apply_left], by rw [seat]; rfl⟩
          · exact ⟨x, hx, (Equiv.swap_apply_of_ne_of_ne nota notb).symm, rfl⟩

variable [Catalog τ]

theorem clashes_add {seed : Seed} {edits : List Edit} {opened : ElementSet τ}
    {e : Element τ} {was : Bool} (ordered : s.decl.kind = .ordered)
    (h : (seed.record s.decl.element).bind s.open? = .ok (opened, e, was)) :
    s.clashes (.add seed edits) = s.positions.contains e.position.current := by
  simp [clashes, h, ordered]

theorem record_of_bind {seed : Seed} {type : τ} {result : ElementSet τ × Element τ × Bool}
    (h : (seed.record type).bind s.open? = .ok result) :
    ∃ record, seed.record type = .ok record ∧ s.open? record = .ok result := by
  cases made : seed.record type with
  | error e => simp [made, Except.bind] at h
  | ok record => exact ⟨record, rfl, by simpa [made, Except.bind] using h⟩

/-- An added element stands apart from the others unless it clashes. -/
theorem reseats_add (ordered : s.decl.kind = .ordered)
    (hs : SortedList.Sorted Element.id s.elements) (seed : Seed) (edits : List Edit) :
    s.Reseats (s.Allots (s.edit (.add seed edits)).1) (s.clashes (.add seed edits))
      (s.edit (.add seed edits)).1 := by
  rw [ElementSet.edit]
  cases added : (seed.record s.decl.element).bind s.open? with
  | error e => exact .refl hs _ _
  | ok result =>
      obtain ⟨opened, e, was⟩ := result
      obtain ⟨record, -, opens⟩ := record_of_bind added
      obtain ⟨-, decl, elements, -, place⟩ := placement_of_open? ordered opens
      rw [clashes_add ordered added]
      dsimp only [close, insert]
      rw [decl, elements]
      refine ⟨rfl, hs.insert _, ?_, ?_, ?_⟩
      · cases place with
        | allotted next => exact next ▸ by omega
        | restored _ _ _ next => exact next.ge
      · rintro p ⟨x, hx, used⟩
        rcases SortedList.mem_of_mem_insert hx with rfl | hx
        · cases place with
          | allotted next current remote =>
              refine .inr (used.elim (fun h => .inr ⟨h.trans current, ?_⟩)
                (fun h => .inl (h.trans remote)))
              dsimp only
              omega
          | @restored old found _ _ _ seat =>
              have seat : p = old.position.remote := by
                dsimp only at used
                rw [seat] at used
                exact used.elim id id
              exact .inl ⟨old, SortedList.mem_of_find? found, .inr seat⟩
        · exact .inl ⟨x, hx, used⟩
      · intro free apart
        have free : e.position.current ∉ s.positions := by simpa using free
        rw [mem_positions ordered] at free
        intro x hx y hy here same
        rcases SortedList.mem_of_mem_insert hx with rfl | hx <;>
          rcases SortedList.mem_of_mem_insert hy with rfl | hy
        · rfl
        · exact absurd ⟨here, y, hy, same.symm⟩ free
        · exact absurd ⟨same ▸ here, x, hx, same⟩ free
        · exact apart x hx y hy here same

/-- What an edit does to the positions of an ordered set. -/
theorem reseats_edit (ordered : s.decl.kind = .ordered)
    (hs : SortedList.Sorted Element.id s.elements) (edit : SetEdit) :
    s.Reseats (s.Allots (s.edit edit).1) (s.clashes edit) (s.edit edit).1 := by
  cases edit with
  | add seed edits => exact reseats_add ordered hs seed edits
  | update id edits =>
      rw [ElementSet.edit]
      cases present : s.present? id with
      | none => exact .refl hs _ _
      | some e =>
          obtain ⟨found, rfl, -⟩ := find?_of_present? present
          have id : Element.id { e with record := (e.record.editAll edits).1 } = e.id :=
            e.record.editAll_id edits
          exact reseats_insert hs ((congrArg s.find? id).trans found) rfl (.inl rfl) _ _
  | remove id =>
      rw [ElementSet.edit]
      exact reseats_remove ordered hs id _
  | swap first second =>
      rw [ElementSet.edit]
      exact reseats_swap hs first second _

end Edits

section Attempts

variable {s : ElementSet τ}

/-- A position that some changes tell. -/
def Tells (changes : List ElementDelta) (p : Int) : Prop :=
  ∃ x ∈ changes, x.position = some p

/-- Changes that leave the user's positions alone move only positions of the baseline. -/
theorem reseats_settled {change : ElementDelta → Element τ → Element τ}
    (keeps : ∀ x e, (change x e).id = e.id ∧
      (change x e).position.current = e.position.current)
    {given : Int → Prop} {changes : List ElementDelta}
    (remote : ∀ x ∈ changes, ∀ e, (change x e).position.remote = e.position.remote ∨
      given (change x e).position.remote)
    (hs : SortedList.Sorted Element.id s.elements) (clash : Bool) :
    s.Reseats given clash { s with
      elements := s.elements.filterMap (Element.settled s.decl.kind change changes) } := by
  have source : ∀ e e' : Element τ, e.settled s.decl.kind change changes = some e' →
      e'.id = e.id ∧ e'.position.current = e.position.current ∧
        (e'.position.remote = e.position.remote ∨ given e'.position.remote) := by
    intro e e' h
    rcases Element.settled_eq_some.mp h with ⟨-, rfl⟩ | ⟨x, found, -, rfl⟩
    · exact ⟨rfl, rfl, .inl rfl⟩
    · obtain ⟨id, current⟩ := keeps x e
      exact ⟨id, current, remote x (SortedList.mem_of_find? found) e⟩
  refine ⟨rfl, hs.filterMap (fun e _ e' h => (source e e' h).1), le_rfl, ?_, ?_⟩
  · rintro p ⟨e', he', used⟩
    obtain ⟨e, he, h⟩ := List.mem_filterMap.mp he'
    obtain ⟨-, current, remote⟩ := source e e' h
    rcases used with rfl | rfl
    · exact .inl ⟨e, he, .inl current⟩
    · exact remote.imp (fun same => ⟨e, he, .inr same⟩) id
  · intro _ apart
    refine apart.of_sources Function.injective_id ?_
    intro e' he' _
    obtain ⟨e, he, h⟩ := List.mem_filterMap.mp he'
    obtain ⟨id, current, -⟩ := source e e' h
    exact ⟨e, he, id.symm, current.symm⟩

end Attempts

end ElementSet

section Attempts

variable {s : ElementSet τ}

/-- The element with its baseline moved by a change, if its record allows for that. -/
def Element.commit (x : ElementDelta) (e : Element τ) : Element τ :=
  { e.advance x with record := ((e.record.commit x.record).toOption).getD e.record }

theorem Element.commit_id (x : ElementDelta) (e : Element τ) :
    (e.commit x).id = e.id := by
  show (((e.record.commit x.record).toOption).getD e.record).id = e.record.id
  cases committed : e.record.commit x.record with
  | error error => rfl
  | ok record => exact Record.commit_id committed

/-- A commit leaves the user's position alone and moves that of the baseline to what the
change tells. -/
theorem Element.position_advance (x : ElementDelta) (e : Element τ) :
    (e.advance x).position.current = e.position.current ∧
      ((e.advance x).position.remote = e.position.remote ∨
        x.position = some (e.advance x).position.remote) := by
  rw [Element.advance]
  cases x.position with
  | none => exact ⟨rfl, .inl rfl⟩
  | some p => exact ⟨rfl, .inr rfl⟩

theorem commitElements_eq_settleAll {t : ElementSet τ} {changes : List ElementDelta}
    (h : commitElements s changes = .ok t) : t = s.settleAll Element.commit changes := by
  induction changes generalizing s with
  | nil =>
      rw [commitElements] at h
      exact (Except.ok.inj h).symm
  | cons x changes ih =>
      obtain ⟨id, record, position, deleted⟩ := x
      rw [ElementSet.settleAll]
      cases found : s.find? id with
      | none =>
          simp only [commitElements, found] at h
          exact ih h
      | some e =>
          cases committed : e.record.commit record with
          | error error => simp [commitElements, found, committed, bind, Except.bind] at h
          | ok after =>
              simp only [commitElements, found, committed, bind, Except.bind] at h
              rw [ih h]
              simp only [Element.commit, Element.advance, committed, Except.toOption]
              rfl

namespace ElementSet

/-- A delta tells positions that are in use. -/
theorem uses_of_tells {p : Int} (h : Tells s.delta p) : s.Uses p := by
  obtain ⟨x, hx, told⟩ := h
  rw [delta_eq] at hx
  obtain ⟨e, he, change⟩ := List.mem_filterMap.mp hx
  rw [Element.delta?] at change
  have told : e.position.delta? = some p := by
    split at change
    · obtain rfl := Option.some.inj change
      exact told
    · cases change
  simp only [Tracked.delta?, Option.ite_none_right_eq_some, Option.some.injEq] at told
  exact ⟨e, he, .inl told.2.symm⟩

theorem sorted_delta (hs : SortedList.Sorted Element.id s.elements) :
    SortedList.Sorted ElementDelta.id s.delta := by
  rw [delta_eq]
  apply hs.filterMap
  intro e _ y hy
  rw [Element.delta?] at hy
  split at hy
  · cases hy
    rfl
  · cases hy

/-- What a commit does to the positions of a set. -/
theorem reseats_commit (hs : SortedList.Sorted Element.id s.elements)
    {changes : List ElementDelta} (hc : SortedList.Sorted ElementDelta.id changes)
    {s' : ElementSet τ} {notice : Option Notice}
    (h : s.commit changes = .ok (s', notice)) : s.Reseats (Tells changes) false s' := by
  rw [ElementSet.commit] at h
  cases check : s.checkCommit changes with
  | error e => simp [check, bind, Except.bind] at h
  | ok _ =>
      cases committed : commitElements s changes with
      | error e => simp [check, committed, bind, Except.bind] at h
      | ok t =>
          simp only [check, committed, bind, Except.bind, Except.ok.injEq, Prod.mk.injEq] at h
          obtain ⟨rfl, -⟩ := h
          rw [commitElements_eq_settleAll committed, settleAll_eq Element.commit_id hs hc]
          refine (reseats_settled ?_ ?_ hs false).recount
          · intro x e
            exact ⟨e.commit_id x, (e.position_advance x).1⟩
          · intro x hx e
            exact (e.position_advance x).2.imp id (fun told => ⟨x, hx, told⟩)

/-- A rollback moves no position. -/
theorem reseats_rollback (hs : SortedList.Sorted Element.id s.elements)
    {changes : List ElementDelta} (hc : SortedList.Sorted ElementDelta.id changes) :
    s.Reseats (fun _ => False) false (s.rollback changes) := by
  have position (x : ElementDelta) (e : Element τ) := (e.retract_presence s.decl.kind x).1
  rw [rollback_eq hs hc]
  refine (reseats_settled ?_ ?_ hs false).recount
  · intro x e
    exact ⟨e.retract_id s.decl.kind x, by rw [position]⟩
  · intro x _ e
    exact .inl (by rw [position])

theorem reseats_markSent (hs : SortedList.Sorted Element.id s.elements) :
    s.Reseats (fun _ => False) false s.markSent := by
  have keeps (e : Element τ) : (e.markSent s.decl.kind).position = e.position := by
    rw [Element.markSent]
    split <;> rfl
  rw [markSent_eq]
  refine ⟨rfl, hs.map (fun e _ => e.markSent_id s.decl.kind), le_rfl, ?_, ?_⟩
  · rintro p ⟨x, hx, used⟩
    obtain ⟨e, he, rfl⟩ := List.mem_map.mp hx
    rw [keeps] at used
    exact .inl ⟨e, he, used⟩
  · intro _ apart
    refine apart.of_sources Function.injective_id ?_
    intro x hx _
    obtain ⟨e, he, rfl⟩ := List.mem_map.mp hx
    exact ⟨e, he, (e.markSent_id _).symm, by rw [keeps]⟩

end ElementSet

end Attempts

section Loading

variable {s : ElementSet τ}

namespace ElementSet

theorem seated_blank (decl : SetDecl τ) : (blank decl).Seated false where
  sorted := List.Pairwise.nil
  nonneg := le_rfl
  above := by
    rintro p ⟨e, he, -⟩
    cases he
  apart := by
    intro _ x hx
    cases hx

/-- What loading an element at a free position does to the positions of a set. -/
theorem reseats_addLoaded (hs : SortedList.Sorted Element.id s.elements)
    {record : Record τ} {position : Int} {after : ElementSet τ}
    (added : s.addLoaded record position = .ok after)
    (free : ∀ e ∈ s.elements, e.position.current ≠ position) :
    s.Reseats (· = position) false after := by
  obtain ⟨-, rfl⟩ := addLoaded_eq_ok.mp added
  refine ⟨rfl, hs.insert _, le_max_left _ _, ?_, ?_⟩
  · rintro p ⟨x, hx, used⟩
    rcases SortedList.mem_of_mem_insert hx with rfl | hx
    · exact .inr (used.elim id id)
    · exact .inl ⟨x, hx, used⟩
  · intro _ apart x hx y hy here same
    rcases SortedList.mem_of_mem_insert hx with rfl | hx <;>
      rcases SortedList.mem_of_mem_insert hy with rfl | hy
    · rfl
    · exact absurd same.symm (free y hy)
    · exact absurd same (free x hx)
    · exact apart x hx y hy here same

variable [Catalog τ]

/-- A set into which elements are loaded is seated, and its positions are in range. -/
theorem Seated.load (ordered : s.decl.kind = .ordered) (h : s.Seated false)
    (ranged : s.Ranged) {messages : List Message} {s' : ElementSet τ}
    (hl : ElementSet.load s messages = .ok s') : s'.Seated false ∧ s'.Ranged := by
  induction messages generalizing s with
  | nil =>
      rw [ElementSet.load] at hl
      cases hl
      exact ⟨h, ranged⟩
  | cons m rest ih =>
      by_cases dead : m.deleted = some true
      · rw [ElementSet.load, if_pos dead] at hl
        exact ih ordered h ranged hl
      · obtain ⟨position, record, after, placed, -, added, hl⟩ := (load_cons_eq_ok dead).mp hl
        obtain ⟨-, nonneg, free⟩ := (placeFor_ordered ordered).mp placed
        have moved := reseats_addLoaded h.sorted added free
        have next : position < after.nextPosition := by
          obtain ⟨-, rfl⟩ := addLoaded_eq_ok.mp added
          exact lt_max_of_lt_right (Int.lt_succ position)
        have absent : absentPosition = -1 := rfl
        refine ih (moved.decl_eq ▸ ordered) (h.reseats moved ?_) (ranged.reseats moved ?_) hl
        · rintro p rfl
          omega
        · rintro p rfl
          exact next

/-- A set that is loaded from messages is seated, and its positions are in range. -/
theorem seated_of_load {decl : SetDecl τ} {messages : List Message}
    (h : ElementSet.load (.blank decl) messages = .ok s)
    (ordered : s.decl.kind = .ordered) : s.Seated false ∧ s.Ranged := by
  have unused : (blank decl).Ranged := by
    rintro p ⟨e, he, -⟩
    cases he
  rw [decl_of_load h] at ordered
  exact (seated_blank decl).load ordered unused h

end ElementSet

end Loading

end RecordSync
