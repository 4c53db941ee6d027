import RecordSync.Proofs.Store.History

/-!
# Siblings stand apart

No two live rows of a set share a position, whatever patches the table was given, and
whatever stands above the set: a live root, an element, or a tombstone.  While the
messages of a set are applied two rows may share a position for a time; the check after
the last of them refuses the patch if they still do.

**Seats.**  `Store.seat?` is the position at which an address has a live row.  An
operation of the store gives a seat at most to the address that it writes to, and takes
seats from others: the burial of a row takes its own, and the revival of a tombstone those
of all rows that it holds.  What a patch does is followed set by set, with one set left
open whose messages are being applied (`Store.Spaced`).

**Results.**
* `Store.Tabled.checkPositions_iff`: the check passes iff no two live rows of the set
  share a position.
* `Store.applyRecord_spaced`, `Store.applyGroups_spaced`, `Store.applyMembers_spaced`: one
  patch.
* `Store.siblings_apart`: any history of patches.
-/

namespace RecordSync

namespace Store

variable {s s' s'' : Store} {p number : Nat} {set : String} {id : Int}

/-- The position of the live row at an address. -/
def seat? (s : Store) (p : Nat) (set : String) (id : Int) : Option Int :=
  (s.live? p set id).bind Row.position

/-- No two live rows of a set share a position. -/
def Apart (s : Store) (p : Nat) (set : String) : Prop :=
  ∀ i j q, s.seat? p set i = some q → s.seat? p set j = some q → i = j

/-- A table in shape in which no position is below zero. -/
structure Seated (s : Store) : Prop where
  tabled : s.Tabled
  nonneg : ∀ p set id q, s.seat? p set id = some q → 0 ≤ q

/-- A later table in which the rows of each set, save the open ones, stand apart if they
did. -/
structure Spaced (s s' : Store) (left : Set (Nat × String)) : Prop where
  placed : s'.Seated
  length_le : s.rows.length ≤ s'.rows.length
  apart : ∀ p set, (p, set) ∉ left → s.Apart p set → s'.Apart p set

section Seats

theorem seat?_eq_some {q : Int} :
    s.seat? p set id = some q ↔
      ∃ row, s.find? p set id = some row ∧ row.deleted = false ∧
      row.position = some q := by
  simp only [seat?, Option.bind_eq_some_iff, live?_eq_some, and_assoc]

/-- The live rows of a set stand apart iff the list of their positions has none twice. -/
theorem Tabled.apart_iff (h : s.Tabled) :
    s.Apart p set ↔ ((s.liveElements p set).filterMap Row.position).Nodup := by
  rw [SortedList.nodup_filterMap_iff (nodup_live_ids h p set)]
  constructor
  · intro apart row hr row' hr' q hq hq'
    refine apart row.id row'.id q ?_ ?_
    · rw [seat?, (mem_liveElements h).mp hr]
      exact hq
    · rw [seat?, (mem_liveElements h).mp hr']
      exact hq'
  · intro same i j q hi hj
    obtain ⟨row, live, hq⟩ := Option.bind_eq_some_iff.mp hi
    obtain ⟨row', live', hq'⟩ := Option.bind_eq_some_iff.mp hj
    obtain ⟨-, -, -, rfl⟩ := key_of_find? (live?_eq_some.mp live).1
    obtain ⟨-, -, -, rfl⟩ := key_of_find? (live?_eq_some.mp live').1
    exact same row ((mem_liveElements h).mpr live) row'
      ((mem_liveElements h).mpr live') q hq hq'

theorem sharedPosition?_eq_none {rows : List Row} :
    sharedPosition? rows = none ↔ (rows.filterMap Row.position).Nodup := by
  rw [sharedPosition?, Option.map_eq_none_iff]
  exact Node.shared_eq_none

/-- The check of a set passes iff its live rows stand apart. -/
theorem Tabled.checkPositions_iff (h : s.Tabled) :
    s.checkPositions p set = .ok () ↔ s.Apart p set := by
  rw [h.apart_iff, ← sharedPosition?_eq_none, checkPositions]
  split <;> simp_all

end Seats

namespace Spaced

variable {left left' : Set (Nat × String)}

theorem refl (h : s.Seated) (left : Set (Nat × String)) : s.Spaced s left :=
  ⟨h, le_rfl, fun _ _ _ apart => apart⟩

theorem trans (h : s.Spaced s' left) (h' : s'.Spaced s'' left) : s.Spaced s'' left :=
  ⟨h'.placed, h.length_le.trans h'.length_le,
    fun p set out apart => h'.apart p set out (h.apart p set out apart)⟩

theorem mono (h : s.Spaced s' left) (more : left ⊆ left') : s.Spaced s' left' :=
  ⟨h.placed, h.length_le, fun p set out => h.apart p set (fun inside => out (more inside))⟩

/-- A table in which no address has a seat that it did not have, save in the open sets. -/
theorem of_seats (h : s.Seated) (tabled : s'.Tabled)
    (length : s.rows.length ≤ s'.rows.length)
    (seats : ∀ p set id q, s'.seat? p set id = some q →
      s.seat? p set id = some q ∨ (p, set) ∈ left ∧ 0 ≤ q) : s.Spaced s' left := by
  refine ⟨⟨tabled, fun p set id q hq => ?_⟩, length, fun p set out apart i j q hi hj => ?_⟩
  · exact (seats p set id q hq).elim (h.nonneg p set id q) And.right
  · have kept : ∀ {i}, s'.seat? p set i = some q → s.seat? p set i = some q :=
      fun hi => (seats p set _ q hi).resolve_right (fun inside => out inside.1)
    exact apart i j q (kept hi) (kept hj)

/-- A set is closed when its check passes. -/
theorem close (h : s.Spaced s' {(p, set)}) (passed : s'.checkPositions p set = .ok ()) :
    s.Spaced s' ∅ := by
  refine ⟨h.placed, h.length_le, fun p' set' _ apart => ?_⟩
  by_cases same : (p', set') = (p, set)
  · obtain ⟨rfl, rfl⟩ := Prod.mk.inj same
    exact h.placed.tabled.checkPositions_iff.mp passed
  · exact h.apart p' set' same apart

end Spaced

section Operations

variable {left : Set (Nat × String)}

/-- A change of rows that gives no live row another position. -/
theorem Seated.update (h : s.Seated) {select : Row → Bool} {change : Row → Row}
    (amends : Amends change)
    (kept : ∀ row ∈ s.rows, select row = true →
      (change row).position = none ∨
        (change row).position = row.position ∧ (change row).deleted = row.deleted) :
    s.Spaced (s.update select change) left := by
  refine .of_seats h (h.tabled.update amends ?_) (List.length_map _).ge ?_
  · intro row mem chosen deleted
    rcases kept row mem chosen with none | ⟨position, same⟩
    · exact none
    · exact position.trans (h.tabled.buried row mem (same.symm.trans deleted))
  · intro p set id q hq
    obtain ⟨row', found', there, hq⟩ := seat?_eq_some.mp hq
    rw [find?_update amends] at found'
    obtain ⟨row, found, rfl⟩ := Option.map_eq_some_iff.mp found'
    refine .inl (seat?_eq_some.mpr ⟨row, found, ?_⟩)
    split at there
    next chosen =>
      rw [if_pos chosen] at hq
      rcases kept row (key_of_find? found).1 chosen with none | ⟨position, same⟩
      · rw [none] at hq
        cases hq
      · exact ⟨same.symm.trans there, position.symm.trans hq⟩
    next other =>
      rw [if_neg other] at hq
      exact ⟨there, hq⟩

theorem Seated.bury (h : s.Seated) (number : Nat) :
    s.Spaced (s.updateRow number bury) left :=
  h.update amends_bury (fun _ _ _ => .inl rfl)

theorem Seated.revive (h : s.Seated) {row : Row} (mem : row ∈ s.rows)
    (gone : row.deleted = true) : s.Spaced (s.revive row.number) left := by
  have opened : s.Spaced (s.updateRow row.number
      (fun row => { row with deleted := false, fields := [] })) left := by
    refine h.update amends_fields (fun row' mem' chosen => .inl ?_)
    have same := h.tabled.eq_of_number mem' mem (by simpa using chosen)
    subst same
    exact h.tabled.buried row' mem gone
  exact opened.trans (opened.placed.update amends_bury (fun _ _ _ => .inl rfl))

theorem Seated.create (h : s.Seated) (hp : p ≤ s.rows.length)
    (gone : s.find? p set id = none) : s.Spaced (s.create p set id).1 left := by
  refine .of_seats h (h.tabled.create hp gone) (Grows.create gone).length_le ?_
  intro p' set' id' q hq
  obtain ⟨row, found, there, hq⟩ := seat?_eq_some.mp hq
  rw [find?_create gone] at found
  split at found
  · obtain rfl := Option.some.inj found
    cases hq
  · exact .inl (seat?_eq_some.mpr ⟨row, found, there, hq⟩)

/-- A record that is made or brought back has no seat, and is found under the number that
is given for it. -/
theorem Seated.ensure (h : s.Seated) (hp : p ≤ s.rows.length) (set : String) (id : Int) :
    s.Spaced (s.ensure p set id).1 left ∧
      ∃ row, (s.ensure p set id).1.find? p set id = some row ∧ row.deleted = false ∧
        row.number = (s.ensure p set id).2 := by
  rw [Store.ensure]
  cases found : s.find? p set id with
  | none =>
      refine ⟨h.create hp found, ⟨s.rows.length + 1, p, set, id, none, false, []⟩,
        ?_, rfl, rfl⟩
      rw [find?_create found, if_pos ⟨rfl, rfl, rfl⟩]
  | some row =>
      dsimp only
      split
      next gone =>
        refine ⟨h.revive (key_of_find? found).1 gone,
          { row with deleted := false, fields := [] }, ?_, rfl, rfl⟩
        rw [h.tabled.find?_revive found, if_pos ⟨rfl, rfl, rfl⟩]
      next there => exact ⟨.refl h left, row, found, by simpa using there, rfl⟩

/-- A row that is moved takes a seat in its set. -/
theorem Seated.move (h : s.Seated) {row : Row} (found : s.find? p set id = some row)
    (there : row.deleted = false) {target : Int} (nonneg : 0 ≤ target) :
    s.Spaced (s.updateRow row.number (fun row => { row with position := some target }))
      {(p, set)} := by
  have amends : Amends (fun row => { row with position := some target }) :=
    fun _ => ⟨rfl, rfl⟩
  refine .of_seats h (h.tabled.update amends ?_) (List.length_map _).ge ?_
  · intro row' mem' chosen gone
    obtain rfl :=
      h.tabled.eq_of_number mem' (key_of_find? found).1 (by simpa using chosen)
    exact absurd (there.symm.trans gone) Bool.false_ne_true
  · intro p' set' id' q hq
    obtain ⟨row', found', there', hq⟩ := seat?_eq_some.mp hq
    rw [h.tabled.find?_updateRow found amends] at found'
    split at found'
    next here =>
      obtain rfl := Option.some.inj found'
      obtain rfl := Option.some.inj hq
      exact .inr ⟨Prod.ext here.1 here.2.1, nonneg⟩
    next => exact .inl (seat?_eq_some.mpr ⟨row', found', there', hq⟩)

theorem Seated.keep (h : s.Seated) (content : Bytes) :
    s.Spaced (s.keep content) left := by
  rw [Store.keep]
  split
  · exact .refl h left
  · have tabled := h.tabled
    exact .of_seats h ⟨tabled.numbers, tabled.keys, tabled.bound, tabled.buried⟩ le_rfl
      (fun _ _ _ _ hq => .inl hq)

theorem Seated.writeFields (h : s.Seated) (number : Nat)
    (fields : List (String × Value)) : s.Spaced (s.writeFields number fields) left := by
  have write : ∀ {s : Store} (content : Content) (field : String), s.Seated →
      s.Spaced (s.updateRow number (fun row =>
        { row with fields := SortedList.insert Prod.fst (field, content) row.fields })) left :=
    fun _ _ h => h.update (fun _ => ⟨rfl, rfl⟩) (fun _ _ _ => .inr ⟨rfl, rfl⟩)
  induction fields generalizing s with
  | nil => exact .refl h left
  | cons x fields ih =>
      obtain ⟨field, value⟩ := x
      have first : s.Spaced (s.writeField number field value) left := by
        cases value with
        | bytes content =>
            have kept : s.Spaced (s.keep content) left := h.keep content
            exact kept.trans (write _ _ kept.placed)
        | null => exact write _ _ h
        | text _ => exact write _ _ h
        | integer _ => exact write _ _ h
        | real _ => exact write _ _ h
        | boolean _ => exact write _ _ h
      exact first.trans (ih first.placed)

/-- A record that is brought to its place gets a seat in its set at most. -/
theorem place_spaced (h : s.Seated) (hp : p ≤ s.rows.length) {mayCreate : Bool}
    {position swapPosition : Option Int} {deleted : Option Bool} {found : Option Nat}
    (placed : s.place p set mayCreate id position swapPosition deleted = .ok (s', found)) :
    s.Spaced s' {(p, set)} ∧ ∀ number, found = some number → number ≤ s'.rows.length := by
  have ensured : s.Spaced (s.ensure p set id).1 {(p, set)} ∧ _ := h.ensure hp set id
  obtain ⟨made, row, ensured, there, number⟩ := ensured
  have bound := (made.placed.tabled.bound row (key_of_find? ensured).1).2
  rw [number] at bound
  have absent : ∀ {most : Nat} (number : Nat), none = some number → number ≤ most :=
    fun _ e => by cases e
  rcases place_cases placed with ⟨buried | ⟨row, buried⟩, -⟩ |
    ⟨target, moved, -, -, nonneg⟩ |
    ⟨stays, -⟩
  · obtain ⟨rfl, rfl⟩ := Prod.mk.inj buried
    exact ⟨.refl h _, absent⟩
  · obtain ⟨rfl, rfl⟩ := Prod.mk.inj buried
    exact ⟨h.bury _, absent⟩
  · obtain ⟨rfl, rfl⟩ := Prod.mk.inj moved
    rw [← number]
    have moved := made.placed.move ensured there nonneg
    refine ⟨made.trans moved, ?_⟩
    rintro _ ⟨⟩
    exact number.trans_le (bound.trans (number ▸ moved.length_le))
  · obtain ⟨rfl, rfl⟩ := Prod.mk.inj stays
    exact ⟨made, fun _ e => Option.some.inj e ▸ bound⟩

end Operations

section Patches

mutual

/-- A message that is accepted leaves no set open but that of its record. -/
theorem applyRecord_spaced {s s' : Store} {p : Nat} {set : String} {mayCreate : Bool}
    {m : Message} (h : s.Seated) (hp : p ≤ s.rows.length)
    (applied : s.applyRecord p set mayCreate m = .ok s') : s.Spaced s' {(p, set)} := by
  obtain ⟨id, fields, children, position, swapPosition, deleted⟩ := m
  rw [applyRecord] at applied
  obtain ⟨⟨s₁, found⟩, placed, applied⟩ := of_bind_eq_ok applied
  obtain ⟨brought, bound⟩ := place_spaced h hp placed
  cases found with
  | none => exact Except.ok.inj applied ▸ brought
  | some number =>
      have written : s₁.Spaced (s₁.writeFields number fields) ∅ :=
        brought.placed.writeFields number fields
      have below := applyGroups_spaced children written.placed
        ((bound number rfl).trans written.length_le) applied
      exact brought.trans ((written.trans below).mono (fun _ => False.elim))

/-- Messages of elements that are accepted leave no set open. -/
theorem applyGroups_spaced {s s' : Store} {number : Nat} (groups : List Group)
    (h : s.Seated) (hp : number ≤ s.rows.length)
    (applied : s.applyGroups number groups = .ok s') : s.Spaced s' ∅ := by
  match groups with
  | [] =>
      rw [applyGroups] at applied
      exact Except.ok.inj applied ▸ .refl h ∅
  | ⟨set, members⟩ :: rest =>
      rw [applyGroups] at applied
      obtain ⟨s₁, inner, applied⟩ := of_bind_eq_ok applied
      obtain ⟨_, passed, applied⟩ := of_bind_eq_ok applied
      have closed := (applyMembers_spaced members h hp inner).close passed
      exact closed.trans
        (applyGroups_spaced rest closed.placed (hp.trans closed.length_le) applied)

/-- Messages of elements of one set that are accepted leave no set open but this one. -/
theorem applyMembers_spaced {s s' : Store} {number : Nat} {set : String}
    (members : List Message) (h : s.Seated) (hp : number ≤ s.rows.length)
    (applied : s.applyMembers number set members = .ok s') :
    s.Spaced s' {(number, set)} := by
  match members with
  | [] =>
      rw [applyMembers] at applied
      exact Except.ok.inj applied ▸ .refl h _
  | m :: rest =>
      rw [applyMembers] at applied
      obtain ⟨s₁, inner, applied⟩ := of_bind_eq_ok applied
      have first := applyRecord_spaced h hp inner
      exact first.trans
        (applyMembers_spaced rest first.placed (hp.trans first.length_le) applied)

end

/-- A table in which the rows of every set below a row stand apart. -/
structure Neat (s : Store) : Prop where
  placed : s.Seated
  apart : ∀ p set, 0 < p → s.Apart p set

theorem neat_empty (digest : Bytes → Bytes) : (empty digest).Neat :=
  ⟨⟨⟨List.nodup_nil, List.nodup_nil, nofun, nofun⟩, nofun⟩, fun _ _ _ => nofun⟩

/-- A patch that is accepted leaves the rows of every set below a row apart. -/
theorem Neat.apply (h : s.Neat) {kind : String} {patch : Message}
    (applied : s.apply kind patch = .ok s') : s'.Neat := by
  have spaced := applyRecord_spaced h.placed (Nat.zero_le _) applied
  refine ⟨spaced.placed, fun p set below => spaced.apart p set ?_ (h.apart p set below)⟩
  rintro same
  obtain ⟨rfl, -⟩ := Prod.mk.inj same
  exact lt_irrefl 0 below

theorem Neat.answers (h : s.Neat) (history : List (String × Message)) :
    (s.answers history).2.Neat := by
  induction history generalizing s with
  | nil => exact h
  | cons x history ih =>
      obtain ⟨kind, patch⟩ := x
      refine ih ?_
      cases applied : s.apply kind patch with
      | ok s' => exact h.apply applied
      | error reason => exact h

/-- After any history of patches, accepted or refused, two live rows of a set that have
one position are the same row, below whatever row the set is; a row that has a position is
live, and the position is not below zero. -/
theorem siblings_apart (digest : Bytes → Bytes) (history : List (String × Message)) :
    (∀ holder ∈ ((empty digest).answers history).2.rows, ∀ set,
      ∀ a ∈ ((empty digest).answers history).2.liveElements holder.number set,
        ∀ b ∈ ((empty digest).answers history).2.liveElements holder.number set,
          ∀ q, a.position = some q → b.position = some q → a = b) ∧
    ∀ row ∈ ((empty digest).answers history).2.rows, ∀ q, row.position = some q →
      row.deleted = false ∧ 0 ≤ q := by
  obtain ⟨⟨tabled, nonneg⟩, apart⟩ := (neat_empty digest).answers history
  constructor
  · intro holder mem set a ha b hb q hqa hqb
    have liveA := (mem_liveElements tabled).mp ha
    have liveB := (mem_liveElements tabled).mp hb
    have below : 0 < holder.number := Nat.zero_lt_of_lt (tabled.bound holder mem).1
    have same : a.id = b.id := by
      refine apart holder.number set below a.id b.id q ?_ ?_
      · rw [seat?, liveA]
        exact hqa
      · rw [seat?, liveB]
        exact hqb
    rw [same] at liveA
    exact Option.some.inj (liveA.symm.trans liveB)
  · intro row mem q hq
    have live : row.deleted = false := by
      rw [← Bool.not_eq_true]
      intro gone
      rw [tabled.buried row mem gone] at hq
      cases hq
    exact ⟨live, nonneg _ _ _ q (seat?_eq_some.mpr ⟨row, tabled.find?_of_mem mem, live, hq⟩)⟩

/-- A patch of the parts of the task 1. -/
def partsPatch (parts : List Message) : String × Message :=
  ("task", ⟨1, [], [⟨"parts", parts⟩], none, none, none⟩)

/-- The message of a part, or of a piece of one. -/
def seatMessage (id : Int) (position swapPosition : Option Int) (deleted : Option Bool)
    (pieces : List Message) : Message :=
  ⟨id, [], [⟨"pieces", pieces⟩], position, swapPosition, deleted⟩

/-- Two parts are exchanged, after which half of an exchange is refused; one is removed
with its piece and made again with another one in its stead, named twice in one patch, on
the position of the other one for a time. -/
def seatHistory : List (String × Message) :=
  [partsPatch [seatMessage 7 none (some 0) none [seatMessage 9 none (some 0) none []],
      seatMessage 8 none (some 1) none []],
    partsPatch [seatMessage 7 (some 0) (some 1) none [],
      seatMessage 8 (some 1) (some 0) none []],
    partsPatch [seatMessage 7 (some 1) (some 0) none []],
    partsPatch [seatMessage 7 (some 1) (some (-1)) none []],
    partsPatch [seatMessage 7 none none (some false) [seatMessage 10 none (some 0) none []]],
    partsPatch [seatMessage 7 none (some 0) none [], seatMessage 7 (some 0) (some 3) none []]]

/-- The part that was made again is the only one on its position, and has it as a live
row. -/
theorem siblings_apart_after_exchange :
    ((empty Blake3.digest).answers seatHistory).1 =
        [.ok (), .ok (), .error (.duplicatePosition "parts" 0), .ok (), .ok (), .ok ()] ∧
      ((empty Blake3.digest).answers seatHistory).2.rows.map
          (fun row => (row.parent, row.id, row.position, row.deleted)) =
        [(0, 1, none, false), (1, 7, some 3, false), (2, 9, none, true), (1, 8, some 0, false),
          (2, 10, some 0, false)] ∧
      ∃ a ∈ ((empty Blake3.digest).answers seatHistory).2.liveElements 1 "parts",
        a.id = 7 ∧ a.position = some 3 ∧ (a.deleted = false ∧ 0 ≤ (3 : Int)) ∧
          ∀ b ∈ ((empty Blake3.digest).answers seatHistory).2.liveElements 1 "parts",
            b.position = some 3 → a = b := by
  obtain ⟨apart, live⟩ := siblings_apart Blake3.digest seatHistory
  have holder : (⟨1, 0, "task", 1, none, false, []⟩ : Row) ∈
      ((empty Blake3.digest).answers seatHistory).2.rows := by decide +kernel
  have part : (⟨2, 1, "parts", 7, some 3, false, []⟩ : Row) ∈
      ((empty Blake3.digest).answers seatHistory).2.liveElements 1 "parts" := by
    decide +kernel
  exact ⟨by decide +kernel, by decide +kernel, _, part, rfl, rfl,
    live _ (List.mem_filter.mp part).1 3 rfl,
    fun b hb hq => apart _ holder "parts" _ part b hb 3 rfl hq⟩

end Patches

end Store

end RecordSync
