import RecordSync.Proofs.Record.Keyed

/-!
# Commits are all or nothing

A commit changes a record where it stands: set by set and in a set element by element,
each by a commit of its own that can be refused.  `Record.commitInPlace` gives the record
as it is when the commit returns, so that a refusal half-way would show.

**Unknown elements.**  `Record.Meets` follows a delta into a record through the elements
that the sets hold.  The delta names an unknown element if, at some place where it comes
to, it names one that the set there does not hold (`Record.NamesUnknown`).

**Refusal.**  The check before the walk finds an unknown element at any depth
(`Record.Keyed.checked`).  Where it finds none the walk meets none either, although it
lets dead elements go: each element is named once, so what goes is not asked for again.

**Results.**
* `Record.commit_eq_inPlace`, `ElementSet.commit_eq_inPlace`: a commit is the one in
  place, of which a refusal leaves no trace.
* `Record.Keyed.adopts`, `ElementSet.Keyed.adopts`: a commit that is taken moves the
  baseline to each value that the delta names, and leaves alone what it does not name.
* `Record.Handled.commit_all_or_nothing`: a commit is refused iff the delta names an
  unknown element, and then nothing has changed.
-/

namespace RecordSync

variable {τ : Type}

section InPlace

mutual

/-- Advances the baseline of a record where it stands; what has been changed when a part
is refused stays changed. -/
def Record.commitInPlace (r : Record τ) : Delta → Except RecordError Unit × Record τ
  | ⟨fields, sets⟩ =>
    match r.checkCommit ⟨fields, sets⟩ with
    | .error error => (.error error, r)
    | .ok _ =>
      match commitSetsInPlace r.sets sets with
      | (.error error, own) => (.error error, { r with sets := own })
      | (.ok _, own) =>
        (.ok (),
          { r with sets := own, fields := r.fields.map (Field.commitFrom fields) }.recount)

/-- Advances the baselines of the sets that a delta names, where they stand. -/
def commitSetsInPlace (own : List (ElementSet τ)) :
    List SetDelta → Except RecordError Unit × List (ElementSet τ)
  | [] => (.ok (), own)
  | ⟨name, elements⟩ :: rest =>
    match SortedList.find? ElementSet.name name own with
    | none => commitSetsInPlace own rest
    | some s =>
      match checkElements s elements with
      | .error error => (.error error, own)
      | .ok _ =>
        match commitElementsInPlace s elements with
        | (.error error, s) =>
          (.error error, SortedList.modify ElementSet.name name (fun _ => s) own)
        | (.ok _, s) =>
          commitSetsInPlace
            (SortedList.modify ElementSet.name name (fun _ => s.recount) own) rest

/-- Advances the baselines of the elements that a delta names, where they stand; the
presence of an element goes before its record. -/
def commitElementsInPlace (s : ElementSet τ) :
    List ElementDelta → Except RecordError Unit × ElementSet τ
  | [] => (.ok (), s)
  | ⟨id, changes, position, deleted⟩ :: rest =>
    match s.find? id with
    | none => commitElementsInPlace s rest
    | some e =>
      let moved := { e with
        position := e.position.commit? position
        deleted := e.deleted.commit? deleted }
      match e.record.commitInPlace changes with
      | (.error error, record) => (.error error, s.insert { moved with record := record })
      | (.ok _, record) =>
          commitElementsInPlace (s.settle { moved with record := record }) rest

end

/-- Advances the baseline of a set where it stands, with the notices that its listener
gets. -/
def ElementSet.commitInPlace (s : ElementSet τ) (changes : List ElementDelta) :
    Except RecordError Unit × ElementSet τ × List Notice :=
  match s.checkCommit changes with
  | .error error => (.error error, s, [])
  | .ok _ =>
    match commitElementsInPlace s changes with
    | (.error error, after) => (.error error, after, [])
    | (.ok _, after) =>
      (.ok (), after.recount,
        if after.recount.dirty = s.dirty then []
        else [.ofMove s.dirty after.recount.dirty])

/-- What a change where things stand gives to someone who forgets the state when it is
refused. -/
def settledState {σ : Type} (result : Except RecordError Unit × σ) :
    Except RecordError σ :=
  result.1.map (fun _ => result.2)

theorem settledState_eq_ok {σ : Type} {result : Except RecordError Unit × σ} {state : σ} :
    settledState result = .ok state ↔ result = (.ok (), state) := by
  obtain ⟨outcome, after⟩ := result
  cases outcome <;> simp [settledState, Except.map]

mutual

/-- A commit is the one in place, of which a refusal leaves no trace. -/
theorem Record.commit_eq_inPlace (r : Record τ) :
    (d : Delta) → r.commit d = settledState (r.commitInPlace d)
  | ⟨fields, sets⟩ => by
      rw [Record.commit, Record.commitInPlace, commitSets_eq_inPlace r.sets sets]
      cases r.checkCommit ⟨fields, sets⟩ with
      | error error => rfl
      | ok _ =>
          obtain ⟨outcome, own⟩ := commitSetsInPlace r.sets sets
          cases outcome <;> rfl

theorem commitSets_eq_inPlace (own : List (ElementSet τ)) :
    (changes : List SetDelta) →
      commitSets own changes = settledState (commitSetsInPlace own changes)
  | [] => by
      rw [commitSets, commitSetsInPlace]
      rfl
  | ⟨name, elements⟩ :: rest => by
      rw [commitSets, commitSetsInPlace]
      cases SortedList.find? ElementSet.name name own with
      | none => exact commitSets_eq_inPlace own rest
      | some s =>
          simp only [commitElements_eq_inPlace s elements]
          cases checkElements s elements with
          | error error => rfl
          | ok _ =>
              obtain ⟨outcome, after⟩ := commitElementsInPlace s elements
              cases outcome with
              | error error => rfl
              | ok _ => exact commitSets_eq_inPlace _ rest

theorem commitElements_eq_inPlace (s : ElementSet τ) :
    (changes : List ElementDelta) →
      commitElements s changes = settledState (commitElementsInPlace s changes)
  | [] => by
      rw [commitElements, commitElementsInPlace]
      rfl
  | ⟨id, changes, position, deleted⟩ :: rest => by
      rw [commitElements, commitElementsInPlace]
      cases s.find? id with
      | none => exact commitElements_eq_inPlace s rest
      | some e =>
          simp only [Record.commit_eq_inPlace e.record changes]
          obtain ⟨outcome, record⟩ := e.record.commitInPlace changes
          cases outcome with
          | error error => rfl
          | ok _ => exact commitElements_eq_inPlace _ rest

end

/-- The commit of a set is the one in place, of which a refusal leaves no trace. -/
theorem ElementSet.commit_eq_inPlace (s : ElementSet τ) (changes : List ElementDelta) :
    s.commit changes =
      (settledState (s.commitInPlace changes)).map (fun (after, notices) =>
        (after, notices.head?)) := by
  rw [ElementSet.commit, ElementSet.commitInPlace, commitElements_eq_inPlace]
  cases s.checkCommit changes with
  | error error => rfl
  | ok _ =>
      obtain ⟨outcome, after⟩ := commitElementsInPlace s changes
      cases outcome with
      | error error => rfl
      | ok _ =>
          simp only [settledState, Except.map, bind, Except.bind]
          by_cases same : after.recount.dirty = s.dirty <;> simp [same]

end InPlace

section Unknown

/-- A delta of a record comes to a record within it with a part of itself: with the whole
of it to the record itself, and with the change of an element to the element that a set of
that name holds. -/
inductive Record.Meets : Record τ → Delta → Record τ → Delta → Prop
  | self (r : Record τ) (d : Delta) : Meets r d r d
  | nested {r x : Record τ} {d c : Delta} {s : ElementSet τ} {e : Element τ}
      {z : SetDelta} {y : ElementDelta} :
      s ∈ r.sets → z ∈ d.sets → z.name = s.name → e ∈ s.elements → y ∈ z.elements →
      e.id = y.id →
        Meets e.record y.record x c → Meets r d x c

/-- Some changes name an element of an id that the set does not hold. -/
def ElementSet.Misses (s : ElementSet τ) (changes : List ElementDelta) (id : Int) :
    Prop :=
  (∃ y ∈ changes, y.id = id) ∧ ∀ e ∈ s.elements, e.id ≠ id

/-- A delta names, where it comes to through elements that the record holds, an element
that the set there does not hold. -/
def Record.NamesUnknown (r : Record τ) (d : Delta) (id : Int) : Prop :=
  ∃ x c, r.Meets d x c ∧ ∃ z ∈ c.sets, ∃ s ∈ x.sets, z.name = s.name ∧
    s.Misses z.elements id

/-- The same of the changes of a set. -/
def ElementSet.NamesUnknown (s : ElementSet τ) (changes : List ElementDelta) (id : Int) :
    Prop :=
  s.Misses changes id ∨
    ∃ y ∈ changes, ∃ e ∈ s.elements, e.id = y.id ∧ e.record.NamesUnknown y.record id

variable {r : Record τ} {d : Delta} {s : ElementSet τ}

/-- A delta names an unknown element iff what it says of a set does. -/
theorem Record.namesUnknown_iff {id : Int} :
    r.NamesUnknown d id ↔
      ∃ z ∈ d.sets, ∃ s ∈ r.sets, z.name = s.name ∧ s.NamesUnknown z.elements id := by
  constructor
  · rintro ⟨x, c, meets, unknown⟩
    cases meets with
    | self =>
        obtain ⟨z, hz, s, hs, hname, misses⟩ := unknown
        exact ⟨z, hz, s, hs, hname, .inl misses⟩
    | nested hs hz hname he hy hid inner =>
        exact ⟨_, hz, _, hs, hname, .inr ⟨_, hy, _, he, hid, x, c, inner, unknown⟩⟩
  · rintro ⟨z, hz, s, hs, hname, misses | ⟨y, hy, e, he, hid, x, c, inner, unknown⟩⟩
    · exact ⟨r, d, .self r d, z, hz, s, hs, hname, misses⟩
    · exact ⟨x, c, .nested hs hz hname he hy hid inner, unknown⟩

/-- Changes name an unknown element iff the first of them does or the others do. -/
theorem ElementSet.namesUnknown_cons {y : ElementDelta} {changes : List ElementDelta}
    {id : Int} :
    s.NamesUnknown (y :: changes) id ↔ s.NamesUnknown [y] id ∨
      s.NamesUnknown changes id := by
  simp only [NamesUnknown, Misses, List.exists_mem_cons_iff, List.not_mem_nil, false_and,
    exists_false, or_false, or_and_right]
  exact or_or_or_comm

theorem Record.Meets.namesUnknown {x : Record τ} {c : Delta} {id : Int}
    (h : r.Meets d x c) (unknown : x.NamesUnknown c id) : r.NamesUnknown d id := by
  induction h with
  | self => exact unknown
  | nested hs hz hname he hy hid _ ih =>
      exact Record.namesUnknown_iff.mpr
        ⟨_, hz, _, hs, hname, .inr ⟨_, hy, _, he, hid, ih unknown⟩⟩

theorem Record.Meets.keyed {x : Record τ} {c : Delta} (h : r.Meets d x c) (hr : r.Keyed)
    (hd : d.Keyed) : x.Keyed ∧ c.Keyed := by
  induction h with
  | self => exact ⟨hr, hd⟩
  | nested hs hz _ he hy _ _ ih =>
      exact ih ((hr.set hs).nested _ he) ((hd.changed hz).2 _ hy)

/-- A check is passed when no element is unknown, and else tells one that is. -/
inductive Checked (unknown : Int → Prop) : Except RecordError Unit → Prop
  | passed : (∀ id, ¬ unknown id) → Checked unknown (.ok ())
  | refused {id : Int} : unknown id → Checked unknown (.error (.unknownElement id))

theorem Checked.congr {unknown unknown' : Int → Prop} {outcome : Except RecordError Unit}
    (h : Checked unknown outcome) (same : ∀ id, unknown id ↔ unknown' id) :
    Checked unknown' outcome := by
  have : unknown = unknown' := funext (fun id => propext (same id))
  exact this ▸ h

/-- A check of one thing and then of another is a check of both. -/
theorem Checked.bind {first second : Int → Prop} {outcome next : Except RecordError Unit}
    (h : Checked first outcome) (h' : Checked second next) :
    Checked (fun id => first id ∨ second id) (outcome.bind (fun _ => next)) := by
  cases h with
  | refused unknown => exact .refused (.inl unknown)
  | passed none =>
      cases h' with
      | refused unknown => exact .refused (.inr unknown)
      | passed none' =>
          exact .passed (fun id unknown => unknown.elim (none id) (none' id))

/-- The check of a set finds an unknown element, if the checks of its elements do. -/
theorem ElementSet.checked_of_nested (h : SortedList.Sorted Element.id s.elements)
    (inner : ∀ e ∈ s.elements, ∀ d, Checked (e.record.NamesUnknown d) (e.record.checkCommit d))
    (changes : List ElementDelta) :
    Checked (s.NamesUnknown changes) (checkElements s changes) := by
  induction changes with
  | nil =>
      rw [checkElements]
      refine .passed ?_
      rintro id (⟨⟨y, hy, -⟩, -⟩ | ⟨y, hy, -⟩) <;> cases hy
  | cons y changes ih =>
      refine Checked.congr ?_ (fun id => ElementSet.namesUnknown_cons.symm)
      obtain ⟨id, record, position, deleted⟩ := y
      rw [checkElements]
      cases found : s.find? id with
      | none =>
          have gone := SortedList.find?_eq_none_iff.mp found
          exact .refused (.inl (.inl ⟨⟨_, List.mem_singleton_self _, rfl⟩, gone⟩))
      | some e =>
          have he := SortedList.mem_of_find? found
          have hid : e.id = id := SortedList.key_of_find? found
          refine Checked.bind (Checked.congr (inner e he record) ?_) ih
          intro unknown
          constructor
          · intro nested
            exact .inr ⟨_, List.mem_singleton_self _, e, he, hid, nested⟩
          · rintro (⟨⟨y, hy, rfl⟩, gone⟩ | ⟨y, hy, e', he', hid', nested⟩)
            · obtain rfl := List.mem_singleton.mp hy
              exact absurd hid (gone e he)
            · obtain rfl := List.mem_singleton.mp hy
              obtain rfl := h.eq_of_key he' he (hid'.trans hid.symm)
              exact nested

/-- The check before a commit finds an unknown element at any depth. -/
theorem Record.Keyed.checked (h : r.Keyed) (d : Delta) :
    Checked (r.NamesUnknown d) (r.checkCommit d) := by
  induction h generalizing d with
  | @intro r _ names sorted _ ih =>
      rw [Record.checkCommit_eq]
      refine Checked.congr ?_ (fun id => Record.namesUnknown_iff.symm)
      induction d.sets with
      | nil =>
          rw [checkSets]
          exact .passed (fun id unknown => by simp at unknown)
      | cons z changes rest =>
          simp only [List.exists_mem_cons_iff]
          obtain ⟨name, elements⟩ := z
          rw [checkSets]
          cases found : SortedList.find? ElementSet.name name r.sets with
          | none =>
              have gone := SortedList.find?_eq_none_iff.mp found
              refine Checked.congr rest (fun id => ⟨.inr, fun unknown => ?_⟩)
              rcases unknown with ⟨s, hs, hname, -⟩ | later
              · exact absurd hname.symm (gone s hs)
              · exact later
          | some s =>
              have hs := SortedList.mem_of_find? found
              have hname : s.name = name := SortedList.key_of_find? found
              have first := ElementSet.checked_of_nested (sorted s hs) (ih s hs) elements
              refine Checked.bind (Checked.congr first ?_) rest
              intro id
              constructor
              · exact fun unknown => ⟨s, hs, hname.symm, unknown⟩
              · rintro ⟨t, ht, htname, unknown⟩
                have same := SortedList.find?_of_mem names ht
                rw [← htname, found] at same
                exact Option.some.inj same ▸ unknown

theorem ElementSet.Keyed.checked (h : s.Keyed) (changes : List ElementDelta) :
    Checked (s.NamesUnknown changes) (s.checkCommit changes) :=
  ElementSet.checked_of_nested h.sorted (fun e he => (h.nested e he).checked) changes

end Unknown

section Law

variable {r : Record τ} {d : Delta} {s : ElementSet τ}

theorem Record.commitInPlace_of_refused {error : RecordError}
    (check : r.checkCommit d = .error error) : r.commitInPlace d = (.error error, r) := by
  obtain ⟨fields, sets⟩ := d
  rw [Record.commitInPlace, check]

/-- A commit in place that is not refused moves the whole baseline. -/
theorem Record.Accords.commitInPlace_of_check (h : r.Accords d)
    (check : r.checkCommit d = .ok ()) : r.commitInPlace d = (.ok (), r.advance d) := by
  rw [← settledState_eq_ok, ← Record.commit_eq_inPlace]
  exact h.commit_of_check check

/-- The commit of a set in place that is not refused moves the whole baseline. -/
theorem Committable.commitInPlace_of_check {changes : List ElementDelta}
    (able : Committable s changes) (check : s.checkCommit changes = .ok ()) :
    s.commitInPlace changes = (.ok (), s.advance changes,
      if (s.advance changes).dirty = s.dirty then []
      else [.ofMove s.dirty (s.advance changes).dirty]) := by
  obtain ⟨t, committed, after⟩ := able.commit check
  rw [commitElements_eq_inPlace, settledState_eq_ok] at committed
  rw [ElementSet.commitInPlace, check]
  simp only [committed, after]

theorem ElementSet.Keyed.committable (h : s.Keyed) {changes : List ElementDelta}
    (sorted : SortedList.Sorted ElementDelta.id changes)
    (inner : ∀ y ∈ changes, y.record.Keyed) : Committable s changes :=
  ⟨h.sorted, sorted, fun y hy e he => ((h.nested e he).accords (inner y hy)).commit_of_check⟩

/-- The answer and the state of something that is refused when an element is unknown, and
then keeps what was there. -/
inductive AllOrNothing {σ : Type} (unknown : Int → Prop) (kept after : σ) :
    Except RecordError Unit × σ → Prop
  | refused {id : Int} :
      unknown id → AllOrNothing unknown kept after (.error (.unknownElement id), kept)
  | taken : (∀ id, ¬ unknown id) → AllOrNothing unknown kept after (.ok (), after)

section AllOrNothing

variable {σ : Type} {unknown : Int → Prop} {kept after : σ}
    {result : Except RecordError Unit × σ}

theorem AllOrNothing.refused_iff (h : AllOrNothing unknown kept after result) :
    (∃ error, result.1 = .error error) ↔ ∃ id, unknown id := by
  cases h with
  | @refused id hid => exact ⟨fun _ => ⟨id, hid⟩, fun _ => ⟨_, rfl⟩⟩
  | taken none =>
      constructor
      · rintro ⟨error, ⟨⟩⟩
      · rintro ⟨id, hid⟩
        exact absurd hid (none id)

theorem AllOrNothing.eq_of_refused (h : AllOrNothing unknown kept after result)
    {error : RecordError} (refused : result.1 = .error error) :
    result = (.error error, kept) ∧ ∃ id, error = .unknownElement id ∧ unknown id := by
  cases h with
  | @refused id hid =>
      cases refused
      exact ⟨rfl, id, rfl, hid⟩
  | taken none => cases refused

theorem AllOrNothing.eq_of_taken (h : AllOrNothing unknown kept after result)
    (taken : result.1 = .ok ()) : (∀ id, ¬ unknown id) ∧ result = (.ok (), after) := by
  cases h with
  | refused => cases taken
  | taken none => exact ⟨none, rfl⟩

end AllOrNothing

/-- A commit of a keyed record moves the whole baseline, or nothing if the delta names an
unknown element. -/
theorem Record.Keyed.commitInPlace (h : r.Keyed) (hd : d.Keyed) :
    AllOrNothing (r.NamesUnknown d) r (r.advance d) (r.commitInPlace d) := by
  have checked := h.checked d
  cases check : r.checkCommit d with
  | error error =>
      rw [check] at checked
      rw [Record.commitInPlace_of_refused check]
      cases checked with
      | refused unknown => exact .refused unknown
  | ok _ =>
      rw [check] at checked
      rw [(h.accords hd).commitInPlace_of_check check]
      cases checked with
      | passed none => exact .taken none

/-- A commit of a keyed set moves the whole baseline, and tells of it if the number of
dirty elements changed, or does nothing if the changes name an unknown element. -/
theorem ElementSet.Keyed.commitInPlace (h : s.Keyed) {changes : List ElementDelta}
    (sorted : SortedList.Sorted ElementDelta.id changes)
    (inner : ∀ y ∈ changes, y.record.Keyed) :
    AllOrNothing (s.NamesUnknown changes) (s, [])
      (s.advance changes,
        if (s.advance changes).dirty = s.dirty then []
        else [.ofMove s.dirty (s.advance changes).dirty])
      (s.commitInPlace changes) := by
  have checked := h.checked changes
  cases check : s.checkCommit changes with
  | error error =>
      rw [check] at checked
      rw [ElementSet.commitInPlace, check]
      cases checked with
      | refused unknown => exact .refused unknown
  | ok _ =>
      rw [check] at checked
      rw [(h.committable sorted inner).commitInPlace_of_check check]
      cases checked with
      | passed none => exact .taken none

/-- Where a commit of a record is taken, so are those of the records that the delta meets
in it. -/
theorem Record.Keyed.commit_of_taken (h : r.Keyed) (hd : d.Keyed)
    (taken : (r.commitInPlace d).1 = .ok ()) {x : Record τ} {c : Delta}
    (meets : r.Meets d x c) : x.commitInPlace c = (.ok (), x.advance c) := by
  obtain ⟨none, -⟩ := (h.commitInPlace hd).eq_of_taken taken
  obtain ⟨hx, hc⟩ := meets.keyed h hd
  have inner := hx.commitInPlace hc
  cases result : (x.commitInPlace c).1 with
  | error error =>
      obtain ⟨-, id, -, unknown⟩ := inner.eq_of_refused result
      exact absurd (meets.namesUnknown unknown) (none id)
  | ok _ => exact (inner.eq_of_taken result).2

end Law

section Adopted

/-- The baseline has the value that was named, if one was, and the user sees what was seen
before. -/
structure Tracked.Adopts {α : Type} (t : Tracked α) (named : Option α) (t' : Tracked α) :
    Prop where
  remote : t'.remote = named.getD t.remote
  current : t'.current = t.current

/-- The baseline has the presence that a change names, and what the change says of the
record is committed. -/
structure Element.Adopts (e : Element τ) (y : ElementDelta) (e' : Element τ) : Prop where
  position : e.position.Adopts y.position e'.position
  deleted : e.deleted.Adopts y.deleted e'.deleted
  record : e'.record = (e.record.commitInPlace y.record).2
  sent : e'.sent = e.sent

/-- Each element that the changes name has what they say of it in the baseline, unless it
is dead then and has gone; the other elements are as before, and there are no new ones. -/
structure ElementSet.Adopts (s : ElementSet τ) (changes : List ElementDelta)
    (s' : ElementSet τ) : Prop where
  decl : s'.decl = s.decl
  named : ∀ e ∈ s.elements, ∀ y ∈ changes, y.id = e.id →
    ∃ e', e.Adopts y e' ∧ s'.find? e.id = if e'.isDead s.decl.kind then none else some e'
  others : ∀ id, (∀ y ∈ changes, y.id ≠ id) → s'.find? id = s.find? id
  known : ∀ id, s.find? id = none → s'.find? id = none

/-- Each field has the value that a delta names in the baseline, and each set the changes
that the delta names of it; a set that the delta does not name is as before. -/
structure Record.Adopts (r : Record τ) (d : Delta) (r' : Record τ) : Prop where
  fields : List.Forall₂ (fun f f' => f'.decl = f.decl ∧
    f.value.Adopts (d.field? f.name) f'.value) r.fields r'.fields
  sets : List.Forall₂ (fun s s' => (∀ x, d.set? s.name = some x → s.Adopts x.elements s') ∧
    (d.set? s.name = none → s' = s)) r.sets r'.sets

variable {r : Record τ} {d : Delta} {s : ElementSet τ} {changes : List ElementDelta}

theorem Tracked.adopts_commit? {α : Type} [DecidableEq α] (t : Tracked α)
    (named : Option α) : t.Adopts named (t.commit? named) := by
  cases named with
  | none => exact ⟨rfl, rfl⟩
  | some x => exact ⟨rfl, rfl⟩

/-- A set that moves its baseline has what the changes name in it, when the records in it
are committed. -/
theorem ElementSet.adopts_advance (h : SortedList.Sorted Element.id s.elements)
    (sorted : SortedList.Sorted ElementDelta.id changes)
    (inner : ∀ e ∈ s.elements, ∀ y ∈ changes, y.id = e.id →
      (e.record.commitInPlace y.record).2 = e.record.advance y.record) :
    s.Adopts changes (s.advance changes) := by
  have found (id : Int) : (s.advance changes).find? id =
      (s.find? id).bind (Element.settled s.decl.kind Element.advance changes) :=
    SortedList.find?_filterMap h.nodup_keys
      (fun e _ e' settled => Element.settled_id Element.advance_id settled)
  refine ⟨rfl, ?_, ?_, ?_⟩
  · intro e he y hy same
    refine ⟨e.advance y, ⟨?_, ?_, ?_, rfl⟩, ?_⟩
    · exact e.position.adopts_commit? y.position
    · exact e.deleted.adopts_commit? y.deleted
    · exact (inner e he y hy same).symm
    · rw [found, ElementSet.find?, SortedList.find?_of_mem h.nodup_keys he, Option.bind_some,
        Element.settled, ← same, SortedList.find?_of_mem sorted.nodup_keys hy]
  · intro id unnamed
    rw [found]
    cases here : s.find? id with
    | none => rfl
    | some e =>
        obtain rfl : e.id = id := SortedList.key_of_find? here
        rw [Option.bind_some, Element.settled, SortedList.find?_eq_none_iff.mpr unnamed]
  · intro id gone
    rw [found, gone, Option.bind_none]

/-- A record whose commit is taken has what the delta names in its baseline. -/
theorem Record.Keyed.adopts (h : r.Keyed) (hd : d.Keyed)
    (taken : (r.commitInPlace d).1 = .ok ()) : r.Adopts d (r.advance d) := by
  rw [Record.advance_eq]
  constructor
  · refine List.forall₂_map_right_iff.mpr (List.forall₂_same.mpr fun f _ => ⟨rfl, ?_⟩)
    exact f.value.adopts_commit? (d.field? f.name)
  · refine List.forall₂_map_right_iff.mpr (List.forall₂_same.mpr fun s hs => ⟨?_, ?_⟩)
    · intro x found
      have hx : x ∈ d.sets := SortedList.mem_of_find? found
      have name : x.name = s.name := SortedList.key_of_find? found
      obtain ⟨sorted, -⟩ := hd.changed hx
      have visited : s.visited ElementSet.advance d.sets = s.advance x.elements := by
        rw [Delta.set?] at found
        rw [ElementSet.visited, found]
      rw [visited]
      refine ElementSet.adopts_advance (h.set hs).sorted sorted ?_
      intro e he y hy same
      rw [h.commit_of_taken hd taken (.nested hs hx name he hy same.symm (.self _ _))]
    · intro unnamed
      rw [Delta.set?] at unnamed
      rw [ElementSet.visited, unnamed]

/-- A set whose commit is taken has what the changes name in its baseline. -/
theorem ElementSet.Keyed.adopts (h : s.Keyed)
    (sorted : SortedList.Sorted ElementDelta.id changes)
    (inner : ∀ y ∈ changes, y.record.Keyed)
    (taken : (s.commitInPlace changes).1 = .ok ()) :
    s.Adopts changes (s.advance changes) := by
  obtain ⟨none, -⟩ := (h.commitInPlace sorted inner).eq_of_taken taken
  refine ElementSet.adopts_advance h.sorted sorted ?_
  intro e he y hy same
  have law := (h.nested e he).commitInPlace (inner y hy)
  cases result : (e.record.commitInPlace y.record).1 with
  | error error =>
      obtain ⟨-, id, -, unknown⟩ := law.eq_of_refused result
      exact absurd (.inr ⟨y, hy, e, he, same.symm, unknown⟩) (none id)
  | ok _ => rw [(law.eq_of_taken result).2]

end Adopted

section Handled

variable [Catalog τ]

/-- A record that came of one just made by whatever can be done with it.  Deltas of any
origin are committed and rolled back. -/
inductive Record.Handled (type : τ) : Record τ → Prop
  | blank (id : Int) : Handled type (.blank type id)
  | decoded {content : Message} {r : Record τ} :
      Record.ofMessage type content = .ok r → Handled type r
  | edit {r : Record τ} (edit : Edit) : Handled type r → Handled type (r.edit edit).1
  | send {r r' : Record τ} {patch : Message} {d : Delta} :
      Handled type r → r.synchronize = some (patch, d, r') → Handled type r'
  | commit {r : Record τ} {d : Delta} :
      Handled type r → d.Keyed → Handled type (r.commitInPlace d).2
  | rollback {r : Record τ} {d : Delta} :
      Handled type r → d.Keyed → Handled type (r.rollback d)

theorem Record.Handled.keyed {type : τ} {r : Record τ} (h : Handled type r) :
    r.Keyed := by
  induction h with
  | blank id => exact .of_sound (blank_sound type id).sound
  | decoded made => exact .of_sound (made_of_ofMessage _ type _ made).sound
  | edit edit _ ih => exact ih.edit edit
  | send _ sent ih =>
      obtain ⟨-, -, -, rfl⟩ := synchronize_eq_some.mp sent
      exact ih.markSent
  | @commit r d _ hd ih =>
      cases result : (r.commitInPlace d).1 with
      | error error => exact ((ih.commitInPlace hd).eq_of_refused result).1 ▸ ih
      | ok _ => exact ((ih.commitInPlace hd).eq_of_taken result).2 ▸ ih.advance hd
  | rollback _ hd ih => exact ih.rollback hd

/-- Whatever was done with a record, a commit of any delta is refused iff the delta names
an unknown element at some depth, and then nothing has changed; else it succeeds at every
depth that the delta comes to, and each value that the delta names is the baseline there.
The same holds of every set in the record, which gives notice once if its number of dirty
elements changed, and else not at all. -/
theorem Record.Handled.commit_all_or_nothing {type : τ} {r : Record τ}
    (h : Handled type r) {d : Delta} (hd : d.Keyed) :
    ((∃ error, (r.commitInPlace d).1 = .error error) ↔ ∃ id, r.NamesUnknown d id) ∧
    (∀ error, (r.commitInPlace d).1 = .error error →
      (r.commitInPlace d).2 = r ∧
        ∃ id, error = .unknownElement id ∧ r.NamesUnknown d id) ∧
    ((r.commitInPlace d).1 = .ok () →
      ∀ x c, r.Meets d x c →
        x.commitInPlace c = (.ok (), x.advance c) ∧ x.Adopts c (x.advance c)) ∧
    ∀ x : Record τ, x.Within r → ∀ s ∈ x.sets, ∀ changes : List ElementDelta,
      SortedList.Sorted ElementDelta.id changes → (∀ y ∈ changes, y.record.Keyed) →
      ((∃ error, (s.commitInPlace changes).1 = .error error) ↔
        ∃ id, s.NamesUnknown changes id) ∧
      (∀ error, (s.commitInPlace changes).1 = .error error →
        s.commitInPlace changes = (.error error, s, []) ∧
          ∃ id, error = .unknownElement id ∧ s.NamesUnknown changes id) ∧
      ((s.commitInPlace changes).1 = .ok () →
        s.commitInPlace changes = (.ok (), s.advance changes,
          if (s.advance changes).dirty = s.dirty then []
          else [⟨(s.advance changes).dirty, ((s.advance changes).dirty : Int) - s.dirty⟩]) ∧
        s.Adopts changes (s.advance changes)) := by
  have keyed := h.keyed
  have law := keyed.commitInPlace hd
  refine ⟨law.refused_iff, ?_, ?_, ?_⟩
  · intro error refused
    obtain ⟨eq, unknown⟩ := law.eq_of_refused refused
    exact ⟨congrArg Prod.snd eq, unknown⟩
  · intro taken x c meets
    have committed := keyed.commit_of_taken hd taken meets
    obtain ⟨hx, hc⟩ := meets.keyed keyed hd
    exact ⟨committed, hx.adopts hc (congrArg Prod.fst committed)⟩
  · intro x hx s hs changes sorted inner
    have own := (keyed.within hx).set hs
    have law := own.commitInPlace sorted inner
    refine ⟨law.refused_iff, fun error => law.eq_of_refused, fun taken => ?_⟩
    exact ⟨(law.eq_of_taken taken).2, own.adopts sorted inner taken⟩

/-- A probe has a task with two attachments, one of which was sent and removed.  A delta
that names an attachment of another task is refused and the removed one stays; one that
names both is taken, the removed one goes, and the baseline of the other one has its
name. -/
theorem Record.commit_all_or_nothing_of_attachments :
    ∃ (r : Record Entity) (foreign own : Delta), Handled .probe r ∧
      foreign.Keyed ∧ own.Keyed ∧ (∃ id, r.NamesUnknown foreign id) ∧
      r.commitInPlace foreign = (.error (.unknownElement 9), r) ∧
      r.commitInPlace own = (.ok (), r.advance own) ∧
      (r.advance own).sets.map (·.elements.map (·.record.sets.map (·.elements.map
        (fun e => (e.id, e.record.remoteMessage.field? "filename"))))) =
          [[], [[[(8, some (.text "a.png"))]]]] := by
  have change {id : Int} (h : 7 < id) :
      Delta.Keyed ⟨[], [⟨"tasks", [⟨2, ⟨[], [⟨"attachments",
      [⟨7, .empty, none, none⟩, ⟨id, ⟨[("filename", .text "a.png")], []⟩, none, none⟩]⟩]⟩,
        none, none⟩]⟩]⟩ := by
    refine .single (List.pairwise_singleton _ _) (List.forall_mem_singleton.mpr ?_)
    refine .single (List.pairwise_pair.mpr h) ?_
    simp only [List.forall_mem_cons]
    exact ⟨.of_fields _, .of_fields _, fun _ h => absurd h List.not_mem_nil⟩
  have blank : Handled Entity.probe (.blank .probe 1) := .blank 1
  have made := blank.edit
    (.within "tasks" (.add (.blank 2) [.within "attachments" (.add (.blank 7) []),
      .within "attachments" (.add (.blank 8) [])]))
  have sent := made.send (Record.synchronize_eq_some.mpr ⟨by decide, rfl, rfl, rfl⟩)
  have removed :=
    sent.edit (.within "tasks" (.update 2 [.within "attachments" (.remove 7)]))
  have foreign := change (show 7 < 9 by decide)
  have own := change (show 7 < 8 by decide)
  obtain ⟨refused, kept, -, -⟩ := removed.commit_all_or_nothing foreign
  obtain ⟨-, -, taken, -⟩ := removed.commit_all_or_nothing own
  have same := (kept (.unknownElement 9) (by decide +kernel)).1
  have unknown := refused.mp ⟨.unknownElement 9, by decide +kernel⟩
  obtain ⟨moved, -⟩ := taken (by decide +kernel) _ _ (.self _ _)
  refine ⟨_, _, _, removed, foreign, own, unknown, ?_, moved, ?_⟩
  · exact Prod.ext (by decide +kernel) same
  · decide +kernel

end Handled

end RecordSync
