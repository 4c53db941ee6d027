import RecordSync.Proofs.Record.Sending

/-!
# The trunk of a record

The trunk of a record is what the server may know of it: the baseline of every field, and
of every set the elements that the baseline has or whose creation has left for the server.
What the user sees is not part of it, and neither are the counts.

Local edits do not touch the trunk.  A commit, on the other hand, depends on nothing else:
whether it is refused and what baseline it gives can be read off the trunk.  So a delta
that is committed after any number of edits gives the baseline that it would have given
when it was taken.

**Results.**
* `Record.Sound.check_of_trunk`: what the trunk does not refuse, the record does not
  refuse.
* `Record.Sound.remote_advance_trunk`: the baseline after a commit is that of the
  committed trunk.
* `Record.Sound.commit_attempt`: a delta that left is committed as long as the trunk is
  kept, and the baseline is then what the user saw when it was taken.
-/

namespace RecordSync

variable {τ : Type}

section Definition

/-- A field as the server may know it. -/
def Field.trunk (f : Field) : Field := .clean f.decl f.value.remote

mutual

/-- A record as the server may know it. -/
def Record.trunk : Record τ → Record τ
  | ⟨type, id, _, fields, sets⟩ => ⟨type, id, 0, fields.map Field.trunk, trunkSets sets⟩

def trunkSets : List (ElementSet τ) → List (ElementSet τ)
  | [] => []
  | ⟨decl, elements, _, _⟩ :: rest =>
    ⟨decl, trunkElements decl.kind elements, 0, 0⟩ :: trunkSets rest

def trunkElements (kind : SetKind) : List (Element τ) → List (Element τ)
  | [] => []
  | ⟨record, position, deleted, sent⟩ :: rest =>
    if Element.isRemotePresent kind ⟨record, position, deleted, sent⟩ || sent then
      ⟨record.trunk, .clean position.remote, .clean deleted.remote, sent⟩ :: trunkElements
        kind rest
    else trunkElements kind rest

end

/-- An element as the server may know it, if it may. -/
def Element.trunk? (kind : SetKind) (e : Element τ) : Option (Element τ) :=
  if e.isRemotePresent kind || e.sent then
    some ⟨e.record.trunk, .clean e.position.remote, .clean e.deleted.remote, e.sent⟩
  else none

def ElementSet.trunk (s : ElementSet τ) : ElementSet τ :=
  ⟨s.decl, s.elements.filterMap (Element.trunk? s.decl.kind), 0, 0⟩

theorem trunkElements_eq (kind : SetKind) (es : List (Element τ)) :
    trunkElements kind es = es.filterMap (Element.trunk? kind) := by
  induction es with
  | nil => rfl
  | cons e es ih =>
      obtain ⟨record, position, deleted, sent⟩ := e
      rw [trunkElements, List.filterMap_cons, Element.trunk?, ih]
      split <;> rfl

theorem trunkSets_eq (sets : List (ElementSet τ)) :
    trunkSets sets = sets.map ElementSet.trunk := by
  induction sets with
  | nil => rfl
  | cons s sets ih =>
      obtain ⟨decl, elements, dirty, next⟩ := s
      rw [trunkSets, List.map_cons, ih, trunkElements_eq]
      rfl

theorem Record.trunk_eq (r : Record τ) :
    r.trunk = ⟨r.type, r.id, 0, r.fields.map Field.trunk, r.sets.map ElementSet.trunk⟩ := by
  obtain ⟨type, id, dirty, fields, sets⟩ := r
  rw [trunk, trunkSets_eq]

@[simp] theorem Record.trunk_id (r : Record τ) : r.trunk.id = r.id := by
  rw [Record.trunk_eq]

@[simp] theorem Record.trunk_type (r : Record τ) : r.trunk.type = r.type := by
  rw [Record.trunk_eq]

@[simp] theorem ElementSet.trunk_name (s : ElementSet τ) : s.trunk.name = s.name := rfl

theorem Element.trunk?_eq_some {kind : SetKind} {e t : Element τ} :
    e.trunk? kind = some t ↔ (e.isRemotePresent kind || e.sent) = true ∧
      t = ⟨e.record.trunk, .clean e.position.remote, .clean e.deleted.remote, e.sent⟩ := by
  rw [Element.trunk?, Option.ite_none_right_eq_some, Option.some.injEq, eq_comm (a := t)]

theorem Element.isRemotePresent_of_trunk?_none {kind : SetKind} {e : Element τ}
    (h : e.trunk? kind = none) : e.isRemotePresent kind = false := by
  rw [Element.trunk?, ite_eq_right_iff] at h
  cases there : e.isRemotePresent kind with
  | false => rfl
  | true => cases h (by rw [there]; rfl)

theorem Element.id_of_trunk? {kind : SetKind} {e t : Element τ}
    (h : e.trunk? kind = some t) : t.id = e.id := by
  obtain ⟨-, rfl⟩ := Element.trunk?_eq_some.mp h
  exact e.record.trunk_id

end Definition

section Lookup

theorem ElementSet.find?_trunk {s : ElementSet τ}
    (hs : SortedList.Sorted Element.id s.elements) (id : Int) :
    s.trunk.find? id = (s.find? id).bind (Element.trunk? s.decl.kind) :=
  SortedList.find?_filterMap hs.nodup_keys (fun _ _ _ => Element.id_of_trunk?)

theorem Record.find?_trunk (r : Record τ) (name : String) :
    SortedList.find? ElementSet.name name r.trunk.sets =
      (SortedList.find? ElementSet.name name r.sets).map ElementSet.trunk := by
  rw [Record.trunk_eq]
  exact SortedList.find?_map (fun s _ => s.trunk_name)

end Lookup

section Baseline

/-- What the baseline has of an element depends on the baseline of its parts. -/
theorem Element.remote?_congr {kind : SetKind} {e e' : Element τ}
    (position : e'.position.remote = e.position.remote)
    (deleted : e'.deleted.remote = e.deleted.remote)
    (record : e'.record.remoteMessage = e.record.remoteMessage) :
    e'.remote? kind = e.remote? kind := by
  have there : e'.isRemotePresent kind = e.isRemotePresent kind := by
    cases kind with
    | ordered => rw [Element.isRemotePresent, Element.isRemotePresent, position]
    | unordered => rw [Element.isRemotePresent, Element.isRemotePresent, deleted]
  rw [Element.remote?, Element.remote?, there, position, record]

theorem Element.remote?_of_trunk? {kind : SetKind} {e : Element τ}
    (same : e.record.trunk.remoteMessage = e.record.remoteMessage) :
    (e.trunk? kind).bind (Element.remote? kind) = e.remote? kind := by
  cases h : e.trunk? kind with
  | none => simp [Element.remote?, Element.isRemotePresent_of_trunk?_none h]
  | some t =>
      obtain ⟨-, rfl⟩ := Element.trunk?_eq_some.mp h
      exact Element.remote?_congr rfl rfl same

variable [Catalog τ]

/-- The baseline of a record is that of its trunk. -/
theorem Record.Sound.remote_trunk {r : Record τ} (h : r.Sound) :
    r.trunk.remoteMessage = r.remoteMessage := by
  induction h with
  | @intro r tidy inner ih =>
      rw [Record.remoteMessage_eq, Record.remoteMessage_eq, Record.trunk_eq]
      simp only [List.map_map]
      congr 2
      apply List.map_congr_left
      intro s hs
      have messages : s.trunk.remoteMessages = s.remoteMessages := by
        rw [ElementSet.remoteMessages_eq, ElementSet.remoteMessages_eq, ElementSet.trunk,
          List.filterMap_filterMap]
        congr 1
        exact List.filterMap_congr (fun e he => Element.remote?_of_trunk? (ih s hs e he))
      rw [Function.comp_apply, messages, ElementSet.trunk_name]

end Baseline

section Commit

/-- What the trunk does not refuse, the record does not refuse. -/
theorem Record.Sound.check_of_trunk [Catalog τ] {r : Record τ} (h : r.Sound) {d : Delta}
    (check : r.trunk.checkCommit d = .ok ()) : r.checkCommit d = .ok () := by
  induction h generalizing d with
  | @intro r tidy inner ih =>
      rw [Record.checkCommit_eq, checkSets_iff] at check ⊢
      intro x hx s found
      have hs := SortedList.mem_of_find? found
      have sorted := (tidy.sets_tidy s hs).sorted
      have check := checkElements_iff.mp
        (check x hx s.trunk (by rw [Record.find?_trunk, found]; rfl))
      refine checkElements_iff.mpr (fun y hy => ?_)
      obtain ⟨t, found, check⟩ := check y hy
      rw [ElementSet.find?_trunk sorted] at found
      obtain ⟨e, he, ht⟩ := Option.bind_eq_some_iff.mp found
      obtain ⟨-, rfl⟩ := Element.trunk?_eq_some.mp ht
      exact ⟨e, he, ih s hs e (SortedList.mem_of_find? he) check⟩

/-- What the baseline has of an element after the changes of its set. -/
theorem Element.settled_remote? (kind : SetKind) (changes : List ElementDelta)
    (e : Element τ) :
    (e.settled kind Element.advance changes).bind (Element.remote? kind) =
      match SortedList.find? ElementDelta.id e.id changes with
      | none => e.remote? kind
      | some x => (e.advance x).remote? kind := by
  rw [Element.settled]
  cases SortedList.find? ElementDelta.id e.id changes with
  | none => rfl
  | some x =>
      dsimp only
      split
      next dead =>
        simp only [Element.isDead, Bool.and_eq_true, Bool.not_eq_true'] at dead
        simp [Element.remote?, dead.1.2]
      next => rfl

/-- A change finds in the trunk what it finds in the set, as far as the baseline shows
it. -/
theorem Element.settled_trunk? {kind : SetKind} {changes : List ElementDelta}
    {e : Element τ} (known : ∀ x, SortedList.find? ElementDelta.id e.id changes = some x →
      ∃ t, e.trunk? kind = some t ∧
        (t.record.advance x.record).remoteMessage =
          (e.record.advance x.record).remoteMessage)
    (same : e.record.trunk.remoteMessage = e.record.remoteMessage) :
    ((e.trunk? kind).bind (Element.settled kind Element.advance changes)).bind
        (Element.remote? kind) =
      (e.settled kind Element.advance changes).bind (Element.remote? kind) := by
  rw [Element.settled_remote?]
  cases found : SortedList.find? ElementDelta.id e.id changes with
  | none =>
      rw [← Element.remote?_of_trunk? same]
      cases ht : e.trunk? kind with
      | none => rfl
      | some t =>
          simp only [Option.bind_some, Element.settled_remote?, Element.id_of_trunk? ht, found]
  | some x =>
      obtain ⟨t, ht, record⟩ := known x found
      simp only [ht, Option.bind_some, Element.settled_remote?, Element.id_of_trunk? ht, found]
      obtain ⟨-, rfl⟩ := Element.trunk?_eq_some.mp ht
      have presence {α : Type} (t : Tracked α) (y : Option α) :
          ((Tracked.clean t.remote).commit? y).remote = (t.commit? y).remote := by
        cases y <;> rfl
      exact Element.remote?_congr (presence e.position x.position)
        (presence e.deleted x.deleted) record

variable [Catalog τ]

/-- The baseline after a commit is that of the committed trunk. -/
theorem Record.Sound.remote_advance_trunk {r : Record τ} (h : r.Sound) {d : Delta}
    (hd : d.Suits r.type) (check : r.trunk.checkCommit d = .ok ()) :
    (r.trunk.advance d).remoteMessage = (r.advance d).remoteMessage := by
  induction h generalizing d with
  | @intro r tidy inner ih =>
      have values : ∀ f : Field,
          (f.trunk.commitFrom d.fields).value.remote =
            (f.commitFrom d.fields).value.remote := by
        intro f
        simp only [Field.commitFrom, Field.trunk, Field.name, Field.clean]
        cases SortedList.find? Prod.fst f.decl.name d.fields <;> rfl
      have sets : ∀ s ∈ r.sets, (s.trunk.visited ElementSet.advance d.sets).remoteMessages =
          (s.visited ElementSet.advance d.sets).remoteMessages := by
        intro s hs
        have st := tidy.sets_tidy s hs
        rw [ElementSet.visited, ElementSet.visited, ElementSet.trunk_name]
        split
        next =>
          rw [ElementSet.remoteMessages_eq, ElementSet.remoteMessages_eq, ElementSet.trunk,
            List.filterMap_filterMap]
          congr 1
          exact List.filterMap_congr
            (fun e he => Element.remote?_of_trunk? (inner s hs e he).remote_trunk)
        next x found =>
          have suits := (tidy.suits hd hs found).2
          have named := SortedList.key_of_find? found
          rw [Record.checkCommit_eq, checkSets_iff] at check
          have check := checkElements_iff.mp (check x (SortedList.mem_of_find? found) s.trunk
            (by rw [Record.find?_trunk, named,
              SortedList.find?_of_mem tidy.set_names hs]; rfl))
          rw [ElementSet.remoteMessages_eq, ElementSet.remoteMessages_eq, ElementSet.advance,
            ElementSet.advance, ElementSet.trunk]
          simp only [ElementSet.recount, List.filterMap_filterMap]
          congr 1
          apply List.filterMap_congr
          intro e he
          show ((e.trunk? s.decl.kind).bind _ |>.bind _) = _
          refine Element.settled_trunk? ?_ (inner s hs e he).remote_trunk
          intro y hy
          have hmem := SortedList.mem_of_find? hy
          obtain ⟨t, ht, check⟩ := check y hmem
          have hid := SortedList.key_of_find? hy
          rw [ElementSet.find?_trunk st.sorted, hid, ElementSet.find?,
            SortedList.find?_of_mem st.sorted.nodup_keys he, Option.bind_some] at ht
          refine ⟨t, ht, ?_⟩
          obtain ⟨-, rfl⟩ := Element.trunk?_eq_some.mp ht
          exact ih s hs e he (st.typed e he ▸ (suits y hmem).2) check
      rw [Record.remoteMessage_eq, Record.remoteMessage_eq, Record.advance_eq,
        Record.advance_eq, Record.trunk_eq]
      simp only [Record.recount, List.map_map]
      congr 2
      · apply List.map_congr_left
        intro f _
        simp only [Function.comp_apply, values]
        rfl
      · apply List.map_congr_left
        intro s hs
        have name : ∀ t : ElementSet τ, (t.visited ElementSet.advance d.sets).name =
            t.name := by
          intro t
          rw [ElementSet.visited]
          split <;> rfl
        simp only [Function.comp_apply, sets s hs, name, ElementSet.trunk_name]

end Commit

section OwnDelta

/-- What the user sees of an element depends on what the user sees of its parts. -/
theorem Element.local?_congr {kind : SetKind} {e e' : Element τ}
    (position : e'.position.current = e.position.current)
    (deleted : e'.deleted.current = e.deleted.current)
    (record : e'.record.localMessage = e.record.localMessage) :
    e'.local? kind = e.local? kind := by
  cases kind <;>
    simp [Element.local?, Element.isPresent, seenPosition, position, deleted, record]

theorem Tracked.commit?_current {α : Type} (t : Tracked α) (x : Option α) :
    (t.commit? x).current = t.current := by
  cases x <;> rfl

/-- A value that takes over its own change is clean. -/
theorem Tracked.commit?_delta? {α : Type} [DecidableEq α] (t : Tracked α) :
    (t.commit? t.delta?).remote = t.current := by
  rw [Tracked.delta?]
  cases h : t.isDirty with
  | true => rfl
  | false => exact (Tracked.isDirty_eq_false.mp h).symm

theorem ElementSet.Tidy.find?_delta {s : ElementSet τ} (h : s.Tidy) {e : Element τ}
    (he : e ∈ s.elements) :
    SortedList.find? ElementDelta.id e.id s.delta = e.delta? s.decl.kind := by
  have keys : ∀ y ∈ s.elements, ∀ x, y.delta? s.decl.kind = some x → x.id = y.id := by
    intro y _ x hx
    rw [Element.delta?] at hx
    split at hx
    · cases hx
      rfl
    · cases hx
  rw [ElementSet.delta_eq, SortedList.find?_filterMap h.sorted.nodup_keys keys,
    SortedList.find?_of_mem h.sorted.nodup_keys he, Option.bind_some]

/-- An element whose own change is taken is then for the baseline what it was for the
user. -/
theorem Element.remote?_advance_delta {kind : SetKind} {e : Element τ} {x : ElementDelta}
    (shaped : e.Shaped kind) (hx : e.delta? kind = some x)
    (record : (e.record.markSent.advance e.record.delta).remoteMessage =
      e.record.localMessage) :
    ((e.markSent kind).advance x).remote? kind = e.local? kind := by
  rw [Element.delta?, Option.ite_none_right_eq_some] at hx
  obtain ⟨dirty, hx⟩ := hx
  obtain rfl := Option.some.inj hx
  have there :
      ((e.markSent kind).advance ⟨e.id, if e.isPresent kind then e.record.delta else .empty,
      e.position.delta?, e.deleted.delta?⟩).isRemotePresent kind = e.isPresent kind := by
    rw [Element.markSent, if_pos dirty]
    cases kind with
    | ordered => simp [Element.isRemotePresent, Element.advance, Element.isPresent,
        Tracked.commit?_delta?]
    | unordered => simp [Element.isRemotePresent, Element.advance, Element.isPresent,
        Tracked.commit?_delta?]
  rw [Element.remote?, there, Element.local?]
  split
  next here =>
    have place : seenPosition kind e.position = e.position.current := by
      cases kind with
      | ordered => rfl
      | unordered =>
          have shaped : e.position = .clean 0 := shaped
          rw [shaped]
          rfl
    rw [Element.markSent, if_pos dirty, place]
    simp only [Element.advance, Tracked.commit?_delta?, record]
  next => rfl

variable [Catalog τ]

theorem Record.Tidy.find?_delta {r : Record τ} (h : r.Tidy) {s : ElementSet τ}
    (hs : s ∈ r.sets) :
    SortedList.find? SetDelta.name s.name r.delta.sets = s.delta? := by
  have keys : ∀ u ∈ r.sets, ∀ x, ElementSet.delta? u = some x → x.name = u.name := by
    intro u _ x hx
    rw [ElementSet.delta?_eq_some hx]
  rw [Record.delta_eq, SortedList.find?_filterMap h.set_names keys,
    SortedList.find?_of_mem h.set_names hs, Option.bind_some]

theorem Field.name_of_delta? (f : Field) {x : String × Value}
    (h : f.value.delta?.map (fun value => (f.name, value)) = some x) : x.1 = f.name := by
  obtain ⟨value, -, rfl⟩ := Option.map_eq_some_iff.mp h
  rfl

theorem Record.Tidy.find?_fieldDeltas {r : Record τ} (h : r.Tidy) {f : Field}
    (hf : f ∈ r.fields) : SortedList.find? Prod.fst f.name (fieldDeltas r.fields) =
      f.value.delta?.map (fun value => (f.name, value)) := by
  rw [fieldDeltas, SortedList.find?_filterMap h.field_names (fun g _ _ => g.name_of_delta?),
    SortedList.find?_of_mem h.field_names hf, Option.bind_some]

/-- A field takes over its own change. -/
theorem Record.Tidy.remote_commitFrom_delta {r : Record τ} (h : r.Tidy) {f : Field}
    (hf : f ∈ r.fields) : (f.commitFrom r.delta.fields).value.remote =
      f.value.current := by
  rw [Field.commitFrom, Record.delta_eq, h.find?_fieldDeltas hf, Option.map_map]
  exact (congrArg (fun x => (f.value.commit? x).remote)
    (by cases f.value.delta? <;> rfl)).trans f.value.commit?_delta?

/-- What the user sees does not change with a commit. -/
theorem Record.Sound.local_advance {r : Record τ} (h : r.Sound) {d : Delta}
    (hd : d.Suits r.type) : (r.advance d).localMessage = r.localMessage := by
  induction h generalizing d with
  | @intro r tidy inner ih =>
      have sets : ∀ s ∈ r.sets, (s.visited ElementSet.advance d.sets).localMessages =
          s.localMessages := by
        intro s hs
        rw [ElementSet.visited]
        split
        next => rfl
        next x found =>
          rw [ElementSet.localMessages_eq, ElementSet.localMessages_eq, ElementSet.advance]
          simp only [ElementSet.recount, List.filterMap_filterMap]
          congr 1
          apply List.filterMap_congr
          intro e he
          rw [Element.settled]
          split
          next => rfl
          next y hy =>
            have suits := ((tidy.suits hd hs found).2 y (SortedList.mem_of_find? hy)).2
            have kept : (e.advance y).local? s.decl.kind = e.local? s.decl.kind :=
              Element.local?_congr (Tracked.commit?_current _ _) (Tracked.commit?_current _ _)
                (ih s hs e he ((tidy.sets_tidy s hs).typed e he ▸ suits))
            split
            next dead =>
              simp only [Element.isDead, Bool.and_eq_true, Bool.not_eq_true'] at dead
              rw [← kept, Element.local?, dead.1.1]
              rfl
            next => exact kept
      rw [Record.localMessage_eq, Record.localMessage_eq, Record.advance_eq]
      simp only [Record.recount, List.map_map]
      congr 2
      · apply List.map_congr_left
        intro f _
        simp only [Function.comp_apply, Field.commitFrom, Tracked.commit?_current]
        rfl
      · apply List.map_congr_left
        intro s hs
        have name : (s.visited ElementSet.advance d.sets).name = s.name := by
          rw [ElementSet.visited]
          split <;> rfl
        rw [Function.comp_apply, sets s hs, name]

/-- The delta of a record that leaves names only what the server may know from then on. -/
theorem Record.Sound.check_delta {r : Record τ} (h : r.Sound) :
    r.markSent.trunk.checkCommit r.delta = .ok () := by
  induction h with
  | @intro r tidy inner ih =>
      rw [Record.checkCommit_eq, checkSets_iff]
      intro x hx u found
      rw [Record.delta_eq] at hx
      obtain ⟨s, hs, hx⟩ := List.mem_filterMap.mp hx
      obtain rfl := ElementSet.delta?_eq_some hx
      have st := tidy.sets_tidy s hs
      have marked : SortedList.Sorted Element.id s.markSent.elements :=
        (Record.Sound.intro tidy inner).markSent.set
          (by rw [Record.markSent_eq]; exact List.mem_map_of_mem hs) |>.sorted
      rw [Record.find?_trunk, Record.markSent_eq,
        SortedList.find?_map (fun v _ => v.markSent_name),
        SortedList.find?_of_mem tidy.set_names hs] at found
      obtain rfl := Option.some.inj found
      refine checkElements_iff.mpr (fun y hy => ?_)
      obtain ⟨e, he, dirty, rfl⟩ := ElementSet.mem_delta.mp hy
      have sent : e.markSent s.decl.kind =
          { e with record := e.record.markSent, sent := true } :=
        if_pos dirty
      refine ⟨⟨e.record.markSent.trunk, .clean e.position.remote,
        .clean e.deleted.remote, true⟩, ?_, ?_⟩
      · have mem : e.markSent s.decl.kind ∈ s.markSent.elements := by
          rw [ElementSet.markSent_eq]
          exact List.mem_map_of_mem he
        have found := SortedList.find?_of_mem marked.nodup_keys mem
        rw [Element.markSent_id] at found
        rw [ElementSet.find?_trunk marked, ElementSet.find?, found, sent, Option.bind_some]
        refine Element.trunk?_eq_some.mpr ⟨?_, rfl⟩
        exact Bool.or_true _
      · dsimp only
        split
        · exact ih s hs e he
        · rw [Record.checkCommit_eq, checkSets_iff]
          exact nofun

/-- After a record's own delta the baseline is what the user saw. -/
theorem Record.Sound.remote_advance_delta {r : Record τ} (h : r.Sound) :
    (r.markSent.advance r.delta).remoteMessage = r.localMessage := by
  induction h with
  | @intro r tidy inner ih =>
      have sets : ∀ s ∈ r.sets,
          (s.markSent.visited ElementSet.advance r.delta.sets).remoteMessages =
            s.localMessages := by
        intro s hs
        have st := tidy.sets_tidy s hs
        rw [ElementSet.visited, s.markSent_name, tidy.find?_delta hs, ElementSet.delta?]
        have clean : ∀ e ∈ s.elements, e.delta? s.decl.kind = none →
            (e.markSent s.decl.kind).remote? s.decl.kind = e.local? s.decl.kind := by
          intro e he none
          have clean : e.isDirty s.decl.kind = false := by
            rw [← Element.delta?_isSome, none]
            rfl
          rw [Element.markSent, clean, if_neg Bool.false_ne_true]
          exact (Element.local?_eq_remote? (st.shaped e he) clean
            (inner s hs e he).localMessage_of_clean).symm
        split
        next untold =>
          split at untold
          next empty =>
            rw [ElementSet.delta_eq, List.filterMap_eq_nil_iff] at empty
            rw [ElementSet.remoteMessages_eq, ElementSet.localMessages_eq,
              ElementSet.markSent_eq, List.filterMap_map]
            congr 1
            exact List.filterMap_congr (fun e he => clean e he (empty e he))
          next => cases untold
        next x told =>
          split at told
          next => cases told
          next =>
            obtain rfl := Option.some.inj told
            rw [ElementSet.remoteMessages_eq, ElementSet.localMessages_eq, ElementSet.advance,
              ElementSet.markSent_eq]
            simp only [ElementSet.recount, List.filterMap_filterMap, List.filterMap_map]
            congr 1
            apply List.filterMap_congr
            intro e he
            rw [Function.comp_apply, Element.settled_remote?, Element.markSent_id,
              st.find?_delta he]
            cases hx : e.delta? s.decl.kind with
            | none => exact clean e he hx
            | some x =>
                exact Element.remote?_advance_delta (st.shaped e he) hx (ih s hs e he)
      rw [Record.remoteMessage_eq, Record.localMessage_eq, Record.advance_eq,
        Record.markSent_eq]
      simp only [Record.recount, List.map_map]
      congr 2
      · apply List.map_congr_left
        intro f hf
        rw [Function.comp_apply, tidy.remote_commitFrom_delta hf]
        rfl
      · apply List.map_congr_left
        intro s hs
        have name : (s.markSent.visited ElementSet.advance r.delta.sets).name =
            s.name := by
          rw [ElementSet.visited, ElementSet.markSent_eq]
          split <;> rfl
        rw [Function.comp_apply, Function.comp_apply, sets s hs, name]

/-- A record is clean after its own delta. -/
theorem Record.Sound.dirty_advance_delta {r : Record τ} (h : r.Sound) :
    (r.markSent.advance r.delta).dirty = 0 := by
  have suits : r.delta.Suits r.markSent.type := h.alike_markSent.type_eq ▸ h.delta_suits
  rw [(h.markSent.advance suits).clean_iff, h.markSent.local_advance suits,
    h.remote_advance_delta, h.alike_markSent.local_eq]

section Departed

variable {r r₀ : Record τ}

theorem Record.Sound.type_of_trunk (h₀ : r₀.Sound) (trunk : r.trunk = r₀.markSent.trunk) :
    r.type = r₀.type := by
  rw [← r.trunk_type, trunk, Record.trunk_type, h₀.alike_markSent.type_eq]

/-- What a record has in common with one that left with the same trunk. -/
theorem Record.Sound.eq_of_trunk (h : r.Sound) (h₀ : r₀.Sound)
    (trunk : r.trunk = r₀.markSent.trunk) :
    r.remoteMessage = r₀.remoteMessage ∧ r.type = r₀.type ∧ r.id = r₀.id := by
  refine ⟨?_, h₀.type_of_trunk trunk, ?_⟩
  · rw [← h.remote_trunk, trunk, h₀.markSent.remote_trunk, h₀.alike_markSent.remote_eq]
  · rw [← r.trunk_id, trunk, Record.trunk_id, h₀.alike_markSent.id_eq]

theorem Record.Sound.suits_of_trunk (h₀ : r₀.Sound)
    (trunk : r.trunk = r₀.markSent.trunk) : r₀.delta.Suits r.type :=
  (h₀.type_of_trunk trunk).symm ▸ h₀.delta_suits

/-- A delta that left the record is committed after any change that kept the trunk, and
the baseline is then what the user saw when the delta was taken. -/
theorem Record.Sound.commit_attempt (h : r.Sound) (h₀ : r₀.Sound)
    (trunk : r.trunk = r₀.markSent.trunk) :
    r.commit r₀.delta = .ok (r.advance r₀.delta) ∧
      (r.advance r₀.delta).remoteMessage = r₀.localMessage := by
  have marked : r₀.delta.Suits r₀.markSent.type :=
    h₀.alike_markSent.type_eq ▸ h₀.delta_suits
  have suits : r₀.delta.Suits r.type := h₀.suits_of_trunk trunk
  have check : r.trunk.checkCommit r₀.delta = .ok () := trunk ▸ h₀.check_delta
  refine ⟨(h.accords suits rfl).commit_of_check (h.check_of_trunk check), ?_⟩
  rw [← h.remote_advance_trunk suits check, trunk,
    h₀.markSent.remote_advance_trunk marked h₀.check_delta, h₀.remote_advance_delta]

end Departed

end OwnDelta

end RecordSync
