import RecordSync.Proofs.Record.Positions

/-!
# Clashes of positions

An ordered set can be reached from one just made by edits, by attempts to send it, and by
commits and rollbacks of these attempts, in any order and any number of times.  Whatever
was done, every position that the user sees is one that the set gave out.

**Distinctness.**  The next position is above all others, an exchange keeps positions
distinct, and a removal only frees one.  But the baseline position of an element that was
removed may have been handed to another element before the first comes back: then both
stand on it.

**Results.**
* `ElementSet.History.in_range`: the positions are in range.
* `ElementSet.History.distinct`: as long as no edit clashed the positions are distinct.
* `ElementSet.History.clashes_iff`: an edit clashes iff it brings an element back to a
  baseline position that is taken.
* `ElementSet.Seated.edit_distinct_iff`: an edit keeps positions distinct iff it does not
  clash.
-/

namespace RecordSync

variable {τ : Type}

variable {decl : SetDecl τ} {s : ElementSet τ} {attempts : List (List ElementDelta)}
  {clashed : Bool}

/-- A set that can be reached from one just made, with the deltas of the attempts so far;
it is noted if an edit clashed. -/
inductive ElementSet.History [Catalog τ] (decl : SetDecl τ) :
    ElementSet τ → List (List ElementDelta) → Bool → Prop
  | blank : History decl (.blank decl) [] false
  | decoded {messages : List Message} {s : ElementSet τ} :
      ElementSet.ofMessages decl messages = .ok s → History decl s [] false
  | edit {s : ElementSet τ} {attempts : List (List ElementDelta)} {clashed : Bool}
      (edit : SetEdit) : History decl s attempts clashed →
        History decl (s.edit edit).1 attempts (clashed || s.clashes edit)
  /-- An attempt begins. -/
  | take {s : ElementSet τ} {attempts : List (List ElementDelta)} {clashed : Bool} :
      History decl s attempts clashed → History decl s (s.delta :: attempts) clashed
  | markSent {s : ElementSet τ} {attempts : List (List ElementDelta)} {clashed : Bool} :
      History decl s attempts clashed → History decl s.markSent attempts clashed
  | commit {s s' : ElementSet τ} {attempts : List (List ElementDelta)} {clashed : Bool}
      {d : List ElementDelta} {notice : Option Notice} :
      History decl s attempts clashed → d ∈ attempts → s.commit d = .ok (s', notice) →
        History decl s' attempts clashed
  | rollback {s : ElementSet τ} {attempts : List (List ElementDelta)} {clashed : Bool}
      {d : List ElementDelta} :
      History decl s attempts clashed → d ∈ attempts →
      History decl (s.rollback d) attempts clashed

namespace ElementSet

/-- What holds in every ordered set that can be reached. -/
structure History.Holds (decl : SetDecl τ) (s : ElementSet τ)
    (attempts : List (List ElementDelta)) (clashed : Bool) : Prop where
  decl_eq : s.decl = decl
  seated : s.Seated clashed
  ranged : s.Ranged
  sorted : ∀ d ∈ attempts, SortedList.Sorted ElementDelta.id d
  told : ∀ d ∈ attempts, ∀ p, Tells d p → absentPosition ≤ p ∧ p < s.nextPosition

/-- The invariant is kept by whatever gives out positions that are in range. -/
theorem History.Holds.reseats {given : Int → Prop} {clash : Bool} {s' : ElementSet τ}
    (h : History.Holds decl s attempts clashed) (moved : s.Reseats given clash s')
    (range : ∀ p, given p → absentPosition ≤ p ∧ p < s'.nextPosition) :
    History.Holds decl s' attempts (clashed || clash) where
  decl_eq := moved.decl_eq.trans h.decl_eq
  seated := h.seated.reseats moved (fun p given => (range p given).1)
  ranged := h.ranged.reseats moved (fun p given => (range p given).2)
  sorted := h.sorted
  told := fun d hd p told =>
    (h.told d hd p told).imp_right (fun below => below.trans_le moved.next_le)

theorem History.Holds.unclashed {given : Int → Prop} {s' : ElementSet τ}
    (h : History.Holds decl s attempts clashed) (moved : s.Reseats given false s')
    (range : ∀ p, given p → absentPosition ≤ p ∧ p < s'.nextPosition) :
    History.Holds decl s' attempts clashed := by
  have := h.reseats moved range
  rwa [Bool.or_false] at this

variable [Catalog τ]

theorem History.holds (ordered : decl.kind = .ordered)
    (h : History decl s attempts clashed) : History.Holds decl s attempts clashed := by
  induction h with
  | blank =>
      refine ⟨rfl, seated_blank decl, ?_, nofun, nofun⟩
      rintro p ⟨e, he, -⟩
      cases he
  | decoded loaded =>
      have kind := decl_of_load loaded
      obtain ⟨seated, ranged⟩ := seated_of_load loaded (kind ▸ ordered)
      exact ⟨kind, seated, ranged, nofun, nofun⟩
  | @edit s _ _ edit _ ih =>
      have moved := reseats_edit (ih.decl_eq ▸ ordered) ih.seated.sorted edit
      refine ih.reseats moved ?_
      have nonneg := ih.seated.nonneg
      have next := moved.next_le
      have absent : absentPosition = -1 := rfl
      rintro p (rfl | ⟨rfl, allotted⟩) <;> omega
  | take _ ih =>
      refine ⟨ih.decl_eq, ih.seated, ih.ranged, List.forall_mem_cons.mpr ⟨?_, ih.sorted⟩,
        List.forall_mem_cons.mpr ⟨?_, ih.told⟩⟩
      · exact sorted_delta ih.seated.sorted
      intro p told
      have used := uses_of_tells told
      exact ⟨ih.seated.above p used, ih.ranged p used⟩
  | markSent _ ih => exact ih.unclashed (reseats_markSent ih.seated.sorted) nofun
  | commit _ hd committed ih =>
      have moved := reseats_commit ih.seated.sorted (ih.sorted _ hd) committed
      refine ih.unclashed moved ?_
      intro p told
      exact (ih.told _ hd p told).imp_right (fun below => below.trans_le moved.next_le)
  | rollback _ hd ih =>
      exact ih.unclashed (reseats_rollback ih.seated.sorted (ih.sorted _ hd)) nofun

/-- The user sees an element at a position that the set gave out. -/
theorem History.in_range (ordered : decl.kind = .ordered)
    (h : History decl s attempts clashed) :
    ∀ p ∈ s.positions, 0 ≤ p ∧ p < s.nextPosition := by
  obtain ⟨rfl, seated, ranged, -, -⟩ := h.holds ordered
  intro p hp
  obtain ⟨present, e, he, rfl⟩ := (mem_positions ordered).mp hp
  have used : s.Uses e.position.current := ⟨e, he, .inl rfl⟩
  refine ⟨?_, ranged _ used⟩
  have above := seated.above _ used
  have absent : absentPosition = -1 := rfl
  omega

/-- The added element is one that was removed and is put on the position that the baseline
has for it. -/
def Restores (s : ElementSet τ) (edit : SetEdit) (old : Element τ) : Prop :=
  ∃ seed edits record, edit = .add seed edits ∧ seed.record s.decl.element = .ok record ∧
    s.find? record.id = some old ∧ old.position.current = absentPosition ∧
    old.position.remote ≠ absentPosition

/-- Only an element that comes back clashes: with one that stands on its baseline
position. -/
theorem History.clashes_iff (ordered : decl.kind = .ordered)
    (h : History decl s attempts clashed) (edit : SetEdit) :
    s.clashes edit = true ↔ ∃ old, s.Restores edit old ∧
      old.position.remote ∈ s.positions := by
  have range := h.in_range ordered
  obtain ⟨rfl, -, -, -, -⟩ := h.holds ordered
  constructor
  · intro clash
    cases edit with
    | add seed edits =>
        cases added : (seed.record s.decl.element).bind s.open? with
        | error e => simp [clashes, added] at clash
        | ok result =>
            obtain ⟨opened, e, was⟩ := result
            obtain ⟨record, made, opens⟩ := record_of_bind added
            obtain ⟨-, -, -, -, place⟩ := placement_of_open? ordered opens
            rw [clashes_add ordered added, List.contains_iff_mem] at clash
            cases place with
            | allotted next current =>
                rw [current] at clash
                exact absurd (range _ clash).2 (lt_irrefl _)
            | @restored old found absent there next seat =>
                rw [seat] at clash
                exact ⟨old, ⟨seed, edits, record, rfl, made, found, absent, there⟩, clash⟩
    | update id edits => cases clash
    | remove id => cases clash
    | swap first second => cases clash
  · rintro ⟨old, ⟨seed, edits, record, rfl, made, found, absent, there⟩, taken⟩
    have gone : old.isPresent s.decl.kind = false := by
      simp [ordered, Element.isPresent, absent]
    have remote : old.isRemotePresent .ordered = true := by
      simp [Element.isRemotePresent, there]
    have opens : ∃ opened was, s.open? record =
        .ok (opened, old.reinstate s.decl.kind s.nextPosition, was) := by
      simp [open?, found, gone]
    obtain ⟨opened, was, opens⟩ := opens
    have added : (seed.record s.decl.element).bind s.open? =
        .ok (opened, old.reinstate s.decl.kind s.nextPosition, was) := by
      rw [made]
      exact opens
    rw [clashes_add ordered added, List.contains_iff_mem]
    simpa [ordered, Element.reinstate, remote, Tracked.write] using taken

/-- After an element was put on a position that is taken, two elements stand on it. -/
theorem not_apart_of_clash (ordered : s.decl.kind = .ordered)
    (hs : SortedList.Sorted Element.id s.elements) {edit : SetEdit}
    (clash : s.clashes edit = true) : ¬ (s.edit edit).1.Apart := by
  cases edit with
  | add seed edits =>
      rw [ElementSet.edit]
      cases added : (seed.record s.decl.element).bind s.open? with
      | error e => simp [clashes, added] at clash
      | ok result =>
          obtain ⟨opened, e, was⟩ := result
          obtain ⟨record, -, opens⟩ := record_of_bind added
          obtain ⟨hid, decl, elements, unseen, -⟩ := placement_of_open? ordered opens
          rw [clashes_add ordered added, List.contains_iff_mem] at clash
          obtain ⟨present, x, hx, same⟩ := (mem_positions ordered).mp clash
          have id : Element.id { e with record := (e.record.editAll edits).1 } =
            record.id :=
            (e.record.editAll_id edits).trans hid
          have other : x.id ≠ record.id := by
            intro xid
            have found : s.find? x.id = some x := SortedList.find?_of_mem hs.nodup_keys hx
            rw [present?, ← xid, found, ordered] at unseen
            simp [Element.isPresent, same, present] at unseen
          dsimp only [close, insert]
          rw [elements]
          intro apart
          have mine := (SortedList.mem_insert hs).mpr (.inl (Eq.refl
            { e with record := (e.record.editAll edits).1 }))
          have theirs := (SortedList.mem_insert hs (x := { e with
            record := (e.record.editAll edits).1 })).mpr (.inr ⟨hx, id.symm ▸ other⟩)
          exact other ((apart _ theirs _ mine (same ▸ present) same).trans id)
  | update id edits => cases clash
  | remove id => cases clash
  | swap first second => cases clash

/-- An edit of a set whose positions are distinct keeps them so iff it does not clash. -/
theorem Seated.edit_distinct_iff (ordered : s.decl.kind = .ordered) (h : s.Seated false)
    (edit : SetEdit) : (s.edit edit).1.positions.Nodup ↔ s.clashes edit = false := by
  have moved := reseats_edit ordered h.sorted edit
  rw [nodup_positions_iff (moved.decl_eq ▸ ordered) moved.sorted]
  constructor
  · intro apart
    rw [← Bool.not_eq_true]
    exact fun clash => not_apart_of_clash ordered h.sorted clash apart
  · exact fun free => moved.apart free (h.apart rfl)

/-- As long as no edit clashed the positions are distinct. -/
theorem History.distinct (ordered : decl.kind = .ordered)
    (h : History decl s attempts false) : s.positions.Nodup := by
  obtain ⟨rfl, seated, -, -, -⟩ := h.holds ordered
  exact (nodup_positions_iff ordered seated.sorted).mpr (seated.apart rfl)

end ElementSet

end RecordSync
