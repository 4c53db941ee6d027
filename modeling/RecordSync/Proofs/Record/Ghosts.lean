import RecordSync.Proofs.Record.Baseline
import RecordSync.Proofs.Record.Clear

/-!
# Where ghosts come from

Local edits and rejected attempts leave a record clear.  The two other steps of an
exchange do so under a condition each.

**Sending.**  All that is dirty is marked as sent, below a removed element too, although
only the removal is told and only the removal is taken back by a rollback.  What the
baseline does not have there stays marked.  So the record must be exposed
(`Record.Exposed`): below an element that the user does not see, the baseline has
everything.

**Accepting.**  An element of which the removal was sent and that was added again since
keeps its mark when the removal is accepted.  So no element that the user sees may be
among those that the delta removes (`Record.Releases`).

**Results.**
* `Record.Sound.clear_markSent_iff`, `Record.Sound.clear_advance_iff`: under exactly these
  conditions a clear record stays clear.
* `Record.Sound.clear_rollback`: after a rejection it always does.
* `Exchange.Careful.no_ghosts`: an exchange whose steps keep to the conditions has no
  ghosts.
-/

namespace RecordSync

variable {τ : Type}

section Definition

/-- The baseline has every element, at every depth. -/
inductive Record.Known : Record τ → Prop
  | intro {r : Record τ} :
      (∀ s ∈ r.sets, ∀ e ∈ s.elements, e.isRemotePresent s.decl.kind = true) →
      (∀ s ∈ r.sets, ∀ e ∈ s.elements, Known e.record) → Known r

/-- Below an element that the user does not see, the baseline has every element. -/
inductive Record.Exposed : Record τ → Prop
  | intro {r : Record τ} :
      (∀ s ∈ r.sets, ∀ e ∈ s.elements, e.isPresent s.decl.kind = false → e.record.Known) →
      (∀ s ∈ r.sets, ∀ e ∈ s.elements, e.isPresent s.decl.kind = true → Exposed e.record) →
      Exposed r

/-- The user sees no element that the delta removes. -/
inductive Record.Releases : Record τ → Delta → Prop
  | intro {r : Record τ} {d : Delta} :
      (∀ s ∈ r.sets, ∀ e ∈ s.elements, (d.changeOf s.name e.id).removes s.decl.kind = true →
        e.isPresent s.decl.kind = false) →
      (∀ s ∈ r.sets, ∀ e ∈ s.elements, Releases e.record (d.changeOf s.name e.id).record) →
      Releases r d

variable {r : Record τ}

theorem Record.known_iff : r.Known ↔
    ∀ s ∈ r.sets, ∀ e ∈ s.elements, e.isRemotePresent s.decl.kind = true ∧
      e.record.Known := by
  constructor
  · rintro ⟨there, inner⟩ s hs e he
    exact ⟨there s hs e he, inner s hs e he⟩
  · intro h
    exact .intro (fun s hs e he => (h s hs e he).1) (fun s hs e he => (h s hs e he).2)

theorem Record.exposed_iff : r.Exposed ↔ ∀ s ∈ r.sets, ∀ e ∈ s.elements,
    (e.isPresent s.decl.kind = false → e.record.Known) ∧
      (e.isPresent s.decl.kind = true → e.record.Exposed) := by
  constructor
  · rintro ⟨hidden, seen⟩ s hs e he
    exact ⟨hidden s hs e he, seen s hs e he⟩
  · intro h
    exact .intro (fun s hs e he => (h s hs e he).1) (fun s hs e he => (h s hs e he).2)

/-- A record whose elements have no sets of their own is exposed. -/
theorem Record.Exposed.of_childless
    (h : ∀ s ∈ r.sets, ∀ e ∈ s.elements, e.record.sets.isEmpty = true) : r.Exposed := by
  refine Record.exposed_iff.mpr ?_
  intro s hs e he
  have none := List.isEmpty_iff.mp (h s hs e he)
  refine ⟨fun _ => Record.known_iff.mpr ?_, fun _ => Record.exposed_iff.mpr ?_⟩
  · rw [none]
    exact nofun
  · rw [none]
    exact nofun

theorem Record.releases_iff {d : Delta} : r.Releases d ↔ ∀ s ∈ r.sets, ∀ e ∈ s.elements,
    ((d.changeOf s.name e.id).removes s.decl.kind = true → e.isPresent s.decl.kind = false) ∧
      e.record.Releases (d.changeOf s.name e.id).record := by
  constructor
  · rintro ⟨gone, inner⟩ s hs e he
    exact ⟨gone s hs e he, inner s hs e he⟩
  · intro h
    exact .intro (fun s hs e he => (h s hs e he).1) (fun s hs e he => (h s hs e he).2)

theorem Record.Sound.releases_empty [Catalog τ] (h : r.Sound) : r.Releases .empty := by
  induction h with
  | @intro r tidy inner ih =>
      refine .intro ?_ ih
      intro s _ e _ removed
      rw [Delta.changeOf_empty, ElementDelta.removes_blank] at removed
      cases removed

end Definition

section Settle

variable {r : Record τ} {d : Delta}

/-- A record whose elements are settled is clear, with nothing out, iff each element is
that is not named and each that is named and stays. -/
theorem Record.clear_settle_iff (move : Field → Field)
    (change : SetKind → ElementDelta → Element τ → Element τ) :
    (Record.recount { r with
      fields := r.fields.map move
      sets := r.sets.map (ElementSet.visited (fun changes s => { s with
        elements := s.elements.filterMap
          (Element.settled s.decl.kind (change s.decl.kind) changes) }.recount)
          d.sets) }).Clear
      .empty ↔
    ∀ s ∈ r.sets, ∀ e ∈ s.elements,
      (d.change? s.name e.id = none → e.Clear s.decl.kind (.blank e.id)) ∧
        ∀ y, d.change? s.name e.id = some y →
        (change s.decl.kind y e).isDead s.decl.kind = false →
          (change s.decl.kind y e).Clear s.decl.kind (.blank (change s.decl.kind y e).id) := by
  rw [Record.clear_iff]
  simp only [Record.recount, List.forall_mem_map]
  refine forall₂_congr (fun s _ => ?_)
  rw [ElementSet.visited]
  simp only [Delta.change?, Delta.set?]
  split
  next unnamed =>
    simp only [unnamed, Option.bind_none, reduceCtorEq, false_implies, implies_true, and_true,
      true_implies]
    rfl
  next x found =>
    simp only [found, Option.bind_some]
    constructor
    · intro h e he
      refine ⟨?_, ?_⟩
      · intro unnamed
        exact h e
          (List.mem_filterMap.mpr ⟨e, he, Element.settled_eq_some.mpr (.inl ⟨unnamed, rfl⟩)⟩)
      · intro y named alive
        exact h _ (List.mem_filterMap.mpr
          ⟨e, he, Element.settled_eq_some.mpr (.inr ⟨y, named, alive, rfl⟩)⟩)
    · intro h e' he'
      obtain ⟨e, he, settled⟩ := List.mem_filterMap.mp he'
      rcases Element.settled_eq_some.mp settled with ⟨unnamed, rfl⟩ |
        ⟨y, named, alive, rfl⟩
      · exact (h e' he).1 unnamed
      · exact (h e he).2 y named alive

/-- An element that is not dead is on a side. -/
theorem Element.Shaped.on_a_side {kind : SetKind} {e : Element τ} (h : e.Shaped kind)
    (alive : e.isDead kind = false) :
    e.isPresent kind = true ∨ e.isRemotePresent kind = true := by
  by_contra absent
  simp only [not_or, Bool.not_eq_true] at absent
  rw [h.isDead_iff.mpr absent] at alive
  cases alive

end Settle

section Rollback

/-- An element that an attempt named is clear when the attempt is taken back. -/
theorem Element.Clear.retract {kind : SetKind} {y : ElementDelta} {e : Element τ}
    (shaped : e.Shaped kind) (alive : (e.retract kind y).isDead kind = false)
    (record : (e.record.rollback y.record).Clear .empty) (id : Int) :
    (e.retract kind y).Clear kind (.blank id) where
  held := ((shaped.retract y).on_a_side alive).imp_right .inl
  sent sent := by
    rw [Element.retract] at sent ⊢
    dsimp only at sent ⊢
    split at sent
    next there =>
      rw [if_pos there]
      exact .inl there
    next => cases sent
  record := by
    rw [Element.retract_record]
    exact record

/-- A clear record stays clear when the attempt is rejected. -/
theorem Record.Sound.clear_rollback [Catalog τ] {r : Record τ} (h : r.Sound) {d : Delta}
    (suits : d.Suits r.type) (clear : r.Clear d) : (r.rollback d).Clear .empty := by
  induction h generalizing d with
  | @intro r tidy inner ih =>
      have sound : r.Sound := .intro tidy inner
      rw [(sound.accords suits rfl).rollback_eq]
      refine (Record.clear_settle_iff _ Element.retract).mpr ?_
      intro s hs e he
      have own := clear.set hs e he
      refine ⟨?_, ?_⟩
      · intro unnamed
        rwa [Delta.changeOf_of_unnamed unnamed] at own
      · intro y named alive
        rw [Delta.changeOf_of_named named] at own
        obtain ⟨x, found, named⟩ := Option.bind_eq_some_iff.mp named
        have inside := ((tidy.suits suits hs found).2 y (SortedList.mem_of_find? named)).2
        rw [← (tidy.sets_tidy s hs).typed e he] at inside
        exact .retract ((tidy.sets_tidy s hs).shaped e he) alive
          (ih s hs e he inside own.record) _

end Rollback

section Send

variable {kind : SetKind} {e : Element τ}

/-- The change of an element that the user sees puts it into the baseline if it was not
there. -/
theorem Element.creates_of_present (here : e.isPresent kind = true)
    (there : e.isRemotePresent kind = false) (id : Int) (record : Delta) :
    (⟨id, record, e.position.delta?, e.deleted.delta?⟩ : ElementDelta).creates kind =
      true := by
  cases kind with
  | ordered =>
      simp only [Element.isPresent, Element.isRemotePresent, decide_eq_true_eq,
        decide_eq_false_iff_not, Decidable.not_not] at here there
      have moved : e.position.current ≠ e.position.remote := there ▸ here
      simp [ElementDelta.creates, Tracked.delta?, Tracked.isDirty, moved, here]
  | unordered =>
      simp only [Element.isPresent, Element.isRemotePresent, Bool.not_eq_true',
        Bool.not_eq_false'] at here there
      simp [ElementDelta.creates, Tracked.delta?, Tracked.isDirty, here, there]

/-- The user does not see an element of which the change takes it from the baseline. -/
theorem Element.absent_of_removes {id : Int} {record : Delta}
    (removed :
      (⟨id, record, e.position.delta?, e.deleted.delta?⟩ : ElementDelta).removes kind =
        true) :
    e.isPresent kind = false := by
  cases kind with
  | ordered =>
      simp only [ElementDelta.removes, Tracked.delta?, beq_iff_eq,
        Option.ite_none_right_eq_some, Option.some.injEq] at removed
      simp [Element.isPresent, removed.2]
  | unordered =>
      simp only [ElementDelta.removes, Tracked.delta?, beq_iff_eq,
        Option.ite_none_right_eq_some, Option.some.injEq] at removed
      simp [Element.isPresent, removed.2]

/-- An element that leaves is clear iff the server knows it or hears of it, and its record
is. -/
theorem Element.Clear.markSent_iff {id : Int} (h : e.Clear kind (.blank id))
    (dirty : e.isDirty kind = true) {y : ElementDelta} :
    (e.markSent kind).Clear kind y ↔
      (e.isRemotePresent kind = true ∨ y.creates kind = true) ∧
        e.record.markSent.Clear y.record := by
  have here : (e.markSent kind).isPresent kind = e.isPresent kind := by
    rw [Element.markSent, if_pos dirty]
    cases kind <;> rfl
  have there : (e.markSent kind).isRemotePresent kind = e.isRemotePresent kind := by
    rw [Element.markSent, if_pos dirty]
    cases kind <;> rfl
  have record : (e.markSent kind).record = e.record.markSent := by
    rw [Element.markSent, if_pos dirty]
  have sent : (e.markSent kind).sent = true := by
    rw [Element.markSent, if_pos dirty]
  constructor
  · intro clear
    rw [← there, ← record]
    exact ⟨clear.sent sent, clear.record⟩
  · rintro ⟨known, inner⟩
    refine ⟨?_, fun _ => there ▸ known, record ▸ inner⟩
    rw [here, there]
    exact .inr known

/-- A clean element without ghosts is on both sides, and the baseline has all of it. -/
theorem Element.Clear.known_of_clean {id : Int} (h : e.Clear kind (.blank id))
    (clean : e.isDirty kind = false)
    (inner : e.record.dirty = 0 → e.record.Clear .empty → e.record.Known ∧ e.record.Exposed) :
    e.isPresent kind = true ∧ e.isRemotePresent kind = true ∧ e.record.Known ∧
      e.record.Exposed := by
  obtain ⟨presence, record⟩ := Element.isDirty_eq_false.mp clean
  have same : e.isPresent kind = e.isRemotePresent kind :=
    Element.isPresent_eq_of_clean presence
  have here : e.isPresent kind = true := by
    have held := h.held
    rw [← same, ElementDelta.creates_blank] at held
    simpa using held
  exact ⟨here, same ▸ here, inner (record here) h.record⟩

variable {r : Record τ}

theorem Record.clear_markSent {d : Delta} :
    r.markSent.Clear d ↔ ∀ s ∈ r.sets, ∀ e ∈ s.elements,
    (e.markSent s.decl.kind).Clear s.decl.kind (d.changeOf s.name e.id) := by
  rw [Record.clear_iff, Record.markSent_eq]
  simp only [List.forall_mem_map]
  refine forall₂_congr (fun s _ => ?_)
  rw [ElementSet.Clear, ElementSet.markSent_eq]
  simp only [List.forall_mem_map, Element.markSent_id]
  rfl

variable [Catalog τ]

theorem Record.Tidy.change?_delta (h : r.Tidy) {s : ElementSet τ} (hs : s ∈ r.sets)
    {e : Element τ} (he : e ∈ s.elements) :
    r.delta.change? s.name e.id = e.delta? s.decl.kind := by
  have own := (h.sets_tidy s hs).find?_delta he
  rw [Delta.change?, Delta.set?, h.find?_delta hs, ElementSet.delta?]
  split
  next empty =>
    rw [empty] at own
    exact own
  next => exact own

/-- The baseline has all of a clean record that has no ghosts, and so does the user. -/
theorem Record.Sound.known_of_clean (h : r.Sound) (clean : r.dirty = 0)
    (clear : r.Clear .empty) : r.Known ∧ r.Exposed := by
  induction h with
  | @intro r tidy inner ih =>
      obtain ⟨-, sets⟩ := tidy.clean_iff_parts.mp clean
      have both : ∀ s ∈ r.sets, ∀ e ∈ s.elements, e.isPresent s.decl.kind = true ∧
          e.isRemotePresent s.decl.kind = true ∧ e.record.Known ∧ e.record.Exposed := by
        intro s hs e he
        have own := (tidy.sets_tidy s hs).clean_iff.mp (sets s hs) e he
        exact (clear.set hs e he).known_of_clean own (ih s hs e he)
      refine ⟨Record.known_iff.mpr ?_, Record.exposed_iff.mpr ?_⟩
      · exact fun s hs e he => ⟨(both s hs e he).2.1, (both s hs e he).2.2.1⟩
      · exact fun s hs e he => ⟨fun _ => (both s hs e he).2.2.1,
          fun _ => (both s hs e he).2.2.2⟩

/-- A clear record that is marked as sent while nothing of it is told stays clear iff the
baseline has all of it. -/
theorem Record.Sound.clear_markSent_empty_iff (h : r.Sound) (clear : r.Clear .empty) :
    r.markSent.Clear .empty ↔ r.Known := by
  induction h with
  | @intro r tidy inner ih =>
      rw [Record.clear_markSent, Record.known_iff]
      refine forall₂_congr (fun s hs => forall₂_congr (fun e he => ?_))
      have own := clear.set hs e he
      rw [Delta.changeOf_empty] at own ⊢
      cases dirty : e.isDirty s.decl.kind with
      | false =>
          have known := own.known_of_clean dirty (inner s hs e he).known_of_clean
          rw [Element.markSent, dirty, if_neg Bool.false_ne_true]
          exact iff_of_true own ⟨known.2.1, known.2.2.1⟩
      | true =>
          rw [own.markSent_iff dirty, ElementDelta.creates_blank]
          simp only [Bool.false_eq_true, or_false]
          exact and_congr_right (fun _ => ih s hs e he own.record)

/-- A clear record that leaves is clear iff it is exposed. -/
theorem Record.Sound.clear_markSent_iff (h : r.Sound) (clear : r.Clear .empty) :
    r.markSent.Clear r.delta ↔ r.Exposed := by
  induction h with
  | @intro r tidy inner ih =>
      rw [Record.clear_markSent, Record.exposed_iff]
      refine forall₂_congr (fun s hs => forall₂_congr (fun e he => ?_))
      have own := clear.set hs e he
      rw [Delta.changeOf_empty] at own
      rw [Delta.changeOf, tidy.change?_delta hs he, Element.delta?]
      cases dirty : e.isDirty s.decl.kind with
      | false =>
          have known := own.known_of_clean dirty (inner s hs e he).known_of_clean
          rw [Element.markSent, dirty, if_neg Bool.false_ne_true]
          exact iff_of_true own ⟨fun _ => known.2.2.1, fun _ => known.2.2.2⟩
      | true =>
          rw [if_pos rfl, Option.getD_some, own.markSent_iff dirty]
          have told : e.isRemotePresent s.decl.kind = true ∨
              (⟨e.id, if e.isPresent s.decl.kind then e.record.delta else .empty,
                e.position.delta?, e.deleted.delta?⟩ : ElementDelta).creates s.decl.kind =
                  true := by
            cases there : e.isRemotePresent s.decl.kind with
            | true => exact .inl rfl
            | false =>
                have here : e.isPresent s.decl.kind = true := by
                  have held := own.held
                  rw [there, ElementDelta.creates_blank] at held
                  simpa using held
                exact .inr (Element.creates_of_present here there _ _)
          refine (and_iff_right told).trans ?_
          cases here : e.isPresent s.decl.kind with
          | true => simpa using ih s hs e he own.record
          | false => simpa using (inner s hs e he).clear_markSent_empty_iff own.record

end Send

section Accept

variable {kind : SetKind} {y : ElementDelta} {e : Element τ}

theorem Element.isPresent_advance : (e.advance y).isPresent kind = e.isPresent kind := by
  cases kind <;> simp [Element.isPresent, Element.advance, Tracked.commit?_current]

theorem Element.isRemotePresent_advance : (e.advance y).isRemotePresent kind =
    (y.creates kind || (e.isRemotePresent kind && !y.removes kind)) := by
  cases kind with
  | ordered =>
      rw [Element.advance, Element.isRemotePresent, ElementDelta.creates, ElementDelta.removes]
      cases y.position with
      | none =>
          by_cases h : e.position.remote = absentPosition <;>
            simp [Tracked.commit?, Element.isRemotePresent, h]
      | some p =>
          by_cases h : p = absentPosition <;> simp [Tracked.commit?, Tracked.commit, h]
  | unordered =>
      rw [Element.advance, Element.isRemotePresent, ElementDelta.creates, ElementDelta.removes]
      cases y.deleted with
      | none => simp [Tracked.commit?, Element.isRemotePresent]
      | some b => cases b <;> simp [Tracked.commit?, Tracked.commit]

theorem ElementDelta.not_creates_of_removes (h : y.removes kind = true) :
    y.creates kind = false := by
  cases kind with
  | ordered =>
      have h : y.position = some absentPosition := by simpa [ElementDelta.removes] using h
      simp [ElementDelta.creates, h]
  | unordered =>
      have h : y.deleted = some true := by simpa [ElementDelta.removes] using h
      simp [ElementDelta.creates, h]

variable [Catalog τ]

omit [Catalog τ] in
theorem Record.Clear.advance_empty {r : Record τ} (h : r.Clear .empty) :
    (r.advance .empty).Clear .empty := by
  rw [Record.advance_eq]
  refine (Record.clear_settle_iff _ (fun _ => Element.advance)).mpr ?_
  exact fun s hs e he => ⟨fun _ => h.set hs e he, nofun⟩

/-- An element that an attempt named is clear when the attempt is accepted iff the user
does not see it where it was removed, and the same holds in its record. -/
theorem Element.Clear.advance_iff (h : e.Clear kind y)
    (shaped : (e.advance y).Shaped kind) (sent : e.sent = true)
    (bare : y.removes kind = true → y.record = .empty) (sound : e.record.Sound)
    (inner : (e.record.advance y.record).Clear .empty ↔ e.record.Releases y.record) :
    ((e.advance y).isDead kind = false → (e.advance y).Clear kind (.blank (e.advance y).id)) ↔
      (y.removes kind = true → e.isPresent kind = false) ∧
      e.record.Releases y.record := by
  constructor
  · intro clear
    cases dead : (e.advance y).isDead kind with
    | true =>
        rw [shaped.isDead_iff, Element.isPresent_advance, Element.isRemotePresent_advance]
          at dead
        obtain ⟨here, there⟩ := dead
        refine ⟨fun _ => here, ?_⟩
        -- The baseline had it, so the change removed it and says nothing else.
        have removed : y.removes kind = true := by
          obtain ⟨created, kept⟩ := Bool.or_eq_false_iff.mp there
          have known : e.isRemotePresent kind = true := by
            simpa [here, created] using h.held
          simpa [known] using kept
        rw [bare removed]
        exact sound.releases_empty
    | false =>
        have clear := clear dead
        refine ⟨?_, inner.mp clear.record⟩
        intro removed
        have known := clear.sent sent
        rw [Element.isRemotePresent_advance, ElementDelta.creates_blank, removed,
          ElementDelta.not_creates_of_removes removed] at known
        simp at known
  · rintro ⟨released, record⟩ alive
    have side := shaped.on_a_side alive
    refine ⟨side.imp_right .inl, fun _ => .inl ?_, inner.mpr record⟩
    cases removed : y.removes kind with
    | true =>
        rw [Element.isPresent_advance, released removed] at side
        simpa using side
    | false =>
        rw [Element.isRemotePresent_advance, removed]
        simpa [or_comm] using h.sent sent

variable {r r₀ : Record τ}

/-- The change `y` names the element: it was taken of `e₀`, and what the server may know
of the element is what it may have known of `e₀` when that left. -/
structure Element.NamedIn (kind : SetKind) (e : Element τ) (y : ElementDelta)
    (e₀ : Element τ) : Prop where
  sound : e₀.record.Sound
  trunk : e.record.trunk = e₀.record.markSent.trunk
  sent : e.sent = true
  change : y = ⟨e.id, if e₀.isPresent kind then e₀.record.delta else .empty,
    e₀.position.delta?, e₀.deleted.delta?⟩

namespace Element.NamedIn

variable {e₀ : Element τ}

theorem record_of_present (h : e.NamedIn kind y e₀) (here : e₀.isPresent kind = true) :
    y.record = e₀.record.delta := by
  rw [h.change, here]
  rfl

theorem record_of_absent (h : e.NamedIn kind y e₀) (here : e₀.isPresent kind = false) :
    y.record = .empty := by
  rw [h.change, here]
  rfl

theorem record_of_removes (h : e.NamedIn kind y e₀) (removed : y.removes kind = true) :
    y.record = .empty := by
  rw [h.change] at removed
  exact h.record_of_absent (Element.absent_of_removes removed)

end Element.NamedIn

/-- What a delta names in a record that has kept its trunk since the delta left. -/
theorem Record.Sound.namedIn_of_trunk (h : r.Sound) (h₀ : r₀.Sound)
    (trunk : r.trunk = r₀.markSent.trunk) {s : ElementSet τ} (hs : s ∈ r.sets)
    {e : Element τ} (he : e ∈ s.elements) {y : ElementDelta}
    (named : r₀.delta.change? s.name e.id = some y) :
    ∃ e₀, e.NamedIn s.decl.kind y e₀ := by
  obtain ⟨x, found, named⟩ := Option.bind_eq_some_iff.mp named
  have name := SortedList.key_of_find? found
  have hx := SortedList.mem_of_find? found
  rw [Record.delta_eq] at hx
  obtain ⟨s₀, hs₀, hx⟩ := List.mem_filterMap.mp hx
  obtain rfl := ElementSet.delta?_eq_some hx
  obtain ⟨e₀, he₀, dirty, rfl⟩ := ElementSet.mem_delta.mp (SortedList.mem_of_find? named)
  have id : ElementDelta.id ⟨e₀.id, _, _, _⟩ = e.id := SortedList.key_of_find? named
  have id : e₀.id = e.id := id
  have marked := h₀.markSent
  have hm : s₀.markSent ∈ r₀.markSent.sets := by
    rw [Record.markSent_eq]
    exact List.mem_map_of_mem hs₀
  -- Both sets have one trunk.
  have same : s.trunk = s₀.markSent.trunk := by
    have here := Record.find?_trunk r s.name
    have there := Record.find?_trunk r₀.markSent s₀.markSent.name
    rw [SortedList.find?_of_mem h.tidy.set_names hs] at here
    rw [SortedList.find?_of_mem marked.tidy.set_names hm, ElementSet.markSent_name, ← trunk,
      show s₀.name = s.name from name, here] at there
    exact Option.some.inj there
  have decl : s.trunk.decl = s₀.markSent.trunk.decl := congrArg ElementSet.decl same
  have decl : s.decl = s₀.decl := decl
  have sent : e₀.markSent s₀.decl.kind =
      { e₀ with record := e₀.record.markSent, sent := true } :=
    if_pos dirty
  have left : s₀.markSent.find? e.id = some (e₀.markSent s₀.decl.kind) := by
    have mem : e₀.markSent s₀.decl.kind ∈ s₀.markSent.elements := by
      rw [ElementSet.markSent_eq]
      exact List.mem_map_of_mem he₀
    rw [← id, ← e₀.markSent_id s₀.decl.kind]
    exact SortedList.find?_of_mem (marked.set hm).sorted.nodup_keys mem
  have here := ElementSet.find?_trunk (h.set hs).sorted e.id
  rw [same, ElementSet.find?_trunk (marked.set hm).sorted, left, ElementSet.find?,
    SortedList.find?_of_mem (h.set hs).sorted.nodup_keys he, Option.bind_some,
    Option.bind_some, sent, decl] at here
  obtain ⟨-, eq⟩ := Element.trunk?_eq_some.mp
    (here.symm.trans (Element.trunk?_eq_some.mpr ⟨Bool.or_true _, rfl⟩))
  obtain ⟨trunk, -, -, sent⟩ := Element.mk.inj eq
  exact ⟨e₀, h₀.nested hs₀ he₀, trunk.symm, sent.symm, by rw [id, decl]⟩

/-- A clear record stays clear when the attempt is accepted iff the user sees nothing that
the attempt removed. -/
theorem Record.Sound.clear_advance_iff (h : r.Sound) (h₀ : r₀.Sound)
    (trunk : r.trunk = r₀.markSent.trunk) (clear : r.Clear r₀.delta) :
    (r.advance r₀.delta).Clear .empty ↔ r.Releases r₀.delta := by
  induction h generalizing r₀ with
  | @intro r tidy inner ih =>
      have sound : r.Sound := .intro tidy inner
      have suits := h₀.suits_of_trunk trunk
      rw [Record.advance_eq, Record.releases_iff]
      refine (Record.clear_settle_iff _ (fun _ => Element.advance)).trans ?_
      refine forall₂_congr (fun s hs => forall₂_congr (fun e he => ?_))
      have own := clear.set hs e he
      have nested := inner s hs e he
      cases named : r₀.delta.change? s.name e.id with
      | none =>
          rw [Delta.changeOf_of_unnamed named] at own ⊢
          refine iff_of_true ⟨fun _ => own, nofun⟩ ⟨?_, nested.releases_empty⟩
          rw [ElementDelta.removes_blank]
          nofun
      | some y =>
          rw [Delta.changeOf_of_named named] at own ⊢
          obtain ⟨e₀, named₀⟩ := sound.namedIn_of_trunk h₀ trunk hs he named
          obtain ⟨x, found, hy⟩ := Option.bind_eq_some_iff.mp named
          have fits := ((tidy.suits suits hs found).2 y (SortedList.mem_of_find? hy)).1
          have shaped := ((tidy.sets_tidy s hs).shaped e he).advance fits
          have record : (e.record.advance y.record).Clear .empty ↔
              e.record.Releases y.record := by
            have clear := own.record
            cases here : e₀.isPresent s.decl.kind with
            | true =>
                rw [named₀.record_of_present here] at clear ⊢
                exact ih s hs e he named₀.sound named₀.trunk clear
            | false =>
                rw [named₀.record_of_absent here] at clear ⊢
                exact iff_of_true clear.advance_empty nested.releases_empty
          have settled :=
            own.advance_iff shaped named₀.sent named₀.record_of_removes nested record
          refine Iff.trans ⟨fun h => h.2 y rfl, fun h => ⟨nofun, ?_⟩⟩ settled
          rintro y' ⟨⟩
          exact h

end Accept

namespace Exchange

section Told

variable {x : Exchange τ}

/-- The delta of the attempt that is out, or the empty one. -/
def told (x : Exchange τ) : Delta := (x.outstanding.map Prod.fst).getD .empty

theorem told_of_idle (idle : x.outstanding = none) : x.told = .empty := by
  rw [told, idle]
  rfl

theorem told_of_out {d : Delta} {seen : Message} (out : x.outstanding = some (d, seen)) :
    x.told = d := by
  rw [told, out]
  rfl

end Told

variable [Catalog τ]

/-- The record of an exchange can be reached, with the outstanding delta among its
attempts. -/
theorem Reachable.record {type : τ} {x : Exchange τ} (h : Reachable type x) :
    ∃ attempts, Record.Reachable type x.record attempts ∧
      ∀ d seen, x.outstanding = some (d, seen) → d ∈ attempts := by
  induction h with
  | blank id => exact ⟨[], .blank id, nofun⟩
  | decoded made => exact ⟨[], .decoded made, nofun⟩
  | step _ hs ih =>
      obtain ⟨attempts, reached, out⟩ := ih
      cases hs with
      | edit edit => exact ⟨attempts, reached.edit edit, out⟩
      | @send patch d r none sent =>
          refine ⟨d :: attempts, reached.send sent, ?_⟩
          rintro _ _ ⟨⟩
          exact List.mem_cons_self
      | accept was committed =>
          exact ⟨attempts, reached.commit (out _ _ was) committed, nofun⟩
      | reject was => exact ⟨attempts, reached.rollback (out _ _ was), nofun⟩

theorem Reachable.seated {type : τ} {x : Exchange τ} (h : Reachable type x) :
    ∃ clashed, x.record.Seated clashed := by
  obtain ⟨attempts, reached, -⟩ := h.record
  obtain ⟨clashed, past⟩ := Record.History.of_reachable reached
  exact ⟨clashed, past.seated.1⟩

/-- An exchange in which a record leaves only when it is exposed, and a delta is accepted
only when the user sees nothing that it removes. -/
inductive Careful (type : τ) : Exchange τ → Prop
  | blank (id : Int) : Careful type (start (.blank type id))
  | decoded {content : Message} {r : Record τ} :
      Record.ofMessage type content = .ok r → Careful type (start r)
  | edit {x : Exchange τ} (edit : Edit) :
      Careful type x → Careful type { x with record := (x.record.edit edit).1 }
  | send {x : Exchange τ} {patch : Message} {d : Delta} {r : Record τ} :
      Careful type x → x.outstanding = none → x.record.Exposed →
        x.record.synchronize = some (patch, d, r) →
          Careful type ⟨r, some (d, x.record.localMessage), x.accepted⟩
  | accept {x : Exchange τ} {d : Delta} {seen : Message} {r : Record τ} :
      Careful type x → x.outstanding = some (d, seen) → x.record.Releases d →
        x.record.commit d = .ok r → Careful type ⟨r, none, seen⟩
  | reject {x : Exchange τ} {d : Delta} {seen : Message} :
      Careful type x → x.outstanding = some (d, seen) →
        Careful type ⟨x.record.rollback d, none, x.accepted⟩

variable {type : τ} {x : Exchange τ}

theorem Careful.reachable (h : Careful type x) : Reachable type x := by
  induction h with
  | blank id => exact .blank id
  | decoded made => exact .decoded made
  | edit edit _ ih => exact ih.step (.edit _ edit)
  | send _ idle _ sent ih => exact ih.step (.send _ idle sent)
  | accept _ out _ committed ih => exact ih.step (.accept _ out committed)
  | reject _ out ih => exact ih.step (.reject _ out)

/-- A clear record that leaves has no ghosts iff it is exposed. -/
theorem Holds.ghostFree_sent_iff (h : x.Holds) (clear : x.record.Clear .empty)
    {patch : Message} {d : Delta} {r : Record τ}
    (sent : x.record.synchronize = some (patch, d, r)) :
    r.GhostFree d ↔ x.record.Exposed := by
  obtain ⟨-, -, rfl, rfl⟩ := Record.synchronize_eq_some.mp sent
  rw [h.sound.markSent.ghostFree_iff_clear, h.sound.clear_markSent_iff clear]

/-- When an attempt is accepted a clear record has no ghosts iff the user sees nothing
that the attempt removed. -/
theorem Holds.ghostFree_accepted_iff (h : x.Holds) {d : Delta} {seen : Message}
    (out : x.outstanding = some (d, seen)) (clear : x.record.Clear d) {r : Record τ}
    (committed : x.record.commit d = .ok r) :
    r.GhostFree .empty ↔ x.record.Releases d := by
  obtain ⟨r₀, sound₀, rfl, -, trunk⟩ := h.outstanding d seen out
  have suits := h.suits out
  obtain ⟨-, rfl⟩ := (h.sound.commit_eq_ok_iff suits).mp committed
  rw [(h.sound.advance suits).ghostFree_iff_clear,
    h.sound.clear_advance_iff sound₀ trunk clear]

/-- Every step of a careful exchange keeps its record clear. -/
theorem Careful.clear (h : Careful type x) : x.record.Clear x.told := by
  induction h with
  | blank id => exact Record.clear_blank type id _
  | decoded made => exact Record.clear_of_ofMessage _ type _ made _
  | edit edit before ih =>
      obtain ⟨clashed, seated⟩ := before.reachable.seated
      exact ih.edit seated edit
  | send before idle exposed sent ih =>
      rw [told_of_idle idle] at ih
      have sound := (before.reachable.step (.send _ idle sent)).holds.sound
      exact sound.ghostFree_iff_clear.mp
        ((before.reachable.holds.ghostFree_sent_iff ih sent).mpr exposed)
  | accept before out released committed ih =>
      rw [told_of_out out] at ih
      have sound := (before.reachable.step (.accept _ out committed)).holds.sound
      exact sound.ghostFree_iff_clear.mp
        ((before.reachable.holds.ghostFree_accepted_iff out ih committed).mpr released)
  | reject before out ih =>
      rw [told_of_out out] at ih
      have holds := before.reachable.holds
      exact holds.sound.clear_rollback (holds.suits out) ih

/-- In a careful exchange no set at any depth has a ghost, an element that neither the
baseline nor the attempt has goes without a trace, and an id that no side has starts from
the record that is added.  When the record leaves this stays so iff it is exposed, when
the attempt is accepted iff the user sees nothing that it removed, and when it is rejected
always. -/
theorem Careful.no_ghosts (h : Careful type x) :
    x.record.GhostFree x.told ∧
    (∀ edit, Record.GhostFree (x.record.edit edit).1 x.told) ∧
    (∀ patch d r, x.outstanding = none → x.record.synchronize = some (patch, d, r) →
      (r.GhostFree d ↔ x.record.Exposed)) ∧
    ∀ d seen, x.outstanding = some (d, seen) →
      (x.record.rollback d).GhostFree .empty ∧
        ∃ r, x.record.commit d = .ok r ∧ (r.GhostFree .empty ↔ x.record.Releases d) := by
  have holds := h.reachable.holds
  refine ⟨holds.sound.ghostFree_iff_clear.mpr h.clear, ?_, ?_, ?_⟩
  · intro edit
    have edited := Careful.edit edit h
    exact edited.reachable.holds.sound.ghostFree_iff_clear.mpr edited.clear
  · intro patch d r idle sent
    exact holds.ghostFree_sent_iff (told_of_idle idle ▸ h.clear) sent
  · intro d seen out
    have rejected := Careful.reject h out
    refine ⟨rejected.reachable.holds.sound.ghostFree_iff_clear.mpr rejected.clear, ?_⟩
    obtain ⟨r, committed, -⟩ := holds.commit out
    exact ⟨r, committed,
      holds.ghostFree_accepted_iff out (told_of_out out ▸ h.clear) committed⟩

/-- An attachment is added and sent, and removed while the attempt is out; when the
attempt has been rejected the attachment is gone. -/
theorem no_ghosts_of_rejected_attachment :
    ∃ x : Exchange Entity, Careful .task x ∧ x.outstanding = none ∧
      x.record.sets.map (·.elements.map Element.id) = [[]] ∧
      x.record.GhostFree x.told := by
  have blank : Careful Entity.task (start (.blank .task 1)) := .blank 1
  have added := blank.edit (.within "attachments" (.add (.blank 7) []))
  have sent := added.send rfl (.of_childless (by decide +kernel))
    (Record.synchronize_eq_some.mpr ⟨by decide, rfl, rfl, rfl⟩)
  have removed := sent.edit (.within "attachments" (.remove 7))
  have rejected := removed.reject rfl
  exact ⟨_, rejected, rfl, by decide +kernel, rejected.no_ghosts.1⟩

/-- A task that the baseline has is given an attachment with a file name and removed; the
removal is sent and rejected.  The attachment was marked with it and stays so: when the
task is added again and the attachment removed, it is a ghost, and adding it anew brings
the file name back. -/
theorem ghost_below_removed_task :
    ∃ (x : Exchange Entity) (r : Record Entity) (c : Delta) (s : ElementSet Entity)
      (e : Element Entity), Reachable .probe x ∧ x.outstanding = none ∧
      x.record.Reaches .empty r c ∧ s ∈ r.sets ∧ e ∈ s.elements ∧
      e.isPresent s.decl.kind = false ∧ e.isRemotePresent s.decl.kind = false ∧
      ((s.edit (.add (.blank e.id) [])).1.find? e.id).bind (·.record.value? "filename") =
        some (.text "a") := by
  have made : Record.ofMessage Entity.probe
      ⟨1, [], [⟨"tasks", [.blank 2]⟩], none, none, none⟩ = .ok _ := rfl
  have decoded : Reachable Entity.probe (start _) := .decoded made
  have added := decoded.step (.edit _ (.within "tasks" (.update 2
    [.within "attachments" (.add (.blank 7) [.write "filename" (.text "a")])])))
  have removed := added.step (.edit _ (.within "tasks" (.remove 2)))
  have sent := removed.step
    (.send _ rfl (Record.synchronize_eq_some.mpr ⟨by decide, rfl, rfl, rfl⟩))
  have rejected := sent.step (.reject _ rfl)
  have restored := rejected.step (.edit _ (.within "tasks" (.add (.blank 2)
    [.within "attachments" (.remove 7)])))
  refine ⟨_, _, _, _, _, restored, rfl,
    .found "tasks" 2 (by decide +kernel) (by decide +kernel),
    SortedList.mem_of_find? (Option.some_get (x := Record.set? _ "attachments")
      (by decide +kernel)).symm,
    SortedList.mem_of_find? (Option.some_get (x := ElementSet.find? _ 7)
      (by decide +kernel)).symm, ?_⟩
  decide +kernel

end Exchange

end RecordSync
