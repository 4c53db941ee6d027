import RecordSync.Proofs.Record.Ghosts
import RecordSync.Proofs.Record.Lifetime
import RecordSync.Proofs.Record.Reloading

/-!
# Lifetimes at every depth

A set that is nested in a record is never edited, sent or settled by itself, and its
element may be dropped and made anew, with a new set.  In an exchange every such set is
nevertheless in a lifetime of its own: what is done with the record does to the set what
its lifetime allows, and what the attempt that is out says of the set was told by this set
and by no earlier one of its element.

**Why no earlier one.**  An element that is named by the attempt that is out is marked as
sent, and the trunk of the record does not change while the attempt is out.  So an element
that is new is not named.

**Results.**
* `Record.Lives.edit`, `Record.Lives.markSent`, `Record.Lives.advance`,
  `Record.Lives.rollback`: what is done with a record continues the lifetimes of its sets.
* `Exchange.Reachable.lives`: the sets of a record that is exchanged are in their
  lifetimes.
* `ElementSet.positions_never_reused`: the position of a new element is one that no
  element had.
-/

namespace RecordSync

variable {τ : Type} [Catalog τ]

/-- The set is in a lifetime, and what a delta says of it is one of its attempts. -/
def ElementSet.Alive (s : ElementSet τ) (d : Delta) : Prop :=
  ∃ past attempts, ElementSet.Lifetime s.decl (s :: past) attempts ∧
    ∀ x, d.set? s.name = some x → x.elements ∈ attempts

/-- The sets of a record, and those of the records nested in it, are in their
lifetimes. -/
inductive Record.Lives : Record τ → Delta → Prop
  | intro {r : Record τ} {d : Delta} :
      (∀ s ∈ r.sets, s.Alive d) →
      (∀ s ∈ r.sets, ∀ e ∈ s.elements, Lives e.record (d.changeOf s.name e.id).record) →
      Lives r d

/-- The delta is that of no attempt, or it was taken of a record of one trunk with this
one. -/
def Record.Tied (r : Record τ) (d : Delta) : Prop :=
  d = .empty ∨ ∃ r₀ : Record τ, r₀.Sound ∧ d = r₀.delta ∧ r.trunk = r₀.markSent.trunk

variable {r : Record τ} {s : ElementSet τ} {e : Element τ} {d : Delta}

section Basics

/-- Outside an attempt nothing is said of a set. -/
theorem ElementSet.Lifetime.alive {past : List (ElementSet τ)}
    {attempts : List (List ElementDelta)}
    (life : ElementSet.Lifetime s.decl (s :: past) attempts) : s.Alive .empty :=
  ⟨past, attempts, life, fun _ told => by cases told⟩

theorem ElementSet.Alive.forget (h : s.Alive d) : s.Alive .empty := by
  obtain ⟨past, attempts, life, -⟩ := h
  exact life.alive

namespace Record.Lives

theorem own (h : r.Lives d) (hs : s ∈ r.sets) : s.Alive d := by
  cases h with
  | intro own _ => exact own s hs

theorem nested (h : r.Lives d) (hs : s ∈ r.sets) (he : e ∈ s.elements) :
    e.record.Lives (d.changeOf s.name e.id).record := by
  cases h with
  | intro _ nested => exact nested s hs e he

/-- When the attempt is over, the sets are in their lifetimes still. -/
theorem forget (h : r.Lives d) : r.Lives .empty := by
  induction h with
  | intro own _ ih => exact .intro (fun s hs => (own s hs).forget) ih

/-- The sets at every place are in their lifetimes. -/
theorem reaches {x : Record τ} {c : Delta} (reaches : r.Reaches d x c) (h : r.Lives d) :
    x.Lives c := by
  induction reaches with
  | here => exact h
  | nested hs he _ ih => exact ih (h.nested hs he)

/-- The lifetimes go on when one set of the record becomes another one. -/
theorem putSet (h : r.Lives d) (alive : s.Alive d)
    (inner : ∀ e ∈ s.elements, e.record.Lives (d.changeOf s.name e.id).record)
    {name : String} {dirty : Nat} : Record.Lives { r with
      dirty := dirty, sets := SortedList.modify ElementSet.name name (fun _ => s) r.sets }
        d := by
  refine .intro (fun t ht => ?_) (fun t ht => ?_)
  · rcases SortedList.eq_or_mem_of_mem_modify ht with rfl | ht
    · exact alive
    · exact h.own ht
  · rcases SortedList.eq_or_mem_of_mem_modify ht with rfl | ht
    · exact inner
    · exact fun e he => h.nested ht he

end Record.Lives

theorem Record.lives_blank (type : τ) (id : Int) :
    (Record.blank type id).Lives .empty := by
  refine .intro (fun s hs => ?_) (fun s hs e he => ?_)
  · obtain ⟨decl, -, rfl⟩ := List.mem_map.mp hs
    exact ElementSet.Lifetime.blank.alive
  · obtain ⟨decl, -, rfl⟩ := List.mem_map.mp hs
    cases he

theorem Record.lives_of_ofMessage (m : Message) :
    ∀ (type : τ) r, Record.ofMessage type m = .ok r → r.Lives .empty := by
  induction m using Message.childrenOf_induction with
  | step m ih =>
      intro type r h
      obtain ⟨own, sets, -, ⟨-, loads⟩, rfl⟩ := Record.ofMessage_eq_ok.mp h
      refine .intro (fun s hs => (ElementSet.Lifetime.decoded (loads s hs)).alive)
        (fun s hs e he => ?_)
      rcases ElementSet.elements_of_load (loads s hs) e he with there | ⟨c, hc, loaded⟩
      · cases there
      · exact ih s.name c hc _ _ loaded.decoded

theorem Seed.lives {type : τ} {seed : Seed} (h : seed.record type = .ok r) :
    r.Lives .empty := by
  cases seed with
  | blank id =>
      cases h
      exact Record.lives_blank type id
  | message content => exact Record.lives_of_ofMessage content type r h

end Basics

section Ties

namespace Record.Tied

/-- The record of an element is tied to what the delta says of it. -/
theorem nested (h : r.Tied d) (sound : r.Sound) (hs : s ∈ r.sets) (he : e ∈ s.elements) :
    e.record.Tied (d.changeOf s.name e.id).record := by
  rcases h with rfl | ⟨r₀, sound₀, rfl, trunk⟩
  · exact .inl rfl
  · cases named : r₀.delta.change? s.name e.id with
    | none =>
        rw [Delta.changeOf_of_unnamed named]
        exact .inl rfl
    | some y =>
        rw [Delta.changeOf_of_named named]
        obtain ⟨e₀, named₀⟩ := sound.namedIn_of_trunk sound₀ trunk hs he named
        cases here : e₀.isPresent s.decl.kind with
        | true => exact .inr ⟨e₀.record, named₀.sound, named₀.record_of_present here,
            named₀.trunk⟩
        | false => exact .inl (named₀.record_of_absent here)

/-- An element that was never sent is not named. -/
theorem unnamed (h : r.Tied d) (sound : r.Sound) (hs : s ∈ r.sets) (he : e ∈ s.elements)
    (unsent : e.sent = false) : d.change? s.name e.id = none := by
  rcases h with rfl | ⟨r₀, sound₀, rfl, trunk⟩
  · rfl
  · cases named : r₀.delta.change? s.name e.id with
    | none => rfl
    | some y =>
        obtain ⟨e₀, named₀⟩ := sound.namedIn_of_trunk sound₀ trunk hs he named
        rw [named₀.sent] at unsent
        cases unsent

theorem edit (h : r.Tied d) (sound : r.Sound) (edit : Edit) : (r.edit edit).1.Tied d := by
  rcases h with rfl | ⟨r₀, sound₀, rfl, trunk⟩
  · exact .inl rfl
  · exact .inr ⟨r₀, sound₀, rfl, (sound.edit edit).1.trunk_eq.trans trunk⟩

end Record.Tied

end Ties

section Edits

mutual

/-- An edit of a record continues the lifetimes of its sets. -/
theorem Record.Lives.edit {r : Record τ} {d : Delta} (h : r.Lives d) (sound : r.Sound)
    (tied : r.Tied d) : (edit : Edit) → (r.edit edit).1.Lives d
  | .write field value => by
      rw [Record.edit, Record.writeField]
      split
      · exact h
      · split
        · exact .intro (fun s hs => h.own hs) (fun s hs e he => h.nested hs he)
        · exact h
  | .within set edit => by
      have sound' := (sound.edit (.within set edit)).1.sound
      have tied' := tied.edit sound (.within set edit)
      rw [Record.edit] at sound' tied' ⊢
      cases found : r.set? set with
      | none => exact h
      | some s =>
          rw [found] at sound' tied'
          have hs := SortedList.mem_of_find? found
          have name : (s.edit edit).1.name = s.name :=
            congrArg SetDecl.name (s.edit_decl edit)
          have hs' : (s.edit edit).1 ∈ SortedList.modify ElementSet.name
              (s.edit edit).1.name (fun _ => (s.edit edit).1) r.sets :=
            List.mem_map.mpr ⟨s, hs, if_pos name.symm⟩
          have unnamed : ∀ x ∈ (s.edit edit).1.elements, x.sent = false →
              d.change? s.name x.id = none := fun x hx unsent =>
            name ▸ tied'.unnamed sound' hs' hx unsent
          obtain ⟨past, attempts, life, told⟩ := h.own hs
          refine h.putSet ?_ (name ▸ ElementSet.lives_of_edit h sound tied hs edit unnamed)
          have life' := life.edit edit
          rw [← s.edit_decl edit] at life'
          exact ⟨_, attempts, life', name ▸ told⟩

theorem Record.Lives.editAll {r : Record τ} {d : Delta} (h : r.Lives d) (sound : r.Sound)
    (tied : r.Tied d) : (edits : List Edit) → (r.editAll edits).1.Lives d
  | [] => by
      rw [Record.editAll]
      exact h
  | edit :: rest => by
      rw [Record.editAll]
      exact Record.Lives.editAll (Record.Lives.edit h sound tied edit)
        (sound.edit edit).1.sound (tied.edit sound edit) rest

/-- The records in a set that was edited live on; those of new elements begin. -/
theorem ElementSet.lives_of_edit {r : Record τ} {d : Delta} (h : r.Lives d)
    (sound : r.Sound) (tied : r.Tied d) {s : ElementSet τ} (hs : s ∈ r.sets) :
    (edit : SetEdit) →
    (∀ x ∈ (s.edit edit).1.elements, x.sent = false → d.change? s.name x.id = none) →
      ∀ x ∈ (s.edit edit).1.elements, x.record.Lives (d.changeOf s.name x.id).record
  | .add seed edits => by
      intro unnamed x hx
      cases s.origin_of_edit (.add seed edits) x hx with
      | kept hold shifts => exact shifts.id_eq ▸ shifts.record_eq ▸ h.nested hs hold
      | added made fresh _ =>
          subst fresh
          rw [Delta.changeOf_of_unnamed (unnamed _ hx (by cases s.decl.kind <;> rfl)),
            Element.record_fresh]
          exact Record.Lives.editAll (Seed.lives made) (Seed.made made).sound
            (.inl rfl) edits
      | @restored _ _ old e hold shifts _ =>
          have lives : e.record.Lives (d.changeOf s.name e.id).record :=
            shifts.id_eq ▸ shifts.record_eq ▸ h.nested hs hold
          have sound' : e.record.Sound := shifts.record_eq ▸ sound.nested hs hold
          have tied' : e.record.Tied (d.changeOf s.name e.id).record :=
            shifts.id_eq ▸ shifts.record_eq ▸ tied.nested sound hs hold
          rw [Element.id, e.record.editAll_id]
          exact Record.Lives.editAll lives sound' tied' edits
  | .update id edits => by
      intro _ x hx
      cases s.origin_of_edit (.update id edits) x hx with
      | kept hold shifts => exact shifts.id_eq ▸ shifts.record_eq ▸ h.nested hs hold
      | @updated _ _ e he _ =>
          rw [Element.id, e.record.editAll_id]
          exact Record.Lives.editAll (h.nested hs he) (sound.nested hs he)
            (tied.nested sound hs he) edits
  | .remove id => by
      intro _ x hx
      cases s.origin_of_edit (.remove id) x hx with
      | kept hold shifts => exact shifts.id_eq ▸ shifts.record_eq ▸ h.nested hs hold
  | .swap first second => by
      intro _ x hx
      cases s.origin_of_edit (.swap first second) x hx with
      | kept hold shifts => exact shifts.id_eq ▸ shifts.record_eq ▸ h.nested hs hold

end

end Edits

section Attempts

/-- The attempt that begins is one of those of each set that it tells of. -/
theorem Record.Lives.markSent (h : r.Lives .empty) (sound : r.Sound) :
    r.markSent.Lives r.delta := by
  induction sound with
  | @intro r tidy inner ih =>
      rw [Record.markSent_eq]
      refine .intro (fun s' hs' => ?_) (fun s' hs' e' he' => ?_)
      · obtain ⟨s, hs, rfl⟩ := List.mem_map.mp hs'
        obtain ⟨past, attempts, life, -⟩ := h.own hs
        refine ⟨s :: past, s.delta :: attempts, life.take.markSent, fun x found => ?_⟩
        rw [ElementSet.markSent_name, Delta.set?, tidy.find?_delta hs] at found
        rw [ElementSet.delta?_eq_some found]
        exact List.mem_cons_self
      · obtain ⟨s, hs, rfl⟩ := List.mem_map.mp hs'
        rw [ElementSet.markSent_eq] at he'
        obtain ⟨e, he, rfl⟩ := List.mem_map.mp he'
        have lives : e.record.Lives .empty := h.nested hs he
        have change := tidy.change?_delta hs he
        rw [ElementSet.markSent_name, e.markSent_id, Element.markSent]
        rw [Element.delta?] at change
        split
        next dirty =>
          rw [if_pos dirty] at change
          rw [Delta.changeOf_of_named change]
          have begun := ih s hs e he lives
          dsimp only
          split
          · exact begun
          · exact begun.forget
        next clean =>
          rw [if_neg clean] at change
          rw [Delta.changeOf_of_unnamed change]
          exact lives

/-- The lifetimes go on when the elements that a delta names are settled, if each set goes
on and so do the records of these elements. -/
theorem Record.Lives.settle (h : r.Lives d) (move : Field → Field)
    (change : SetKind → ElementDelta → Element τ → Element τ)
    (own : ∀ s ∈ r.sets, ∀ x, d.set? s.name = some x → ∀ past attempts, x.elements ∈ attempts →
      ElementSet.Lifetime s.decl (s :: past) attempts →
        ElementSet.Lifetime s.decl (ElementSet.recount { s with
          elements := s.elements.filterMap
            (Element.settled s.decl.kind (change s.decl.kind) x.elements) } :: s :: past)
            attempts)
    (inner : ∀ s ∈ r.sets, ∀ e ∈ s.elements, ∀ x, d.set? s.name = some x → ∀ y ∈ x.elements,
      e.id = y.id → e.record.Lives y.record →
      (change s.decl.kind y e).record.Lives .empty) :
    (Record.recount { r with
      fields := r.fields.map move
      sets := r.sets.map (ElementSet.visited (fun changes s => { s with
        elements := s.elements.filterMap
          (Element.settled s.decl.kind (change s.decl.kind) changes) }.recount)
          d.sets) }).Lives
      .empty := by
  refine .intro (fun s' hs' => ?_) (fun s' hs' e' he' => ?_)
  · obtain ⟨s, hs, rfl⟩ := List.mem_map.mp hs'
    obtain ⟨past, attempts, life, told⟩ := h.own hs
    rw [ElementSet.visited]
    split
    next => exact life.alive
    next x found =>
      exact (own s hs x found past attempts (told x found) life).alive
  · obtain ⟨s, hs, rfl⟩ := List.mem_map.mp hs'
    rw [ElementSet.visited] at he'
    split at he'
    next => exact (h.nested hs he').forget
    next x found =>
      obtain ⟨e, he, settled⟩ := List.mem_filterMap.mp he'
      have lives := h.nested hs he
      rcases Element.settled_eq_some.mp settled with ⟨-, rfl⟩ | ⟨y, named, -, rfl⟩
      · exact lives.forget
      · have change : d.change? s.name e.id = some y := by
          rw [Delta.change?, Delta.set?, found]
          exact named
        rw [Delta.changeOf_of_named change] at lives
        exact inner s hs e he x found y (SortedList.mem_of_find? named)
          (SortedList.key_of_find? named).symm lives

/-- An attempt that is accepted is committed in each set that it tells of. -/
theorem Record.Lives.advance (h : r.Lives d) (sound : r.Sound) (suits : d.Suits r.type)
    (check : r.checkCommit d = .ok ()) : (r.advance d).Lives .empty := by
  induction sound generalizing d with
  | @intro r tidy inner ih =>
      have sound : r.Sound := .intro tidy inner
      rw [Record.checkCommit_eq, checkSets_iff] at check
      have passed : ∀ s ∈ r.sets, ∀ x, d.set? s.name = some x →
          s.checkCommit x.elements = .ok () := by
        intro s hs x found
        refine check x (SortedList.mem_of_find? found) s ?_
        rw [SortedList.key_of_find? found]
        exact SortedList.find?_of_mem tidy.set_names hs
      have fits : ∀ s ∈ r.sets, ∀ x, d.set? s.name = some x → s.decl.Suits x.elements :=
        fun s hs x found => tidy.suits suits hs found
      rw [Record.advance_eq]
      refine h.settle _ (fun _ => Element.advance) ?_ ?_
      · intro s hs x found past attempts taken life
        have whole : s.Sound := ⟨tidy.sets_tidy s hs, inner s hs⟩
        have committed := life.commit taken
        rw [(whole.committable (fits s hs x found)).commitInPlace_of_check
          (passed s hs x found)] at committed
        exact committed
      · intro s hs e he x found y hy same lives
        have own := (fits s hs x found).2 y hy
        obtain ⟨e', held, accepted⟩ := checkElements_iff.mp (passed s hs x found) y hy
        rw [← same, ElementSet.find?,
          SortedList.find?_of_mem (tidy.sets_tidy s hs).sorted.nodup_keys he] at held
        obtain rfl := Option.some.inj held
        exact ih s hs e he lives ((tidy.sets_tidy s hs).typed e he ▸ own.2) accepted

/-- An attempt that is rejected is rolled back in each set that it tells of. -/
theorem Record.Lives.rollback (h : r.Lives d) (sound : r.Sound) (suits : d.Suits r.type) :
    (r.rollback d).Lives .empty := by
  induction sound generalizing d with
  | @intro r tidy inner ih =>
      have sound : r.Sound := .intro tidy inner
      rw [(sound.accords suits rfl).rollback_eq]
      refine h.settle _ Element.retract ?_ ?_
      · intro s hs x found past attempts taken life
        have sorted := (tidy.suits suits hs found).1
        rw [← ElementSet.rollback_eq (tidy.sets_tidy s hs).sorted sorted]
        exact life.rollback taken
      · intro s hs e he x found y hy _ lives
        have own := (tidy.suits suits hs found).2 y hy
        rw [Element.retract_record]
        exact ih s hs e he lives ((tidy.sets_tidy s hs).typed e he ▸ own.2)

end Attempts

section Exchanges

namespace Exchange

variable {type : τ} {x : Exchange τ}

theorem Holds.tied (h : x.Holds) : x.record.Tied x.told := by
  cases out : x.outstanding with
  | none => exact .inl (told_of_idle out)
  | some attempt =>
      obtain ⟨r₀, sound₀, hd, -, trunk⟩ := h.outstanding attempt.1 attempt.2 out
      rw [told_of_out out]
      exact .inr ⟨r₀, sound₀, hd, trunk⟩

/-- In an exchange the sets at every depth are in their lifetimes. -/
theorem Reachable.lives (h : Reachable type x) : x.record.Lives x.told := by
  induction h with
  | blank id => exact Record.lives_blank type id
  | decoded made => exact Record.lives_of_ofMessage _ type _ made
  | step before hs ih =>
      have holds := before.holds
      cases hs with
      | edit edit => exact ih.edit holds.sound holds.tied edit
      | send idle sent =>
          obtain ⟨-, -, rfl, rfl⟩ := Record.synchronize_eq_some.mp sent
          rw [told_of_idle idle] at ih
          exact ih.markSent holds.sound
      | accept out committed =>
          rw [told_of_out out] at ih
          have suits := holds.suits out
          obtain ⟨check, rfl⟩ := (holds.sound.commit_eq_ok_iff suits).mp committed
          exact ih.advance holds.sound suits check
      | reject out =>
          rw [told_of_out out] at ih
          exact ih.rollback holds.sound (holds.suits out)

end Exchange

/-- Over the lifetime of an ordered set the next position is never taken back; every
position that an element has, locally or in the baseline, and every one that is told in an
attempt, is below it; and an element that is added and that the baseline does not have
gets a position that no element of the set had in any of its states, and that no attempt
tells.  The sets of a record that is exchanged are in lifetimes at every depth, with what
the attempt that is out tells of them. -/
theorem ElementSet.positions_never_reused {decl : SetDecl τ}
    (ordered : decl.kind = .ordered) :
    (∀ s past attempts, Lifetime decl (s :: past) attempts →
      (∀ t ∈ past, t.nextPosition ≤ s.nextPosition) ∧
      (∀ e ∈ s.elements, s.GaveOut e.position.current ∧ s.GaveOut e.position.remote) ∧
      (∀ d ∈ attempts, ∀ y ∈ d, ∀ p, y.position = some p → s.GaveOut p) ∧
      ∀ seed edits record, seed.record decl.element = .ok record →
      s.present? record.id = none →
        (∀ old, s.find? record.id = some old → old.position.remote = absentPosition) →
        ∃ e, (s.edit (.add seed edits)).1.find? record.id = some e ∧
          e.position.current = s.nextPosition ∧
          (∀ t ∈ s :: past, ∀ old ∈ t.elements,
            e.position.current ≠ old.position.current ∧
            e.position.current ≠ old.position.remote) ∧
          ∀ d ∈ attempts, ∀ y ∈ d, y.position ≠ some e.position.current) ∧
    ∀ (type : τ) (x : Exchange τ), Exchange.Reachable type x →
      ∀ r d, x.record.Reaches x.told r d → ∀ s ∈ r.sets, s.decl = decl →
        ∃ past attempts, Lifetime decl (s :: past) attempts ∧
          ∀ c, d.set? s.name = some c → c.elements ∈ attempts := by
  refine ⟨fun s past attempts life => ?_, fun type x reached r d place s hs kind => ?_⟩
  · obtain ⟨rfl, -, nonneg, next_le, uses, -, told⟩ := life.holds ordered
    refine ⟨next_le, fun e he => ⟨?_, ?_⟩, fun d hd y hy p tells => ?_, ?_⟩
    · exact uses s List.mem_cons_self _ ⟨e, he, .inl rfl⟩
    · exact uses s List.mem_cons_self _ ⟨e, he, .inr rfl⟩
    · exact told d hd p ⟨y, hy, tells⟩
    · intro seed edits record made unseen alone
      obtain ⟨e, found, current⟩ := fresh_of_add ordered made unseen alone edits
      have fresh : ¬ s.GaveOut e.position.current := not_gaveOut nonneg current.ge
      refine ⟨e, found, current, fun t ht old hold => ⟨fun same => ?_, fun same => ?_⟩,
        fun d hd y hy same => ?_⟩
      · exact fresh (uses t ht _ ⟨old, hold, .inl same⟩)
      · exact fresh (uses t ht _ ⟨old, hold, .inr same⟩)
      · exact fresh (told d hd _ ⟨y, hy, same⟩)
  · subst kind
    exact (reached.lives.reaches place).own hs

/-- A task is added to a variant that is nested in a probe, and removed while the attempt
that tells of it is out.  When it is added again it does not come back to its first
position. -/
theorem ElementSet.positions_never_reused_of_unconfirmed_task :
    ∃ (x : Exchange Entity) (r : Record Entity) (d : Delta) (s : ElementSet Entity)
    (c : SetDelta),
      Exchange.Reachable .probe x ∧ x.record.Reaches x.told r d ∧ s ∈ r.sets ∧
      s.decl = taskList ∧
        d.set? "tasks" = some c ∧ Tells c.elements 0 ∧
        ∃ e, (s.edit (.add (.blank 5) [])).1.find? 5 = some e ∧
        e.position.current ≠ 0 := by
  obtain ⟨lifelong, exchanged⟩ := @ElementSet.positions_never_reused Entity _ taskList rfl
  have blank : Exchange.Reachable Entity.probe (.start (.blank .probe 1)) := .blank 1
  have added := blank.step (.edit _ (.within "kims"
    (.add (.blank 3) [.within "tasks" (.add (.blank 5) [])])))
  have sent :=
    added.step (.send _ rfl (Record.synchronize_eq_some.mpr ⟨by decide, rfl, rfl, rfl⟩))
  have removed :=
    sent.step (.edit _ (.within "kims" (.update 3 [.within "tasks" (.remove 5)])))
  obtain ⟨past, attempts, life, told⟩ :=
    exchanged _ _ removed _ _ (.found "kims" 3 rfl rfl) _ List.mem_cons_self rfl
  obtain ⟨-, -, -, fresh⟩ := lifelong _ _ _ life
  obtain ⟨e, found, -, -, untold⟩ :=
    fresh (.blank 5) [] _ rfl rfl (fun old found => by cases found; rfl)
  refine ⟨_, _, _, _, _, removed, .found "kims" 3 rfl rfl, List.mem_cons_self, rfl, rfl,
    ⟨_, List.mem_cons_self, rfl⟩, e, found, fun zero => ?_⟩
  exact untold _ (told _ rfl) _ List.mem_cons_self (zero ▸ rfl)

end Exchanges

end RecordSync
