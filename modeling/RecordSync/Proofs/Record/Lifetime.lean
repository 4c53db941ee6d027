import RecordSync.Proofs.Record.Listing

/-!
# The positions that a set gave out

An ordered set counts the positions that it gives out, from zero on.  A removal takes an
element off its position, an exchange hands positions over, and a commit may bring an old
one back into the baseline from the delta of an attempt, even if the element has been
removed or added again since.  The count is never taken back, so a position that is given
out is one that no element ever had.

**Lifetime.**  Whether a position was in use is a question about all states that the set
has gone through.  `ElementSet.Lifetime` keeps them, with the deltas of all attempts.

**Results.**
* `ElementSet.Lifetime.holds`: all positions, also those that are told in attempts, were
  given out.
* `ElementSet.fresh_of_add`: the place of an added element that the baseline does not
  have.
-/

namespace RecordSync

variable {τ : Type}

namespace ElementSet

/-- The position is none at all, or the set has given it out. -/
def GaveOut (s : ElementSet τ) (p : Int) : Prop :=
  p = absentPosition ∨ 0 ≤ p ∧ p < s.nextPosition

/-- The states of a set that was made, edited, sent, and told of the outcome of attempts,
the newest first, and the deltas of the attempts. -/
inductive Lifetime [Catalog τ] (decl : SetDecl τ) :
    List (ElementSet τ) → List (List ElementDelta) → Prop
  | blank : Lifetime decl [.blank decl] []
  | decoded {messages : List Message} {s : ElementSet τ} :
      ElementSet.ofMessages decl messages = .ok s → Lifetime decl [s] []
  | edit {s : ElementSet τ} {past : List (ElementSet τ)} {attempts : List (List ElementDelta)}
      (edit : SetEdit) : Lifetime decl (s :: past) attempts →
        Lifetime decl ((s.edit edit).1 :: s :: past) attempts
  /-- An attempt begins. -/
  | take {s : ElementSet τ} {past : List (ElementSet τ)}
      {attempts : List (List ElementDelta)} :
      Lifetime decl (s :: past) attempts → Lifetime decl (s :: past) (s.delta :: attempts)
  | markSent {s : ElementSet τ} {past : List (ElementSet τ)}
      {attempts : List (List ElementDelta)} :
      Lifetime decl (s :: past) attempts →
      Lifetime decl (s.markSent :: s :: past) attempts
  | commit {s : ElementSet τ} {past : List (ElementSet τ)}
      {attempts : List (List ElementDelta)} {d : List ElementDelta} :
      Lifetime decl (s :: past) attempts → d ∈ attempts →
        Lifetime decl ((s.commitInPlace d).2.1 :: s :: past) attempts
  | rollback {s : ElementSet τ} {past : List (ElementSet τ)}
      {attempts : List (List ElementDelta)} {d : List ElementDelta} :
      Lifetime decl (s :: past) attempts → d ∈ attempts →
        Lifetime decl (s.rollback d :: s :: past) attempts

section Range

variable {s s' : ElementSet τ} {p : Int}

theorem GaveOut.mono (h : s.GaveOut p) (next : s.nextPosition ≤ s'.nextPosition) :
    s'.GaveOut p :=
  h.imp_right (And.imp_right (fun below => below.trans_le next))

theorem Seated.gaveOut {clashed : Bool} (h : s.Seated clashed) (ranged : s.Ranged)
    (used : s.Uses p) : s.GaveOut p := by
  have above := h.above p used
  have below := ranged p used
  have absent : absentPosition = -1 := rfl
  rw [GaveOut]
  omega

/-- A set that takes the positions of a delta into its baseline uses no others beside its
own. -/
theorem reseats_advance (hs : SortedList.Sorted Element.id s.elements)
    (d : List ElementDelta) : s.Reseats (Tells d) false (s.advance d) :=
  (reseats_settled (fun x e => ⟨e.advance_id x, (e.position_advance x).1⟩)
    (fun x hx e => (e.position_advance x).2.imp_right (fun told => ⟨x, hx, told⟩)) hs
    false).recount

/-- The next position has not been given out. -/
theorem not_gaveOut (nonneg : 0 ≤ s.nextPosition) (above : s.nextPosition ≤ p) :
    ¬ s.GaveOut p := by
  have absent : absentPosition = -1 := rfl
  rw [GaveOut]
  omega

end Range

variable {decl : SetDecl τ} {s s' : ElementSet τ} {past : List (ElementSet τ)}
  {attempts : List (List ElementDelta)}

section Bounds

variable [Catalog τ]

/-- What holds of the states of an ordered set and of its attempts. -/
structure Lifetime.Holds (decl : SetDecl τ) (s : ElementSet τ)
    (past : List (ElementSet τ)) (attempts : List (List ElementDelta)) : Prop where
  decl_eq : s.decl = decl
  sound : s.Sound
  nonneg : 0 ≤ s.nextPosition
  next_le : ∀ t ∈ past, t.nextPosition ≤ s.nextPosition
  uses : ∀ t ∈ s :: past, ∀ p, t.Uses p → s.GaveOut p
  suits : ∀ d ∈ attempts, decl.Suits d
  told : ∀ d ∈ attempts, ∀ p, Tells d p → s.GaveOut p

/-- A step that brings in none but positions that were given out adds a state. -/
theorem Lifetime.Holds.reseats {given : Int → Prop} {clash : Bool}
    (h : Holds decl s past attempts) (moved : s.Reseats given clash s') (sound : s'.Sound)
    (range : ∀ p, given p → s'.GaveOut p) : Holds decl s' (s :: past) attempts where
  decl_eq := moved.decl_eq.trans h.decl_eq
  sound := sound
  nonneg := h.nonneg.trans moved.next_le
  next_le := List.forall_mem_cons.mpr
    ⟨moved.next_le, fun t ht => (h.next_le t ht).trans moved.next_le⟩
  uses := by
    have before : ∀ t ∈ s :: past, ∀ p, t.Uses p → s'.GaveOut p :=
      fun t ht p used => (h.uses t ht p used).mono moved.next_le
    refine List.forall_mem_cons.mpr ⟨fun p used => ?_, before⟩
    exact (moved.uses p used).elim (before s List.mem_cons_self p) (range p)
  suits := h.suits
  told := fun d hd p told => (h.told d hd p told).mono moved.next_le

/-- A set that was just made gave out the positions that it uses. -/
theorem Lifetime.Holds.first {clashed : Bool} (kind : s.decl = decl) (sound : s.Sound)
    (seated : s.Seated clashed) (ranged : s.Ranged) : Holds decl s [] [] where
  decl_eq := kind
  sound := sound
  nonneg := seated.nonneg
  next_le := nofun
  uses := List.forall_mem_singleton.mpr (fun _ used => seated.gaveOut ranged used)
  suits := nofun
  told := nofun

/-- Every position in use, and every one that is told in an attempt, was given out by the
set. -/
theorem Lifetime.holds (ordered : decl.kind = .ordered)
    (h : Lifetime decl (s :: past) attempts) : Holds decl s past attempts := by
  generalize states : s :: past = run at h
  induction h generalizing s past with
  | blank =>
      cases states
      obtain ⟨kind, sound, -⟩ := Follows.holds_blank decl
      refine .first kind sound (seated_blank decl) ?_
      rintro p ⟨e, he, -⟩
      cases he
  | decoded loaded =>
      cases states
      obtain ⟨kind, sound, -⟩ := Follows.holds_decoded ordered loaded
      obtain ⟨seated, ranged⟩ := seated_of_load loaded (kind ▸ ordered)
      exact .first kind sound seated ranged
  | @edit s _ _ edit _ ih =>
      cases states
      have ih := ih rfl
      have moved := reseats_edit (ih.decl_eq ▸ ordered) ih.sound.tidy.sorted edit
      refine ih.reseats moved (ih.sound.edit edit).1.sound ?_
      rintro p (absent | ⟨rfl, allotted⟩)
      · exact .inl absent
      · exact .inr ⟨ih.nonneg, allotted⟩
  | take _ ih =>
      cases states
      have ih := ih rfl
      have suits := ih.sound.suits_delta
      rw [ih.decl_eq] at suits
      exact { ih with
        suits := List.forall_mem_cons.mpr ⟨suits, ih.suits⟩
        told := List.forall_mem_cons.mpr
          ⟨fun p told => ih.uses _ List.mem_cons_self p (uses_of_tells told), ih.told⟩ }
  | markSent _ ih =>
      cases states
      have ih := ih rfl
      exact ih.reseats (reseats_markSent ih.sound.tidy.sorted) ih.sound.markSent nofun
  | @commit s _ _ d _ hd ih =>
      cases states
      have ih := ih rfl
      have suits := ih.decl_eq ▸ ih.suits d hd
      rcases ih.sound.commitInPlace suits with ⟨-, taken⟩ | ⟨-, kept⟩
      · rw [taken]
        have moved := reseats_advance ih.sound.tidy.sorted d
        exact ih.reseats moved (ih.sound.advance suits)
          (fun p told => (ih.told d hd p told).mono moved.next_le)
      · rw [kept]
        exact ih.reseats (.refl ih.sound.tidy.sorted (fun _ => False) false) ih.sound nofun
  | @rollback s _ _ d _ hd ih =>
      cases states
      have ih := ih rfl
      have suits := ih.decl_eq ▸ ih.suits d hd
      exact ih.reseats (reseats_rollback ih.sound.tidy.sorted suits.1)
        (ih.sound.rollback suits) nofun

end Bounds

section Fresh

variable [Catalog τ]

/-- An added element that the baseline does not have, be it a new one or one that comes
back, takes the next position. -/
theorem fresh_of_add (ordered : s.decl.kind = .ordered) {seed : Seed} {record : Record τ}
    (made : seed.record s.decl.element = .ok record)
    (unseen : s.present? record.id = none)
    (alone : ∀ old, s.find? record.id = some old → old.position.remote = absentPosition)
    (edits : List Edit) : ∃ e, (s.edit (.add seed edits)).1.find? record.id = some e ∧
      e.position.current = s.nextPosition := by
  cases opens : s.open? record with
  | error error =>
      obtain ⟨-, e, present⟩ := present_of_open?_error opens
      rw [unseen] at present
      cases present
  | ok result =>
      obtain ⟨opened, e, was⟩ := result
      obtain ⟨hid, -, -, -, place⟩ := placement_of_open? ordered opens
      have added : (seed.record s.decl.element).bind s.open? = .ok (opened, e, was) := by
        rw [made]
        exact opens
      have id : Element.id { e with record := (e.record.editAll edits).1 } = record.id :=
        (e.record.editAll_id edits).trans hid
      rw [ElementSet.edit, added]
      cases place with
      | allotted _ current =>
          refine ⟨{ e with record := (e.record.editAll edits).1 }, ?_, current⟩
          exact (SortedList.find?_insert _ _ _ _).trans (if_pos id)
      | restored found _ there => exact absurd (alone _ found) there

end Fresh

end ElementSet

end RecordSync
