import RecordSync.Entity
import RecordSync.Proofs.Record.Commits
import RecordSync.Proofs.Record.Seating
import RecordSync.Proofs.Record.Standing

/-!
# An ordered set as a list

An ordered set can be reached from one just made by edits, by attempts to send it, and by
commits and rollbacks of these attempts, in any order and any number of times.  As long as
no id is added that was removed, the set behaves as a plain list of ids: edits are those
of the list, and nothing else is seen.

**A set on its own.**  A sound set stays sound without a record around it, whatever is
done with it (`ElementSet.Sound.settle`, `ElementSet.Sound.markSent`).

**Results.**
* `ElementSet.Stands.settle`, `ElementSet.Stands.markSent`: what sending and its outcome
  do to the list, which is nothing.
* `ElementSet.Follows.behaves_as_list`: what a run of edits and attempts does to the ids.
-/

namespace RecordSync

variable {τ : Type}

/-- The changes are such as a set of the declaration can tell. -/
def SetDecl.Suits [Catalog τ] (decl : SetDecl τ) (changes : List ElementDelta) : Prop :=
  SortedList.Sorted ElementDelta.id changes ∧
    ∀ y ∈ changes, y.Shaped decl.kind ∧ y.record.Suits decl.element

namespace ElementSet

section Attempts

variable [Catalog τ] {s : ElementSet τ}

/-- The delta of a sound set is one of its declaration. -/
theorem Sound.suits_delta (h : s.Sound) : s.decl.Suits s.delta := by
  refine ⟨sorted_delta h.tidy.sorted, ?_⟩
  intro y hy
  obtain ⟨e, he, -, rfl⟩ := mem_delta.mp hy
  refine ⟨(h.tidy.shaped e he).delta _ _, ?_⟩
  dsimp only
  split
  · exact h.tidy.typed e he ▸ (h.nested e he).delta_suits
  · exact Delta.suits_empty _

theorem Sound.committable (h : s.Sound) {changes : List ElementDelta}
    (hc : s.decl.Suits changes) : Committable s changes := by
  refine ⟨h.tidy.sorted, hc.1, ?_⟩
  intro y hy e he
  exact ((h.nested e he).accords (hc.2 y hy).2 (h.tidy.typed e he)).commit_of_check

/-- A sound set stays sound when the elements that changes name are settled by a change
that keeps what makes an element. -/
theorem Sound.settle (h : s.Sound) {change : ElementDelta → Element τ → Element τ}
    {changes : List ElementDelta} (keeps : ∀ x e, (change x e).id = e.id)
    (types : ∀ x e, (change x e).record.type = e.record.type)
    (shapes : ∀ x ∈ changes, ∀ e, e.Shaped s.decl.kind → (change x e).Shaped s.decl.kind)
    (inner : ∀ x ∈ changes, ∀ e ∈ s.elements, (change x e).record.Sound) :
    ({ s with elements :=
        s.elements.filterMap (Element.settled s.decl.kind change changes) } :
      ElementSet τ).recount.Sound := by
  refine ⟨h.tidy.settle keeps types shapes, ?_⟩
  intro e' he'
  obtain ⟨e, he, settled⟩ := List.mem_filterMap.mp he'
  rcases Element.settled_eq_some.mp settled with ⟨-, rfl⟩ | ⟨x, found, -, rfl⟩
  · exact h.nested e' he
  · exact inner x (SortedList.mem_of_find? found) e he

theorem Sound.advance (h : s.Sound) {changes : List ElementDelta}
    (hc : s.decl.Suits changes) : (s.advance changes).Sound := by
  refine h.settle Element.advance_id (fun x e => e.record.advance_type x.record) ?_ ?_
  · intro x hx e
    exact Element.Shaped.advance (hc.2 x hx).1
  · intro x hx e he
    exact (h.nested e he).advance (h.tidy.typed e he ▸ (hc.2 x hx).2)

theorem Sound.rollback (h : s.Sound) {changes : List ElementDelta}
    (hc : s.decl.Suits changes) : (s.rollback changes).Sound := by
  rw [rollback_eq h.tidy.sorted hc.1]
  refine h.settle (Element.retract_id s.decl.kind) ?_ ?_ ?_
  · intro x e
    rw [Element.retract_record, Record.rollback_type]
  · exact fun x _ e shaped => shaped.retract x
  · intro x hx e he
    rw [Element.retract_record]
    exact (h.nested e he).rollback (h.tidy.typed e he ▸ (hc.2 x hx).2)

theorem Sound.markSent (h : s.Sound) : s.markSent.Sound := by
  have alike : ∀ e ∈ s.elements, e.Alike (e.markSent s.decl.kind) := by
    intro e he
    rw [Element.markSent]
    split
    · exact ⟨rfl, rfl, (h.nested e he).alike_markSent⟩
    · exact .refl e
  refine ⟨h.tidy.markSent alike, ?_⟩
  intro e' he'
  rw [markSent_eq] at he'
  obtain ⟨e, he, rfl⟩ := List.mem_map.mp he'
  rw [Element.markSent]
  split
  · exact (h.nested e he).markSent
  · exact h.nested e he

/-- A commit in place moves the baseline, or is refused and does nothing. -/
theorem Sound.commitInPlace (h : s.Sound) {changes : List ElementDelta}
    (hc : s.decl.Suits changes) :
    (s.commitInPlace changes).1 = .ok () ∧
      (s.commitInPlace changes).2.1 = s.advance changes ∨
      (∃ error, (s.commitInPlace changes).1 = .error error) ∧
        (s.commitInPlace changes).2.1 = s := by
  cases check : s.checkCommit changes with
  | error error =>
      rw [ElementSet.commitInPlace, check]
      exact .inr ⟨⟨error, rfl⟩, rfl⟩
  | ok _ =>
      rw [(h.committable hc).commitInPlace_of_check check]
      exact .inl ⟨rfl, rfl⟩

omit [Catalog τ] in
/-- A set stands as before when the elements that changes name are settled by a change
that keeps their ids and the positions that the user sees. -/
theorem Stands.settle {l : Roster} (ordered : s.decl.kind = .ordered)
    (hs : SortedList.Sorted Element.id s.elements) (h : s.Stands l)
    {change : ElementDelta → Element τ → Element τ}
    (keeps : ∀ x e, (change x e).id = e.id ∧
      (change x e).position.current = e.position.current)
    (changes : List ElementDelta) :
    ({ s with elements :=
        s.elements.filterMap (Element.settled s.decl.kind change changes) } :
      ElementSet τ).recount.Stands l := by
  have source : ∀ e e' : Element τ, e.settled s.decl.kind change changes = some e' →
      e'.id = e.id ∧ e'.position.current = e.position.current := by
    intro e e' settled
    rcases Element.settled_eq_some.mp settled with ⟨-, rfl⟩ | ⟨x, -, -, rfl⟩
    · exact ⟨rfl, rfl⟩
    · exact keeps x e
  -- an element that goes had no position
  have gone : ∀ e : Element τ, e.settled s.decl.kind change changes = none →
      e.position.current = absentPosition := by
    intro e settled
    rw [Element.settled] at settled
    split at settled
    next => cases settled
    next x _ =>
      split at settled
      next dead =>
        rw [ordered, Element.isDead, Bool.and_assoc, Bool.and_eq_true] at dead
        have here := dead.1
        simpa [Element.isPresent, (keeps x e).2] using here
      next => cases settled
  refine h.congr rfl ?_ ?_
  · intro id
    have find : ({ s with
        elements := s.elements.filterMap (Element.settled s.decl.kind change changes) } :
          ElementSet τ).recount.find? id =
        (s.find? id).bind (Element.settled s.decl.kind change changes) :=
      SortedList.find?_filterMap hs.nodup_keys (fun e _ e' settled => (source e e' settled).1)
    rw [seat, find, seat]
    cases s.find? id with
    | none => rfl
    | some e =>
        rw [Option.bind_some, Option.map_some, Option.getD_some]
        cases settled : e.settled s.decl.kind change changes with
        | none => exact (gone e settled).symm
        | some e' => exact (source e e' settled).2
  · intro e' he'
    obtain ⟨e, he, settled⟩ := List.mem_filterMap.mp he'
    exact ⟨e, he, (source e e' settled).1.symm, (source e e' settled).2.symm⟩

omit [Catalog τ] in
theorem Stands.markSent {l : Roster} (h : s.Stands l) : s.markSent.Stands l := by
  have position (e : Element τ) : (e.markSent s.decl.kind).position = e.position := by
    rw [Element.markSent]
    split <;> rfl
  rw [markSent_eq]
  refine h.congr rfl ?_ ?_
  · intro id
    have find :
        SortedList.find? Element.id id (s.elements.map (Element.markSent s.decl.kind)) =
        (s.find? id).map (Element.markSent s.decl.kind) :=
      SortedList.find?_map (fun e _ => e.markSent_id s.decl.kind)
    rw [seat, seat]
    change (((SortedList.find? Element.id id _).map _).getD _ : Int) = _
    rw [find, Option.map_map]
    cases s.find? id with
    | none => rfl
    | some e => exact congrArg Tracked.current (position e)
  · intro e' he'
    obtain ⟨e, he, rfl⟩ := List.mem_map.mp he'
    exact ⟨e, he, (e.markSent_id _).symm, by rw [position]⟩

end Attempts

section Runs

variable [Catalog τ]

/-- A set that was made, edited, sent, and told of the outcome of attempts, beside a list
that was edited in the same way; with the deltas of the attempts so far.  No id is added
that was removed. -/
inductive Follows (decl : SetDecl τ) :
    ElementSet τ → Roster → List (List ElementDelta) → Prop
  | blank : Follows decl (.blank decl) ⟨[], []⟩ []
  | decoded {messages : List Message} {s : ElementSet τ} :
      ElementSet.ofMessages decl messages = .ok s → Follows decl s ⟨s.ids, []⟩ []
  | edit {s : ElementSet τ} {l : Roster} {attempts : List (List ElementDelta)}
      (edit : SetEdit) :
      Follows decl s l attempts → l.Allows decl.element edit →
        Follows decl (s.edit edit).1 (l.after decl.element edit) attempts
  /-- An attempt begins. -/
  | take {s : ElementSet τ} {l : Roster} {attempts : List (List ElementDelta)} :
      Follows decl s l attempts → Follows decl s l (s.delta :: attempts)
  | markSent {s : ElementSet τ} {l : Roster} {attempts : List (List ElementDelta)} :
      Follows decl s l attempts → Follows decl s.markSent l attempts
  | commit {s : ElementSet τ} {l : Roster} {attempts : List (List ElementDelta)}
      {d : List ElementDelta} : Follows decl s l attempts → d ∈ attempts →
        Follows decl (s.commitInPlace d).2.1 l attempts
  | rollback {s : ElementSet τ} {l : Roster} {attempts : List (List ElementDelta)}
      {d : List ElementDelta} : Follows decl s l attempts → d ∈ attempts →
        Follows decl (s.rollback d) l attempts

/-- What holds of an ordered set beside its list. -/
structure Follows.Holds (decl : SetDecl τ) (s : ElementSet τ) (l : Roster)
    (attempts : List (List ElementDelta)) : Prop where
  decl_eq : s.decl = decl
  sound : s.Sound
  stands : s.Stands l
  suits : ∀ d ∈ attempts, decl.Suits d

theorem Follows.holds_blank (decl : SetDecl τ) :
    Holds decl (.blank decl) ⟨[], []⟩ [] where
  decl_eq := rfl
  sound := ⟨(ElementSet.Loaded.blank decl).tidy, nofun⟩
  stands := by
    have seats (id : Int) : (ElementSet.blank decl).seat id = absentPosition := rfl
    have room : absentPosition < (ElementSet.blank decl).nextPosition := by
      show absentPosition < 0
      decide
    refine ⟨fun id => by simp [seats], List.Pairwise.nil, room, ?_, nofun⟩
    exact fun id => (seats id).symm ▸ room
  suits := nofun

theorem Follows.holds_decoded {decl : SetDecl τ} (ordered : decl.kind = .ordered)
    {messages : List Message} {s : ElementSet τ}
    (h : ElementSet.ofMessages decl messages = .ok s) : Holds decl s ⟨s.ids, []⟩ [] := by
  obtain ⟨loaded, kind⟩ := (ElementSet.Loaded.blank decl).load
    (fun m _ => Record.made_of_ofMessage m) h
  have kind : s.decl = decl := kind
  have ordered : s.decl.kind = .ordered := kind ▸ ordered
  obtain ⟨seated, ranged⟩ := seated_of_load h ordered
  refine ⟨kind, ⟨loaded.tidy, ?_⟩, stands_ids ordered seated ranged ?_, nofun⟩
  · intro e he
    obtain ⟨record, position, rfl, -, made⟩ := loaded.loaded e he
    exact made.sound
  · intro e he
    obtain ⟨record, position, rfl, -⟩ := loaded.loaded e he
    rcases elements_of_load h _ he with there | ⟨m, -, -, remote⟩
    · cases there
    · change Element.isRemotePresent decl.kind _ = true at remote
      rw [← kind, ordered] at remote
      exact of_decide_eq_true remote

theorem Follows.holds {decl : SetDecl τ} (ordered : decl.kind = .ordered)
    {s : ElementSet τ} {l : Roster} {attempts : List (List ElementDelta)}
    (h : Follows decl s l attempts) : Holds decl s l attempts := by
  induction h with
  | blank => exact holds_blank decl
  | decoded h => exact holds_decoded ordered h
  | edit edit _ allowed ih =>
      obtain ⟨rfl, sound, stands, suits⟩ := ih
      have evolves := (sound.edit edit).1
      exact ⟨evolves.decl_eq, evolves.sound, (stands.edit ordered allowed).stands, suits⟩
  | take _ ih =>
      obtain ⟨rfl, sound, stands, suits⟩ := ih
      exact ⟨rfl, sound, stands, List.forall_mem_cons.mpr ⟨sound.suits_delta, suits⟩⟩
  | markSent _ ih =>
      obtain ⟨rfl, sound, stands, suits⟩ := ih
      exact ⟨rfl, sound.markSent, stands.markSent, suits⟩
  | commit _ hd ih =>
      obtain ⟨rfl, sound, stands, suits⟩ := ih
      rcases sound.commitInPlace (suits _ hd) with ⟨-, taken⟩ | ⟨-, kept⟩
      · rw [taken]
        refine ⟨rfl, sound.advance (suits _ hd), ?_, suits⟩
        exact stands.settle ordered sound.tidy.sorted
          (fun x e => ⟨e.advance_id x, (e.position_advance x).1⟩) _
      · rw [kept]
        exact ⟨rfl, sound, stands, suits⟩
  | @rollback s _ _ d _ hd ih =>
      obtain ⟨rfl, sound, stands, suits⟩ := ih
      refine ⟨s.rollback_decl d, sound.rollback (suits _ hd), ?_, suits⟩
      rw [rollback_eq sound.tidy.sorted (suits _ hd).1]
      exact stands.settle ordered sound.tidy.sorted (fun x e => ⟨e.retract_id s.decl.kind x, by
        rw [(e.retract_presence s.decl.kind x).1]⟩) _

theorem Follows.ids_eq {decl : SetDecl τ} (ordered : decl.kind = .ordered)
    {s : ElementSet τ} {l : Roster} {attempts : List (List ElementDelta)}
    (h : Follows decl s l attempts) : s.ids = l.ids := by
  obtain ⟨rfl, sound, stands, -⟩ := h.holds ordered
  exact stands.ids_eq ordered sound.tidy.sorted

/-- An ordered set behaves as a list.  After any run in which no removed id is added
again, its ids are those of the list that was edited in the same way, all different; the
next edit is refused exactly as that of the list, and then nothing changes; sending,
commits and rollbacks leave the ids as they are, and a commit that is refused leaves
everything so; and exchanging two elements twice restores the whole set. -/
theorem Follows.behaves_as_list {decl : SetDecl τ} (ordered : decl.kind = .ordered)
    {s : ElementSet τ} {l : Roster} {attempts : List (List ElementDelta)}
    (h : Follows decl s l attempts) :
    s.ids = l.ids ∧ l.ids.Nodup ∧
    (∀ edit, l.Allows decl.element edit →
      (s.edit edit).1.ids = (l.after decl.element edit).ids ∧
      ∀ error, ((s.edit edit).2.2 = .refused error ↔ l.edit decl.element edit = .error error) ∧
        ((s.edit edit).2.2 = .refused error → (s.edit edit).1 = s)) ∧
    s.markSent.ids = l.ids ∧
    (∀ d ∈ attempts, (s.rollback d).ids = l.ids ∧ (s.commitInPlace d).2.1.ids = l.ids ∧
      ∀ error, (s.commitInPlace d).1 = .error error → (s.commitInPlace d).2.1 = s) ∧
    ∀ first second,
      ((s.edit (.swap first second)).1.edit (.swap first second)).1 = s := by
  have holds := h.holds ordered
  obtain ⟨rfl, sound, stands, suits⟩ := holds
  refine ⟨h.ids_eq ordered, stands.nodup, ?_, h.markSent.ids_eq ordered, ?_, sound.swap_swap⟩
  · intro edit allowed
    refine ⟨(h.edit edit allowed).ids_eq ordered, fun error => ?_⟩
    have mirrors := stands.edit ordered allowed
    exact ⟨mirrors.refused_iff error, mirrors.kept error⟩
  · intro d hd
    refine ⟨(h.rollback hd).ids_eq ordered, (h.commit hd).ids_eq ordered, ?_⟩
    intro error refused
    rcases sound.commitInPlace (suits d hd) with ⟨taken, -⟩ | ⟨-, kept⟩
    · rw [taken] at refused
      cases refused
    · exact kept

/-- Three task entries are added and sent; while the attempt is out the outer two are
exchanged and the middle one is removed, and the attempt fails. -/
theorem behaves_as_list_of_exchanged_entries :
    ∃ (s : ElementSet Entity) (l : Roster) (attempts : List (List ElementDelta)),
      Follows ⟨"tasks", .ordered, .taskEntry⟩ s l attempts ∧ l.ids = [7, 5] ∧
      s.ids = l.ids ∧ ((s.edit (.swap 7 5)).1.edit (.swap 7 5)).1 = s := by
  have empty : Follows ⟨"tasks", .ordered, Entity.taskEntry⟩ _ _ _ := .blank
  have first := empty.edit (.add (.blank 5) []) (fun _ _ => List.not_mem_nil)
  have three := first.edit (.add (.blank 6) []) (fun _ _ => List.not_mem_nil)
    |>.edit (.add (.blank 7) [.write "tag" (.text "c")]) (fun _ _ => List.not_mem_nil)
  have edited := three.take.markSent.edit (.swap 5 7) trivial |>.edit (.remove 6) trivial
  have failed := edited.rollback List.mem_cons_self
  have listed := failed.behaves_as_list rfl
  exact ⟨_, _, _, failed, by decide +kernel, listed.1, listed.2.2.2.2.2 7 5⟩

end Runs

end ElementSet

end RecordSync
