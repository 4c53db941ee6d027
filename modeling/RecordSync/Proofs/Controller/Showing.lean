import RecordSync.Proofs.Controller.Polling

/-!
# What the status tells

The status tells whether what was edited is saved.  Only the sections of a save loop set
it: it is `saving` when a request leaves, tells with the answer whether the request was
accepted, and is `saved` when a loop finds nothing to send.

A record can become clean after an attempt failed, because the edits are taken back.  That
raises the flag, so all is not saved before a loop finds nothing to send and sets the
status.  But while saves are suppressed no loop is started; a waiting call that finds a
clean record then lowers the flag and leaves the status as it is.  From then on all is
saved, and the status tells of changes that exist only here, as long as nothing is noted.

**Invariant.**  The status is `saving` exactly while a request is in flight, and a request
that is in flight was made of a record with something to tell.

**Results.**
* `Controller.beginAttempt_shows`, `Controller.Steady.finishAttempt_shows`: what the
  sections of a loop show.
* `Engine.Shows.turn`: each turn keeps the invariant.
* `Engine.status_tells`: the status is `saving` exactly while a request is in flight, and
  once all is saved it is `idle` or `saved`, unless a call lowered the flag after a failed
  attempt.
-/

namespace RecordSync

variable {τ : Type}

/-- The record of which the request of the loop was made, if it has made one. -/
def SaveLoop.taken? : SaveLoop τ → Option (Record τ)
  | starting => none
  | sending taken _ _ => some taken
  | answered taken _ _ => some taken

namespace Controller

section Calls

variable {c : Controller τ}

theorem status_start (runtime : Bool) (c : Controller τ) :
    (c.start runtime).status = c.status := by
  rw [start]
  split <;> rfl

theorem pending_start (runtime : Bool) (c : Controller τ) :
    (c.start runtime).pending = c.pending := by
  rw [start]
  split <;> rfl

theorem status_noteChange (runtime : Bool) (c : Controller τ) :
    (c.noteChange runtime).status = c.status := by
  rcases Nat.eq_zero_or_pos c.batchDepth with outside | inside
  · obtain ⟨running, -, e⟩ := noteChange_outside outside runtime
    rw [e]
  · rw [noteChange_inside inside]

theorem pending_noteChange (runtime : Bool) (raised : c.pending = true) :
    (c.noteChange runtime).pending = true := by
  rcases Nat.eq_zero_or_pos c.batchDepth with outside | inside
  · obtain ⟨running, -, e⟩ := noteChange_outside outside runtime
    rw [e]
  · rw [noteChange_inside inside]
    exact raised

variable [Catalog τ]

/-- No call sets the status. -/
theorem Call.status_run (a : Call) (c : Controller τ) : (a.run c).status = c.status := by
  cases a with
  | update runtime edits =>
      rw [run, update_eq]
      split_ifs
      · exact status_noteChange runtime _
      · rfl
  | openBatch => rfl
  | closeBatch runtime =>
      rw [run, Controller.closeBatch]
      dsimp only
      split_ifs
      · rfl
      · exact status_noteChange runtime _
      · exact status_start runtime _
      · rfl
  | suppress => rfl
  | resume runtime =>
      rw [run, Controller.resume]
      dsimp only
      split_ifs
      · exact status_start runtime _
      · rfl
  | look =>
      rw [run]
      rcases c.drainStep_eq with e | ⟨-, -, e⟩ <;> rw [e]
  | kick runtime =>
      rw [run, Controller.kick]
      split_ifs
      · rfl
      · rfl
      · exact status_start runtime _

/-- A call that is not a look leaves the flag raised. -/
theorem Call.pending_run {a : Call} (other : a ≠ .look) (raised : c.pending = true) :
    (a.run c).pending = true := by
  cases a with
  | update runtime edits =>
      rw [run, update_eq]
      split_ifs
      · exact pending_noteChange runtime raised
      · exact raised
  | openBatch => exact raised
  | closeBatch runtime =>
      rw [run, Controller.closeBatch]
      dsimp only
      split_ifs
      · exact raised
      · exact pending_noteChange runtime raised
      · exact (pending_start runtime _).trans raised
      · exact raised
  | suppress => exact raised
  | resume runtime =>
      rw [run, Controller.resume]
      dsimp only
      split_ifs
      · exact (pending_start runtime _).trans raised
      · exact raised
  | look => exact absurd rfl other
  | kick runtime =>
      rw [run, Controller.kick]
      split_ifs
      · exact raised
      · exact raised
      · exact pending_start runtime _

/-- A look lowers a raised flag while saves are suppressed, of an idle controller with a
clean record. -/
structure Lowers (c : Controller τ) : Prop where
  idle : c.running = false
  outside : c.batchDepth = 0
  suppressed : c.suppressed = true
  clean : c.record.dirty = 0
  raised : c.pending = true

theorem Lowers.drainStep (h : c.Lowers) (steady : c.Steady) :
    c.drainStep.1 = { c with pending := false } := by
  rw [drainStep_outside h.idle h.outside (steady.batch h.outside),
    if_pos ⟨h.clean, .inl h.suppressed⟩]

omit [Catalog τ] in
/-- Nothing else makes a look lower a raised flag. -/
theorem Lowers.of_look (raised : c.pending = true)
    (lowered : c.drainStep.1.pending = false) : c.Lowers := by
  have same : c.drainStep.1 ≠ c := by
    intro same
    rw [same, raised] at lowered
    cases lowered
  rcases c.drainStep_cases with ⟨-, e⟩ | ⟨-, e⟩ |
    ⟨idle, outside, _, e | ⟨found, -⟩⟩ | ⟨-, -, e⟩
  · simp [e] at same
  · simp [e] at same
  · simp [e] at same
  · exact ⟨idle, outside, found.1, found.2, raised⟩
  · simp [e] at same

/-- A call after which all is saved found all saved, or it was a look that lowered the
flag. -/
theorem Call.saved_of_run (h : c.Steady) {a : Call} (possible : a.Possible c)
    (saved : (a.run c).isSynchronized = true) :
    c.isSynchronized = true ∨ a = .look ∧ c.Lowers := by
  obtain ⟨idle, lowered, unchanged, clean⟩ := isSynchronized_iff.mp saved
  cases a.leaves h possible with
  | noted _ waits => exact absurd saved (by simp [not_synchronized_of_pending waits])
  | restarted _ _ _ e =>
      rw [e] at idle
      cases idle
  | kept latch running record changes pending outside =>
      rw [record] at clean
      rw [running] at idle
      rw [changes] at unchanged
      cases raised : c.pending with
      | false => exact .inl (isSynchronized_iff.mpr ⟨idle, raised, unchanged, clean⟩)
      | true =>
          by_cases other : a = .look
          · subst other
            exact .inr ⟨rfl, .of_look raised lowered⟩
          · exact absurd (lowered.symm.trans (pending_run other raised)) Bool.false_ne_true

end Calls

section Loops

variable {c : Controller τ}

theorem status_stop (c : Controller τ) : c.stop.status = c.status := by
  obtain ⟨latch, e⟩ := c.stop_eq
  rw [e]

/-- What the first section of a loop shows: nothing new if it is held back, that all is
saved if it finds nothing to send, or else that a request leaves. -/
inductive Begins (c : Controller τ) : Controller τ × Attempt → Prop
  | held {c' : Controller τ} {shown : Option Status} :
      c'.hasPending = true → c'.status = c.status → Begins c (c', .over shown)
  | clean {c' : Controller τ} {shown : Option Status} :
      c'.status = .idle ∨ c'.status = .saved → Begins c (c', .over shown)
  | sends {c' : Controller τ} {patch : Message} {d : Delta} :
      c.record.dirty ≠ 0 → c'.status = .saving → Begins c (c', .sending patch d)

theorem beginAttempt_shows (pending : c.pending = true) : c.Begins c.beginAttempt := by
  rw [beginAttempt]
  split
  next held =>
    refine .held ?_ c.status_stop
    obtain ⟨latch, e⟩ := c.stop_eq
    rw [e]
    simp [hasPending, pending]
  next =>
    dsimp only
    cases sent : c.record.synchronize with
    | none =>
        refine .clean ?_
        dsimp only
        split_ifs with idle
        · exact .inl idle
        · exact .inr rfl
    | some result =>
        obtain ⟨patch, d, r⟩ := result
        exact .sends (Record.synchronize_eq_some.mp sent).1 rfl

theorem continue_eq (c : Controller τ) :
    ∃ running latch, c.continue?.1 = { c with running := running, latch := latch } := by
  rw [continue?]
  split
  · exact ⟨c.running, c.latch, rfl⟩
  · obtain ⟨latch, e⟩ := c.stop_eq
    exact ⟨false, latch, e⟩

variable [Catalog τ]

/-- The second section of a loop shows what the answer was.  A refused request leaves the
record with something to tell, or a change that is noted. -/
theorem Steady.finishAttempt_shows (h : c.Steady) {taken : Record τ} {d : Delta}
    (awaits : c.Awaits taken d) (dirty : taken.dirty ≠ 0) (accepted : Bool) :
    (c.finishAttempt d accepted).1.status = (if accepted then .saved else .notSaved) ∧
      (accepted = false → (c.finishAttempt d accepted).1.isSynchronized = false) := by
  obtain ⟨-, sound₀, rfl, trunk, unchanged⟩ := awaits
  have suits : taken.delta.Suits c.record.type := sound₀.suits_of_trunk trunk
  rw [Controller.finishAttempt]
  cases accepted with
  | true =>
      rw [if_pos rfl, (h.sound.commit_attempt sound₀ trunk).1]
      dsimp only
      obtain ⟨latch, e⟩ := settleUnlessPending_eq
        { c with
          record := c.record.advance taken.delta
          dirty := (c.record.advance taken.delta).dirty
          status := .saved } .resolved
      obtain ⟨running, latch', e'⟩ := continue_eq
        { c with
          record := c.record.advance taken.delta
          dirty := (c.record.advance taken.delta).dirty
          status := .saved
          latch := latch }
      rw [e, e']
      exact ⟨rfl, fun refused => by cases refused⟩
  | false =>
      rw [if_neg Bool.false_ne_true]
      obtain ⟨latch, e⟩ := settleUnlessPending_eq
        { c with record := c.record.rollback taken.delta, status := .notSaved } .rejected
      obtain ⟨running, latch', e'⟩ := continue_eq
        { c with record := c.record.rollback taken.delta, status := .notSaved, latch := latch }
      rw [e, e']
      refine ⟨rfl, fun _ => Bool.eq_false_iff.mpr (fun saved => ?_)⟩
      obtain ⟨-, quiet, none, clean⟩ := isSynchronized_iff.mp saved
      -- Nothing was noted, so the record is the one that was sent, and the rollback
      -- leaves it dirty.
      have silent : c.hasPending = false := by
        simp [hasPending, show c.pending = false from quiet, show c.batchChanges = 0 from none]
      have left := (h.sound.alike_rollback suits).dirty_eq
      have sent := sound₀.alike_markSent.dirty_eq
      rw [← unchanged silent] at sent
      exact dirty (sent.symm.trans (left.symm.trans clean))

end Loops

end Controller

namespace Engine

variable {x y : Engine τ}

/-- A request is in flight: a loop began an attempt and has not finished it. -/
def InFlight (x : Engine τ) : Prop := ∃ l ∈ x.loops, l.taken?.isSome = true

/-- What holds of the status and the requests. -/
structure Shows (x : Engine τ) : Prop where
  saving : x.controller.status = .saving ↔ x.InFlight
  /-- A request is made of a record with something to tell. -/
  tells : ∀ l ∈ x.loops, ∀ taken, l.taken? = some taken → taken.dirty ≠ 0

theorem Shows.start (r : Record τ) : (Engine.start r).Shows :=
  ⟨by simp [Engine.start, Controller.ofRecord, InFlight], by simp [Engine.start]⟩

/-- A loop that is started has not made a request. -/
theorem taken?_after {c : Controller τ} {l : SaveLoop τ} {taken : Record τ}
    (some : l.taken? = some taken) : l ∈ (x.after c).loops ↔ l ∈ x.loops := by
  rw [after]
  dsimp only
  split
  · rw [List.mem_append, List.mem_singleton]
    refine or_iff_left ?_
    rintro rfl
    cases some
  · rfl

theorem inFlight_after (x : Engine τ) (c : Controller τ) :
    (x.after c).InFlight ↔ x.InFlight := by
  refine exists_congr (fun l => and_congr_left (fun some => ?_))
  obtain ⟨taken, some⟩ := Option.isSome_iff_exists.mp some
  exact taken?_after some

variable [Catalog τ]

/-- Each turn keeps what the status shows. -/
theorem Shows.turn (h : x.Shows) (attends : x.Attends) (turn : Turn x y) : y.Shows := by
  cases turn with
  | call a possible =>
      refine ⟨?_, fun l hl taken some => h.tells l ((taken?_after some).mp hl) taken some⟩
      rw [inFlight_after]
      exact (a.status_run x.controller).symm ▸ h.saving
  | begin loops =>
      obtain ⟨rfl, rfl, -, -, pending⟩ := attends.alone loops
      have resting : ¬ x.InFlight := by simp [InFlight, loops, SaveLoop.taken?]
      have shows := Controller.beginAttempt_shows pending
      generalize x.controller.beginAttempt = result at shows ⊢
      cases shows with
      | held _ status =>
          have unsaving : x.controller.status ≠ .saving :=
            fun e => resting (h.saving.mp e)
          exact ⟨by simp [status, unsaving, InFlight, begun], by simp [begun]⟩
      | clean status =>
          refine ⟨?_, by simp [begun]⟩
          rcases status with status | status <;> simp [status, InFlight, begun]
      | sends dirty status =>
          exact ⟨by simp [status, InFlight, begun, SaveLoop.taken?],
            by simp [begun, SaveLoop.taken?, dirty]⟩
  | answer accepted loops =>
      obtain ⟨rfl, rfl, -⟩ := attends.alone loops
      have saving := h.saving
      have tells := h.tells
      rw [InFlight, loops] at saving
      rw [loops] at tells
      exact ⟨by simpa [InFlight, SaveLoop.taken?] using saving,
        by simpa [SaveLoop.taken?] using tells⟩
  | @finish _ _ taken d accepted loops =>
      obtain ⟨rfl, rfl, -, awaits⟩ := attends.alone loops
      have dirty := h.tells (.answered taken d accepted) (by simp [loops]) taken rfl
      have status := (attends.steady.finishAttempt_shows awaits dirty accepted).1
      constructor
      · rw [status]
        cases accepted <;> simp [InFlight, finished, SaveLoop.taken?]
      · simp [finished, SaveLoop.taken?]

/-- All is saved, and the status tells that it is not. -/
def Stale (x : Engine τ) : Prop :=
  x.controller.isSynchronized = true ∧ x.controller.status = .notSaved

/-- After a failed attempt a waiting call lowers the flag, since the edits were taken
back. -/
structure Forgives (x y : Engine τ) : Prop where
  failed : x.controller.status = .notSaved
  lowers : x.controller.Lowers
  looked : y = x.after x.controller.drainStep.1

theorem Forgives.stale (h : Forgives x y) (steady : x.controller.Steady) : y.Stale := by
  obtain ⟨failed, lowers, rfl⟩ := h
  rw [Stale, after, lowers.drainStep steady]
  refine ⟨Controller.isSynchronized_iff.mpr ?_, failed⟩
  exact ⟨lowers.idle, rfl, steady.batch lowers.outside, lowers.clean⟩

/-- Only such a call makes the status stale. -/
theorem Attends.stale_turn (h : x.Attends) (shows : x.Shows) (turn : Turn x y)
    (stale : y.Stale) : Forgives x y ∨ x.Stale := by
  obtain ⟨saved, failed⟩ := stale
  cases turn with
  | call a possible =>
      have before : x.controller.status = .notSaved :=
        (a.status_run x.controller).symm.trans failed
      rcases Controller.Call.saved_of_run h.steady possible saved with was | ⟨rfl, lowers⟩
      · exact .inr ⟨was, before⟩
      · exact .inl ⟨before, lowers, rfl⟩
  | begin loops =>
      obtain ⟨rfl, rfl, -, -, pending⟩ := h.alone loops
      have begins := Controller.beginAttempt_shows pending
      generalize x.controller.beginAttempt = result at begins saved failed
      cases begins with
      | held waits =>
          cases (Controller.not_synchronized_of_pending waits).symm.trans saved
      | clean status =>
          rcases status with status | status <;> cases status.symm.trans failed
      | sends _ status => cases status.symm.trans failed
  | answer accepted loops => exact .inr ⟨saved, failed⟩
  | @finish _ _ taken d accepted loops =>
      obtain ⟨rfl, rfl, -, awaits⟩ := h.alone loops
      have dirty := shows.tells (.answered taken d accepted) (by simp [loops]) taken rfl
      obtain ⟨status, unsaved⟩ := h.steady.finishAttempt_shows awaits dirty accepted
      cases accepted with
      | true => cases status.symm.trans failed
      | false => cases (unsaved rfl).symm.trans saved

/-- The status stays stale as long as all is saved, since no loop runs that would set
it. -/
theorem Stale.turn (h : x.Stale) (attends : x.Attends) (turn : Turn x y)
    (saved : y.controller.isSynchronized = true) : y.Stale := by
  have idle := attends.idle (Controller.isSynchronized_iff.mp h.1).1
  cases turn with
  | call a possible => exact ⟨saved, (a.status_run x.controller).trans h.2⟩
  | begin loops => simp [idle] at loops
  | answer accepted loops => simp [idle] at loops
  | finish loops => simp [idle] at loops

section Behaviours

variable {r₀ : Record τ} {trace : ℕ → Engine τ}

theorem attends_shows (h : Behaviour Turn (start r₀) trace) (sound : r₀.Sound) (n : ℕ) :
    (trace n).Attends ∧ (trace n).Shows := by
  induction n with
  | zero =>
      rw [h.start]
      exact ⟨.start sound, .start r₀⟩
  | succ n ih =>
      rcases h.same_or_step n with same | turn
      · rwa [same]
      · exact ⟨ih.1.turn turn, ih.2.turn ih.1 turn⟩

/-- A call made the status stale, and all was saved since. -/
def StaleSince (trace : ℕ → Engine τ) (n m : ℕ) : Prop :=
  m < n ∧ Forgives (trace m) (trace (m + 1)) ∧
    ∀ i, m < i → i ≤ n → (trace i).controller.isSynchronized = true

theorem stale_iff (h : Behaviour Turn (start r₀) trace) (sound : r₀.Sound) (n : ℕ) :
    (trace n).Stale ↔ ∃ m, StaleSince trace n m := by
  constructor
  · intro stale
    induction n with
    | zero =>
        rw [h.start] at stale
        cases stale.2
    | succ n ih =>
        have on : (trace n).Stale → ∃ m, StaleSince trace (n + 1) m := by
          intro was
          obtain ⟨m, earlier, forgives, since⟩ := ih was
          refine ⟨m, by omega, forgives, fun i later until_ => ?_⟩
          rcases Nat.lt_or_eq_of_le until_ with before | rfl
          · exact since i later (by omega)
          · exact stale.1
        obtain ⟨attends, shows⟩ := attends_shows h sound n
        rcases h.same_or_step n with same | turn
        · exact on (same ▸ stale)
        · rcases attends.stale_turn shows turn stale with forgives | was
          · refine ⟨n, by omega, forgives, fun i later until_ => ?_⟩
            obtain rfl : i = n + 1 := by omega
            exact stale.1
          · exact on was
  · rintro ⟨m, earlier, forgives, since⟩
    have first : (trace (m + 1)).Stale :=
      forgives.stale (attends_shows h sound m).1.steady
    -- From there the status stays stale up to n.
    have on : ∀ k, m + 1 + k ≤ n → (trace (m + 1 + k)).Stale := by
      intro k
      induction k with
      | zero => exact fun _ => first
      | succ k ih =>
          intro until_
          have was := ih (by omega)
          rcases h.same_or_step (m + 1 + k) with same | turn
          · rw [← Nat.add_assoc, same]
            exact was
          · exact was.turn (attends_shows h sound _).1 turn (since _ (by omega) until_)
    obtain ⟨k, rfl⟩ : ∃ k, n = m + 1 + k := ⟨n - (m + 1), by omega⟩
    exact on k le_rfl

end Behaviours

/-- In whatever order calls, loop sections and answers come: the status is `saving`
exactly while a request is in flight, and while all is saved it is `idle` or `saved`,
unless after a failed attempt a waiting call lowered the flag, and all was saved since. -/
theorem status_tells {r₀ : Record τ} {trace : ℕ → Engine τ} {type : τ}
    {attempts : List Delta} (h : Behaviour Turn (start r₀) trace)
    (made : Record.Reachable type r₀ attempts) (n : ℕ) :
    ((trace n).controller.status = .saving ↔ (trace n).InFlight) ∧
    ((trace n).controller.isSynchronized = true →
      ((trace n).controller.status = .idle ∨ (trace n).controller.status = .saved ↔
        ¬ ∃ m, StaleSince trace n m)) := by
  have sound := made.sound.1
  obtain ⟨attends, shows⟩ := attends_shows h sound n
  refine ⟨shows.saving, fun saved => ?_⟩
  rw [← stale_iff h sound n, Stale, and_iff_right saved]
  have resting : (trace n).controller.status ≠ .saving := by
    intro saving
    obtain ⟨l, hl, -⟩ := shows.saving.mp saving
    rw [attends.idle (Controller.isSynchronized_iff.mp saved).1] at hl
    cases hl
  cases status : (trace n).controller.status <;> simp_all

/-- A tag is written, but the request fails; a call asks for a new attempt, which is
accepted. -/
theorem status_tells_of_retried_tag :
    ∃ trace n, Behaviour Turn (start (.blank Entity.task 1)) trace ∧
      (trace n).controller.isSynchronized = true ∧ (trace n).controller.status = .saved ∧
        ¬ ∃ m, StaleSince trace n m := by
  have resumed := Relation.ReflTransGen.single
    (Turn.call (start (.blank Entity.task 1)) (.resume true) trivial)
  have written := resumed.tail (.call _ (.update true [.write "tag" (.text "a")]) trivial)
  have sent := written.tail (@Turn.begin _ _ _ [] [] rfl)
  have refused := sent.tail (@Turn.answer _ _ _ [] [] _ _ _ false rfl)
  have failed := refused.tail (@Turn.finish _ _ _ [] [] _ _ _ rfl)
  have asked := failed.tail (.call _ (.kick true) trivial)
  have sentAgain := asked.tail (@Turn.begin _ _ _ [] [] rfl)
  have accepted := sentAgain.tail (@Turn.answer _ _ _ [] [] _ _ _ true rfl)
  have finished := accepted.tail (@Turn.finish _ _ _ [] [] _ _ _ rfl)
  obtain ⟨trace, n, behaviour, ended⟩ := exists_behaviour finished
  have saved : (trace n).controller.isSynchronized = true := by rw [ended n le_rfl]; rfl
  have status : (trace n).controller.status = .saved := by rw [ended n le_rfl]; rfl
  exact ⟨trace, n, behaviour, saved, status,
    ((status_tells behaviour (.blank 1) n).2 saved).mp (.inr status)⟩

/-- A tag is written, but the request fails; saves are suppressed, the tag is taken back,
and a call waits for all to be saved.  It is told so, and the status tells that it is
not. -/
theorem status_stale_of_suppressed_tag :
    ∃ x : Engine Entity, Relation.ReflTransGen Turn (start (.blank .task 1)) x ∧
      x.controller.isSynchronized = true ∧ x.controller.status = .notSaved := by
  have resumed := Relation.ReflTransGen.single
    (Turn.call (start (.blank Entity.task 1)) (.resume true) trivial)
  have written := resumed.tail (.call _ (.update true [.write "tag" (.text "a")]) trivial)
  have sent := written.tail (@Turn.begin _ _ _ [] [] rfl)
  have refused := sent.tail (@Turn.answer _ _ _ [] [] _ _ _ false rfl)
  have failed := refused.tail (@Turn.finish _ _ _ [] [] _ _ _ rfl)
  have suppressed := failed.tail (.call _ .suppress trivial)
  have takenBack :=
    suppressed.tail (.call _ (.update true [.write "tag" (.text "")]) trivial)
  exact ⟨_, takenBack.tail (.call _ .look trivial), rfl, rfl⟩

end Engine

end RecordSync
