import RecordSync.Proofs.Controller.Turns

/-!
# The latch and the save loops

Those who wait for a record to be saved wait for its latch.  A change arms the latch, and
the end of a save loop settles it: resolved if all is saved, rejected if the attempt
failed or saves are suppressed.  A loop that stops for a batch leaves the latch clear,
since the end of the batch starts the next loop.

A change that is noted while no loop runs, and a waiting call that asks for a new attempt,
arm the latch and start a loop.  There are two more ways to start one: saves are resumed,
or a batch ends in which nothing was changed, and a change from before is still to be
sent.  These do not arm the latch.  If the last loop stopped because saves were
suppressed, it has rejected the latch; then the new loop runs with a settled latch, and
waiting calls do not wait for it.

**Results.**
* `Engine.Attends.turned`: what a turn does to the latch.
* `Engine.latch_coherent`: a resolved latch tells that all is saved; the latch is clear
  while a loop runs, unless the loop was restarted over a rejected latch; and how a loop
  leaves a clear latch.
-/

namespace RecordSync

variable {τ : Type}

namespace Controller

/-- How a loop ended that found the latch in a state. -/
inductive Ended (was : Latch) (c : Controller τ) : Prop
  /-- All is saved. -/
  | saved : c.latch = was.settleIfClear .resolved → c.isSynchronized = true → Ended was c
  /-- The attempt failed, or saves are suppressed. -/
  | refused : c.latch = was.settleIfClear .rejected →
      (c.status = .notSaved ∨ c.suppressed = true ∧ c.hasPending = true) → Ended was c
  /-- A change waits for the end of a batch. -/
  | held : c.latch = was → c.hasPending = true → 0 < c.batchDepth →
      c.suppressed = false → Ended was c

variable {c : Controller τ}

/-- A loop that ends settles the latch, unless a change waits for the end of a batch. -/
theorem Ended.settled_or_held {was : Latch} (h : Ended was c) :
    c.latch ≠ .clear ∨ c.hasPending = true ∧ 0 < c.batchDepth := by
  cases h with
  | saved latch =>
      left
      rw [latch]
      cases was <;> exact Latch.noConfusion
  | refused latch =>
      left
      rw [latch]
      cases was <;> exact Latch.noConfusion
  | held _ pending inside => exact .inr ⟨pending, inside⟩

/-- A loop stops because something holds it back, or because nothing is pending. -/
theorem stop_ended (batch : c.batchDepth = 0 → c.batchChanges = 0)
    (waits : c.hasPending = true) (held : (c.pending && c.maySend) = false) :
    c.stop.running = false ∧ Ended c.latch c.stop := by
  cases suppressed : c.suppressed with
  | true =>
      have e : c.stop =
          { c with running := false, latch := c.latch.settleIfClear .rejected } :=
        if_pos (by rw [suppressed]; exact waits)
      rw [e]
      exact ⟨rfl, .refused rfl (.inr ⟨suppressed, waits⟩)⟩
  | false =>
      have e : c.stop = { c with running := false } := if_neg (by simp [suppressed])
      rw [e]
      refine ⟨rfl, .held rfl waits ?_ suppressed⟩
      show 0 < c.batchDepth
      rcases Nat.eq_zero_or_pos c.batchDepth with outside | inside
      · have none : c.pending = true := by simpa [hasPending, batch outside] using waits
        simp [none, maySend, suppressed, outside] at held
      · exact inside

/-- A loop that has its answer goes on for what is pending, or it settles the latch and
ends. -/
theorem settle_ended {outcome : Latch} (batch : c.batchDepth = 0 → c.batchChanges = 0)
    (told : c.hasPending = false →
      ∀ latch, latch = c.latch.settleIfClear outcome →
        Ended c.latch { c with running := false, latch := latch }) :
    ((c.settleUnlessPending outcome).continue?.1.running = c.running ∧
        (c.settleUnlessPending outcome).continue?.1.latch = c.latch) ∨
      (c.settleUnlessPending outcome).continue?.1.running = false ∧
        Ended c.latch (c.settleUnlessPending outcome).continue?.1 := by
  cases waits : c.hasPending with
  | true =>
      rw [settleUnlessPending, if_pos waits, continue?]
      split
      next => exact .inl ⟨rfl, rfl⟩
      next held => exact .inr (stop_ended batch waits (by simpa using held))
  | false =>
      have quiet : c.pending = false := by
        rw [hasPending, Bool.or_eq_false_iff] at waits
        exact waits.1
      have e : (c.settleUnlessPending outcome).continue?.1 =
          { c with running := false, latch := c.latch.settleIfClear outcome } := by
        rw [settleUnlessPending, if_neg (by simp [waits]), continue?, if_neg (by simp [quiet])]
        exact if_neg (by simp [hasPending] at waits ⊢; simp [waits])
      rw [e]
      exact .inr ⟨rfl, told waits _ rfl⟩

variable [Catalog τ]

/-- The first section of a loop leaves the latch alone if it sends, and otherwise ends the
loop. -/
theorem Steady.beginAttempt_ended (h : c.Steady) (pending : c.pending = true) :
    (c.beginAttempt.1.running = c.running ∧ c.beginAttempt.1.latch = c.latch) ∨
      c.beginAttempt.1.running = false ∧ Ended c.latch c.beginAttempt.1 := by
  rw [Controller.beginAttempt]
  split
  next held =>
    refine .inr (stop_ended h.batch (by simp [hasPending, pending]) ?_)
    simpa [pending] using held
  next free =>
    simp only [maySend, Bool.or_eq_true, Bool.not_eq_true', not_or, Bool.not_eq_false,
      Bool.and_eq_true, beq_iff_eq] at free
    dsimp only
    cases sent : c.record.synchronize with
    | none =>
        have clean : c.record.dirty = 0 := h.sound.exact_count.2.2.1.mpr sent
        refine .inr ⟨rfl, .saved rfl ?_⟩
        simp [isSynchronized, hasPending, h.batch free.2.2, clean]
    | some result => exact .inl ⟨rfl, rfl⟩

/-- The second section of a loop leaves the latch alone if the loop goes on, and otherwise
ends it. -/
theorem Steady.finishAttempt_ended (h : c.Steady) {taken : Record τ} {d : Delta}
    (awaits : c.Awaits taken d) (accepted : Bool) :
    ((c.finishAttempt d accepted).1.running = c.running ∧
        (c.finishAttempt d accepted).1.latch = c.latch) ∨
      (c.finishAttempt d accepted).1.running = false ∧
        Ended c.latch (c.finishAttempt d accepted).1 := by
  obtain ⟨-, sound₀, rfl, trunk, unchanged⟩ := awaits
  rw [Controller.finishAttempt]
  cases accepted with
  | true =>
      rw [if_pos rfl, (h.sound.commit_attempt sound₀ trunk).1]
      dsimp only
      refine settle_ended h.batch (fun silent latch e => .saved e ?_)
      have clean : (c.record.advance taken.delta).dirty = 0 := by
        rw [unchanged silent]
        exact sound₀.dirty_advance_delta
      simp [hasPending] at silent
      simp [isSynchronized, hasPending, silent, clean]
  | false =>
      rw [if_neg Bool.false_ne_true]
      exact settle_ended h.batch (fun _ latch e => .refused e (.inl rfl))

theorem Call.running_kept (h : c.Steady) (a : Call) (busy : c.running = true) :
    (a.run c).running = true := by
  rw [(a.alike c).2 busy]
  exact ((a.supported_minds h).busy busy).1

end Controller

namespace Engine

variable [Catalog τ] {x y : Engine τ}

/-- What a turn does: a call leaves something behind; a loop goes on, and the latch stays
as it is; or a loop ends. -/
inductive Turned (x y : Engine τ) : Prop
  | called (a : Controller.Call) : a.Possible x.controller →
      y = x.after (a.run x.controller) → a.Leaves x.controller y.controller →
        (x.controller.running = true → y.controller.running = true) → Turned x y
  | goesOn : x.controller.running = true → y.controller.running = true →
      y.controller.latch = x.controller.latch → Turned x y
  | ended : x.controller.running = true → y.controller.running = false →
      y.controller.Ended x.controller.latch → Turned x y

theorem Attends.turned (h : x.Attends) (turn : Turn x y) : Turned x y := by
  cases turn with
  | call a possible =>
      exact .called a possible rfl (a.leaves h.steady possible) (a.running_kept h.steady)
  | begin loops =>
      obtain ⟨rfl, rfl, busy, -, pending⟩ := h.alone loops
      rcases h.steady.beginAttempt_ended pending with ⟨running, latch⟩ | ⟨idle, ended⟩
      · exact .goesOn busy (running.trans busy) latch
      · exact .ended busy idle ended
  | answer accepted loops =>
      obtain ⟨-, -, busy, -⟩ := h.alone loops
      exact .goesOn busy busy rfl
  | @finish _ _ _ _ accepted loops =>
      obtain ⟨rfl, rfl, busy, awaits⟩ := h.alone loops
      rcases h.steady.finishAttempt_ended awaits accepted with ⟨running, latch⟩ |
        ⟨idle, ended⟩
      · exact .goesOn busy (running.trans busy) latch
      · exact .ended busy idle ended

/-- A loop is started over a rejected latch, for a change that was noted before. -/
structure Restarts (x y : Engine τ) : Prop where
  rejected : x.controller.latch = .rejected
  idle : x.controller.running = false
  pending : x.controller.pending = true
  call : x.controller.batchDepth = 0 ∧ y = x.after (x.controller.resume true) ∨
    x.controller.batchDepth = 1 ∧ x.controller.batchChanges = 0 ∧
      x.controller.suppressed = false ∧ y = x.after (x.controller.closeBatch true)

omit [Catalog τ] in
theorem Restarts.stale (h : Restarts x y) :
    y.controller.running = true ∧ y.controller.latch = .rejected := by
  obtain ⟨rejected, idle, pending, ⟨outside, rfl⟩ | ⟨outermost, unchanged, free, rfl⟩⟩ :=
    h
  · simp [after, Controller.resume, Controller.start, idle, pending, outside, rejected]
  · simp [after, Controller.closeBatch, Controller.start, outermost, unchanged, idle,
      pending, free, rejected]

/-- A latch is resolved only while all is saved. -/
def Tells (x : Engine τ) : Prop :=
  x.controller.latch = .resolved → x.controller.isSynchronized = true

omit [Catalog τ] in
theorem Tells.of_busy (h : x.Tells) (busy : x.controller.running = true) :
    x.controller.latch ≠ .resolved := by
  intro resolved
  have synchronized := h resolved
  simp [Controller.isSynchronized, busy] at synchronized

omit [Catalog τ] in
theorem Tells.of_pending (h : x.Tells) (pending : x.controller.pending = true) :
    x.controller.latch ≠ .resolved := by
  intro resolved
  have synchronized := h resolved
  simp [Controller.isSynchronized, Controller.hasPending, pending] at synchronized

/-- A turn resolves the latch only if all is saved, and arms it if that changes. -/
theorem Tells.turned (h : x.Tells) (turned : Turned x y) : y.Tells := by
  intro resolved
  cases turned with
  | called a possible e left =>
      cases left with
      | noted clear => cases clear.symm.trans resolved
      | restarted _ pending _ e =>
          rw [e] at resolved
          exact absurd resolved (h.of_pending pending)
      | kept latch running record changes pending =>
          have synchronized := h (latch.symm.trans resolved)
          simp only [Controller.isSynchronized, Controller.hasPending, Bool.and_eq_true,
            Bool.not_eq_true', Bool.or_eq_false_iff] at synchronized ⊢
          have quiet : y.controller.pending = false := by
            rcases pending with same | ⟨-, -, -, lowered⟩
            · exact same.trans synchronized.1.2.1
            · exact lowered
          rw [running, record, changes]
          exact ⟨⟨synchronized.1.1, quiet, synchronized.1.2.2⟩, synchronized.2⟩
  | goesOn busy _ latch => exact absurd (latch.symm.trans resolved) (h.of_busy busy)
  | ended busy _ ended =>
      have was := h.of_busy busy
      cases ended with
      | saved _ synchronized => exact synchronized
      | refused latch =>
          rw [latch] at resolved
          cases found : x.controller.latch with
          | clear => rw [found] at resolved; cases resolved
          | resolved => exact absurd found was
          | rejected => rw [found] at resolved; cases resolved
      | held latch => exact absurd (latch.symm.trans resolved) was

/-- A loop that runs over a settled latch was restarted over it, or the latch was settled
before. -/
theorem Turned.stale (h : Turned x y) (tells : x.Tells)
    (busy : y.controller.running = true) (settled : y.controller.latch ≠ .clear) :
    Restarts x y ∨ x.controller.running = true ∧
      x.controller.latch = y.controller.latch := by
  cases h with
  | called a possible e left =>
      cases left with
      | noted clear => exact absurd clear settled
      | restarted idle pending call e' =>
          rw [e'] at settled
          have rejected : x.controller.latch = .rejected := by
            have unresolved := tells.of_pending pending
            cases found : x.controller.latch with
            | clear => exact absurd found settled
            | resolved => exact absurd found unresolved
            | rejected => rfl
          rcases call with ⟨rfl, outside⟩ | ⟨rfl, outermost⟩
          · exact .inl ⟨rejected, idle, pending, .inl ⟨outside, e⟩⟩
          · exact .inl ⟨rejected, idle, pending,
              .inr ⟨outermost.1, outermost.2.1, outermost.2.2, e⟩⟩
      | kept latch running => exact .inr ⟨running.symm.trans busy, latch.symm⟩
  | goesOn was _ latch => exact .inr ⟨was, latch.symm⟩
  | ended _ idle => exact absurd (idle.symm.trans busy) Bool.false_ne_true

section Behaviours

variable {r₀ : Record τ} {trace : ℕ → Engine τ}

theorem attends_tells (h : Behaviour Turn (start r₀) trace) (sound : r₀.Sound) (n : ℕ) :
    (trace n).Attends ∧ (trace n).Tells := by
  induction n with
  | zero =>
      rw [h.start]
      exact ⟨.start sound, fun resolved => by cases resolved⟩
  | succ n ih =>
      rcases h.same_or_step n with same | turn
      · rwa [same]
      · exact ⟨ih.1.turn turn, ih.2.turned (ih.1.turned turn)⟩

/-- A loop that runs over a settled latch was restarted over it, and the latch is rejected
since. -/
theorem restarted_of_stale (h : Behaviour Turn (start r₀) trace)
    (sound : r₀.Sound) {n : ℕ} (busy : (trace n).controller.running = true)
    (settled : (trace n).controller.latch ≠ .clear) :
    ∃ m, m < n ∧ Restarts (trace m) (trace (m + 1)) ∧
      ∀ i, m < i → i ≤ n →
        (trace i).controller.running = true ∧ (trace i).controller.latch = .rejected := by
  induction n with
  | zero =>
      rw [h.start] at busy
      cases busy
  | succ n ih =>
      have on : ∀ {m}, Restarts (trace m) (trace (m + 1)) →
          (∀ i, m < i → i ≤ n →
            (trace i).controller.running = true ∧
            (trace i).controller.latch = .rejected) →
          (trace (n + 1)).controller.latch = .rejected → m < n + 1 →
          ∃ m, m < n + 1 ∧ Restarts (trace m) (trace (m + 1)) ∧ ∀ i, m < i → i ≤ n + 1 →
            (trace i).controller.running = true ∧
            (trace i).controller.latch = .rejected := by
        intro m restarts since rejected earlier
        refine ⟨m, earlier, restarts, fun i later until_ => ?_⟩
        rcases Nat.lt_or_eq_of_le until_ with before | rfl
        · exact since i later (by omega)
        · exact ⟨busy, rejected⟩
      have before : (trace n).controller.running = true →
          (trace n).controller.latch = (trace (n + 1)).controller.latch →
          ∃ m, m < n + 1 ∧ Restarts (trace m) (trace (m + 1)) ∧ ∀ i, m < i → i ≤ n + 1 →
            (trace i).controller.running = true ∧
            (trace i).controller.latch = .rejected := by
        intro was latch
        obtain ⟨m, earlier, restarts, since⟩ := ih was (latch ▸ settled)
        exact on restarts since (latch ▸ (since n earlier le_rfl).2) (by omega)
      obtain ⟨attends, tells⟩ := attends_tells h sound n
      rcases h.same_or_step n with same | turn
      · exact before (same ▸ busy) (by rw [same])
      · rcases (attends.turned turn).stale tells busy settled with restarts | ⟨was, latch⟩
        · exact on restarts (fun i later until_ => by omega) restarts.stale.2
            (Nat.lt_succ_self n)
        · exact before was latch

end Behaviours

/-- In whatever order calls, loop sections and answers come: a resolved latch tells that
all is saved.  The latch is clear whenever a save loop runs, unless a loop was started
over a rejected latch, by a resumption of saves or by the end of a batch without changes,
for a change that was noted before; then the latch stays rejected as long as it runs over
a settled latch.  A loop that finds the latch clear leaves it resolved if all is saved and
rejected if its attempt failed or saves are suppressed, and clear only if a change waits
for the end of a batch. -/
theorem latch_coherent {r₀ : Record τ} {trace : ℕ → Engine τ} {type : τ}
    {attempts : List Delta} (h : Behaviour Turn (start r₀) trace)
    (made : Record.Reachable type r₀ attempts) :
    (∀ n, (trace n).controller.latch = .resolved →
      (trace n).controller.isSynchronized = true) ∧
    ((∀ n, (trace n).controller.running = true → (trace n).controller.latch = .clear) ↔
      ∀ n, ¬ Restarts (trace n) (trace (n + 1))) ∧
    (∀ n, (trace n).controller.running = true → (trace n).controller.latch ≠ .clear →
      ∃ m, m < n ∧ Restarts (trace m) (trace (m + 1)) ∧ ∀ i, m < i → i ≤ n →
        (trace i).controller.running = true ∧ (trace i).controller.latch = .rejected) ∧
    ∀ n, (trace n).controller.running = true → (trace n).controller.latch = .clear →
      (trace (n + 1)).controller.running = false →
      (trace (n + 1)).controller.Ended .clear := by
  have sound := made.sound.1
  refine ⟨fun n => (attends_tells h sound n).2,
    ⟨fun armed n restarts => ?_, fun never n busy => ?_⟩,
    fun n => restarted_of_stale h sound, fun n busy clear idle => ?_⟩
  · obtain ⟨busy, rejected⟩ := restarts.stale
    cases (armed (n + 1) busy).symm.trans rejected
  · by_contra settled
    obtain ⟨m, -, restarts, -⟩ := restarted_of_stale h sound busy settled
    exact never m restarts
  · rcases h.same_or_step n with same | turn
    · exact absurd (idle.symm.trans (by rw [same]; exact busy)) Bool.false_ne_true
    · cases (attends_tells h sound n).1.turned turn with
      | called _ _ _ _ kept =>
          exact absurd (idle.symm.trans (kept busy)) Bool.false_ne_true
      | goesOn _ on => exact absurd (idle.symm.trans on) Bool.false_ne_true
      | ended _ _ ended => exact clear ▸ ended

/-- A tag is written, saves are suppressed before its loop begins, and then resumed. -/
theorem exists_restarted :
    ∃ x : Engine Entity, Relation.ReflTransGen Turn (start (.blank .task 1)) x ∧
      x.controller.running = true ∧ x.controller.latch = .rejected := by
  have resumed := Relation.ReflTransGen.single
    (Turn.call (start (.blank Entity.task 1)) (.resume true) trivial)
  have written := resumed.tail (.call _ (.update true [.write "tag" (.text "a")]) trivial)
  have suppressed := written.tail (.call _ .suppress trivial)
  have stopped := suppressed.tail (@Turn.begin _ _ _ [] [] rfl)
  exact ⟨_, stopped.tail (.call _ (.resume true) trivial), rfl, rfl⟩

/-- The restart is found again in a behaviour that comes to such a state. -/
theorem latch_coherent_of_restarted :
    ∃ trace, Behaviour Turn (start (.blank Entity.task 1)) trace ∧
      ∃ m n, m < n ∧ Restarts (trace m) (trace (m + 1)) ∧
        (trace n).controller.running = true ∧ (trace n).controller.latch = .rejected := by
  obtain ⟨x, reached, busy, rejected⟩ := exists_restarted
  obtain ⟨trace, n, behaviour, ended⟩ := exists_behaviour reached
  have here := ended n le_rfl
  obtain ⟨m, earlier, restarts, -⟩ := (latch_coherent behaviour (.blank 1)).2.2.1 n
    (by rw [here]; exact busy) (by rw [here, rejected]; exact Latch.noConfusion)
  exact ⟨trace, behaviour, m, n, earlier, restarts, by rw [here]; exact busy,
    by rw [here]; exact rejected⟩

/-- A loop runs and the latch is settled: a call that is to wait for the loop does not
wait. -/
theorem call_spins_on_stale_latch :
    ∃ x : Engine Entity, Relation.ReflTransGen Turn (start (.blank .task 1)) x ∧
      x.controller.running = true ∧ x.controller.latch ≠ .clear ∧
        Drain.fresh.poll true x.controller = (x.controller, .ready .fresh) := by
  obtain ⟨x, reached, busy, rejected⟩ := exists_restarted
  refine ⟨x, reached, busy, by rw [rejected]; exact Latch.noConfusion, ?_⟩
  simp [Drain.poll, Drain.fresh, Controller.drainStep, Drain.await, busy, rejected,
    Latch.isSettled]

end Engine

end RecordSync
