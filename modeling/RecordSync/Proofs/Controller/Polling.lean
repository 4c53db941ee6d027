import RecordSync.Proofs.Controller.Batches
import RecordSync.Proofs.Controller.Ending

/-!
# Polls and loops outside any batch

While no batch is open, nothing but a suppression holds saves back.  Then a call that is
polled waits for the loop that runs, or returns, or asks for a new attempt; and a section
of a loop either goes on or ends the loop and settles the latch.

**Results.**
* `Drain.polled_poll`: what a poll does to the controller, and where the call stands then.
* `Controller.Steady.begins`, `Controller.Steady.finishes`: what the two sections of a
  loop do.
-/

namespace RecordSync

variable {τ : Type}

namespace Controller

variable {c : Controller τ}

/-- What a call finds that looks at a controller without a batch or a loop. -/
theorem drainStep_outside (idle : c.running = false) (outside : c.batchDepth = 0)
    (unchanged : c.batchChanges = 0) :
    c.drainStep =
      if c.record.dirty = 0 ∧ (c.suppressed = true ∨ c.pending = false) then
        ({ c with pending := false }, .done true)
      else if c.suppressed = true then (c, .done false) else (c, .retry) := by
  obtain ⟨record, running, pending, suppressed, batchDepth, batchChanges, dirty,
      status, latch⟩ := c
  dsimp only at idle outside unchanged ⊢
  subst idle outside unchanged
  by_cases clean : record.dirty = 0 <;> cases suppressed <;> cases pending <;>
    simp [drainStep, hasPending, clean]

end Controller

/-- What a poll of a call does to a controller without a batch, and where the call stands
then. -/
inductive Drain.Polled (runtime : Bool) (call : Drain) (c : Controller τ) :
    Controller τ × Poll → Prop
  /-- A loop runs, and the call waits for its end. -/
  | busy : c.running = true → Polled runtime call c (c, .suspended ⟨call.retried, true⟩)
  /-- All is saved; suppressed changes that were taken back need not be sent. -/
  | saved : { c with pending := false }.isSynchronized = true →
      Polled runtime call c ({ c with pending := false }, .finished true)
  | suppressed : c.running = false → c.suppressed = true → c.record.dirty ≠ 0 →
      Polled runtime call c (c, .finished false)
  /-- The call has started an attempt before. -/
  | again : c.running = false → c.suppressed = false → call.retried = true →
      (c.pending = false → c.record.dirty ≠ 0) →
      Polled runtime call c (c, .finished false)
  | asks : c.running = false → c.suppressed = false → call.retried = false →
      runtime = true → (c.pending = false → c.record.dirty ≠ 0) →
        Polled runtime call c
          ({ c with latch := .clear, pending := true, running := true },
            .suspended ⟨true, true⟩)
  /-- There is nothing to run an attempt on. -/
  | unsupported : c.running = false → c.suppressed = false → call.retried = false →
      runtime = false → (c.pending = false → c.record.dirty ≠ 0) →
        Polled runtime call c ({ c with latch := .clear, pending := true }, .finished false)

/-- A call that waits for the latch is polled in vain only while a loop runs. -/
theorem Drain.polled_poll {call : Drain} {c : Controller τ} (runtime : Bool)
    (outside : c.batchDepth = 0) (unchanged : c.batchChanges = 0)
    (armed : c.running = true → c.latch = .clear)
    (told : call.waiting = true → c.running = false → c.latch ≠ .clear) :
    Polled runtime call c (call.poll runtime c) := by
  obtain ⟨retried, waiting⟩ := call
  rw [poll]
  dsimp only at told ⊢
  cases running : c.running with
  | true =>
      have unsettled : c.latch.isSettled = false := by rw [armed running]; rfl
      cases waiting with
      | true =>
          rw [if_pos (by simp [unsettled])]
          exact .busy running
      | false =>
          rw [if_neg (by simp), Controller.drainStep, if_pos running]
          simp only [await, unsettled, Bool.false_eq_true, if_false]
          exact .busy running
  | false =>
      have looks : ¬ (waiting && !c.latch.isSettled) = true := by
        simp only [Latch.isSettled, Bool.and_eq_true, Bool.not_eq_true',
          decide_eq_false_iff_not, not_and, not_not]
        exact fun waits => told waits running
      rw [if_neg looks, c.drainStep_outside running outside unchanged]
      by_cases saved : c.record.dirty = 0 ∧ (c.suppressed = true ∨ c.pending = false)
      · rw [if_pos saved]
        exact .saved (Controller.isSynchronized_iff.mpr ⟨running, rfl, unchanged, saved.1⟩)
      · rw [if_neg saved]
        cases suppressed : c.suppressed with
        | true =>
            exact .suppressed running suppressed (fun clean => saved ⟨clean, .inl suppressed⟩)
        | false =>
            have unsaved : c.pending = false → c.record.dirty ≠ 0 :=
              fun quiet clean => saved ⟨clean, .inr quiet⟩
            have may : c.maySend = true := by
              simp [Controller.maySend, suppressed, outside]
            cases retried with
            | true => exact .again running suppressed rfl unsaved
            | false =>
                rw [if_neg Bool.false_ne_true]
                dsimp only
                rw [if_neg Bool.false_ne_true, Controller.kick, if_neg (by simp [running]),
                  if_neg (by simp [may])]
                cases runtime with
                | true => exact .asks running suppressed rfl rfl unsaved
                | false => exact .unsupported running suppressed rfl rfl unsaved

namespace Controller

variable [Catalog τ] {c : Controller τ}

/-- The first section of a loop sends, unless saves are suppressed or the record is clean;
then the loop ends. -/
theorem Steady.begins (h : c.Steady) (running : c.running = true)
    (pending : c.pending = true) (outside : c.batchDepth = 0) :
    (∃ c' shown, c.beginAttempt = (c', .over shown) ∧ c'.running = false ∧ c'.latch ≠ .clear ∧
        c'.suppressed = c.suppressed ∧ c'.batchDepth = 0 ∧
          (c.suppressed = false → c'.isSynchronized = true)) ∨
      (c.suppressed = false ∧ c.beginAttempt =
        ({ c with record := c.record.markSent, pending := false, status := .saving },
          .sending c.record.patch c.record.delta)) := by
  rcases c.beginAttempt_cases with ⟨pending', dirty, status, latch, shown, e, -⟩ |
    ⟨-, may, e⟩
  · refine .inl ⟨_, shown, e, rfl, ?_, rfl, outside, fun free => ?_⟩
    · rcases h.beginAttempt_ended pending with ⟨goesOn, -⟩ | ⟨-, ended⟩
      · rw [e, running] at goesOn
        cases goesOn
      · rw [e] at ended
        exact ended.settled_or_held.resolve_right (fun held => Nat.ne_of_gt held.2 outside)
    · rcases beginAttempt_of_free pending free outside with ⟨clean, _, _, _, e'⟩ | ⟨-, e'⟩
      · rw [(Prod.mk.inj (e.symm.trans e')).1]
        exact isSynchronized_iff.mpr ⟨rfl, rfl, h.batch outside, clean⟩
      · cases (Prod.mk.inj (e.symm.trans e')).2
  · simp only [maySend, Bool.and_eq_true, Bool.not_eq_true'] at may
    exact .inr ⟨may.1, e⟩

/-- How things stand when a loop has taken its answer. -/
structure Finished (c : Controller τ) (accepted : Bool) (result : Controller τ × Bool) :
    Prop where
  suppressed : result.1.suppressed = c.suppressed
  batchDepth : result.1.batchDepth = c.batchDepth
  pending : result.1.pending = c.pending
  running : result.1.running = result.2
  latch : result.1.latch = .clear ↔ result.2 = true
  goesOn : result.2 = true → c.pending = true
  saved : c.pending = false → accepted = true → result.1.isSynchronized = true

/-- The second section of a loop goes on only for a pending change, and settles the latch
if it does not. -/
theorem Steady.finishes (h : c.Steady) {taken : Record τ} {d : Delta}
    (awaits : c.Awaits taken d) (outside : c.batchDepth = 0) (clear : c.latch = .clear)
    (accepted : Bool) : c.Finished accepted (c.finishAttempt d accepted) := by
  obtain ⟨record, running, dirty, status, latch, e, goesOn, -⟩ :=
    c.finishAttempt_cases d accepted
  rw [awaits.running, Bool.true_and] at goesOn
  have ended := h.finishAttempt_ended awaits accepted
  have serves := (h.finishAttempt awaits accepted).2
  have silent : c.pending = false → accepted = true →
      (c.finishAttempt d accepted).2 = false ∧
      (c.finishAttempt d accepted).1.record.dirty = 0 := by
    rintro quiet rfl
    have nothing : c.hasPending = false := by simp [hasPending, quiet, h.batch outside]
    rw [awaits.delta_eq]
    obtain ⟨c', e', clean⟩ :=
      finishAttempt_of_silent awaits.sound (awaits.unchanged nothing) nothing
    rw [e']
    exact ⟨rfl, clean⟩
  generalize c.finishAttempt d accepted = result at *
  obtain ⟨c', more⟩ := result
  dsimp only at e goesOn ended serves silent
  subst e goesOn
  refine ⟨rfl, rfl, rfl, rfl, ?_, fun on => ?_, fun quiet taken => ?_⟩
  · rcases ended with ⟨on, latch⟩ | ⟨idle, ended⟩
    · exact ⟨fun _ => on.trans awaits.running, fun _ => latch.trans clear⟩
    · dsimp only at idle
      subst idle
      refine ⟨fun unsettled => absurd unsettled ?_, fun on => absurd on Bool.false_ne_true⟩
      exact ended.settled_or_held.resolve_right (fun held => Nat.ne_of_gt held.2 outside)
  · dsimp only at on
    rw [on] at serves
    exact serves.2
  · obtain ⟨ends, clean⟩ := silent quiet taken
    exact isSynchronized_iff.mpr ⟨ends, quiet, h.batch outside, clean⟩

end Controller

end RecordSync
