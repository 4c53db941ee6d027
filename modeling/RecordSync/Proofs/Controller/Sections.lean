import RecordSync.Proofs.Controller.SaveLoop

/-!
# Calls from outside the save loops

A call takes hold of the controller for one critical section.  Some calls start a save
loop if there is a runtime on their thread; on a thread without one they leave the change
noted, for the next call that can start a loop.  So each call says for itself whether
there is a runtime.

Calls raise the flag `pending` only when they signal a change: an update outside any batch
that tells of a change, the end of an outermost batch in which there was such an update,
and a waiting call that asks for a new attempt while no loop runs and nothing holds saves
back.

**Results.**
* `Controller.Call.effect`: what a call does; in particular a call that does not signal
  does not raise the flag, and changes are counted for a batch exactly if an update in it
  told of one.
* `Controller.Call.Effect.view`: a call that changes what the user sees signals, or leaves
  a batch open whose end will.
* `Controller.beginAttempt_cases`, `Controller.finishAttempt_cases`: the two sections of a
  loop.
-/

namespace RecordSync

variable {τ : Type}

/-- A critical section of a call.  `runtime` says whether there is something to run a loop
on. -/
inductive Controller.Call
  | update (runtime : Bool) (edits : List Edit)
  | openBatch
  | closeBatch (runtime : Bool)
  | suppress
  | resume (runtime : Bool)
  /-- A waiting call looks at the controller. -/
  | look
  /-- A waiting call asks for a new attempt. -/
  | kick (runtime : Bool)

namespace Controller

variable {c : Controller τ}

theorem start_cases (runtime : Bool) (c : Controller τ) :
    ∃ running, (c.running = true → running = true) ∧
      c.start runtime = { c with running := running } := by
  rw [start]
  split
  · exact ⟨true, fun _ => rfl, rfl⟩
  · exact ⟨c.running, id, rfl⟩

/-- Inside a batch a change is counted. -/
theorem noteChange_inside (inside : 0 < c.batchDepth) (runtime : Bool) :
    c.noteChange runtime =
      { c with
        dirty := c.record.dirty, latch := .clear,
        batchChanges := c.batchChanges + 1 } := by
  rw [noteChange]
  exact if_pos inside

/-- Outside any batch a change raises the flag. -/
theorem noteChange_outside (outside : c.batchDepth = 0) (runtime : Bool) :
    ∃ running, (c.running = true → running = true) ∧ c.noteChange runtime =
      { c with
        dirty := c.record.dirty, latch := .clear, pending := true,
        running := running } := by
  rw [noteChange]
  dsimp only
  rw [if_neg (by omega)]
  split
  · exact ⟨c.running, id, rfl⟩
  · exact start_cases runtime
      { c with dirty := c.record.dirty, latch := .clear, pending := true }

variable [Catalog τ]

/-- The edits tell of a change. -/
def notifies (c : Controller τ) (edits : List Edit) : Bool :=
  (c.record.editAll edits).2.any (·.1.isSome)

theorem update_eq (runtime : Bool) (edits : List Edit) :
    (c.update runtime edits).1 =
      if c.notifies edits then { c with record := (c.record.editAll edits).1 }.noteChange
      runtime else { c with record := (c.record.editAll edits).1 } := by
  rw [update, notifies]

end Controller

namespace Controller.Call

variable [Catalog τ] {c : Controller τ} {a : Call}

/-- What a call does to the controller. -/
def run (c : Controller τ) : Call → Controller τ
  | update runtime edits => (c.update runtime edits).1
  | openBatch => c.openBatch
  | closeBatch runtime => c.closeBatch runtime
  | suppress => c.suppress
  | resume runtime => c.resume runtime
  | look => c.drainStep.1
  | kick runtime => (c.kick runtime).1

/-- Only an open batch is closed. -/
def Possible (c : Controller τ) : Call → Prop
  | closeBatch _ => 0 < c.batchDepth
  | _ => True

/-- The call signals a change; `touched` says that an update in the open batch told of
one. -/
def signals (c : Controller τ) (touched : Bool) : Call → Bool
  | update _ edits => c.notifies edits && c.batchDepth == 0
  | closeBatch _ => c.batchDepth == 1 && touched
  | kick _ => !c.running && c.maySend
  | _ => false

/-- After the call there is an open batch in which an update told of a change. -/
def touches (c : Controller τ) (touched : Bool) : Call → Bool
  | update _ edits => touched || (c.notifies edits && decide (0 < c.batchDepth))
  | closeBatch _ => touched && c.batchDepth != 1
  | _ => touched

/-- What a call can do.  `was` and `touched` say that the open batch, before and after it,
has an update that told of a change, `signal` that the call signals one. -/
structure Effect (c c' : Controller τ) (was touched signal : Bool) : Prop where
  running : c.running = true → c'.running = true
  pending : c'.pending = true → c.pending = true ∨ signal = true
  record : ∃ edits, c'.record = (c.record.editAll edits).1 ∧
    (c.notifies edits = true → touched = true ∨ signal = true)
  closed : c'.batchDepth = 0 → c'.batchChanges = 0
  counted : touched = decide (0 < c'.batchChanges)
  kept : was = true → touched = true ∨ signal = true

section Effects

variable {c' : Controller τ} {touched : Bool}

/-- Nothing tells of a change. -/
theorem Effect.quiet (counted : touched = decide (0 < c.batchChanges))
    (record : c'.record = c.record) (running : c.running = true → c'.running = true)
    (pending : c'.pending = true → c.pending = true)
    (changes : c'.batchChanges = c.batchChanges)
    (closed : c'.batchDepth = 0 → c'.batchChanges = 0) :
    Effect c c' touched touched false where
  running := running
  pending := fun h => .inl (pending h)
  record := ⟨[], record, fun notified => absurd notified Bool.false_ne_true⟩
  closed := closed
  counted := changes ▸ counted
  kept := .inl

/-- A change is noted outside any batch, once the edits of the call are done. -/
theorem Effect.raised {c₁ : Controller τ} (was : Bool) (runtime : Bool)
    {edits : List Edit} (record : c₁.record = (c.record.editAll edits).1)
    (running : c.running = true → c₁.running = true) (outside : c₁.batchDepth = 0)
    (none : c₁.batchChanges = 0) : Effect c (c₁.noteChange runtime) was false true := by
  obtain ⟨running', kept, e⟩ := Controller.noteChange_outside outside runtime
  rw [e]
  refine ⟨fun busy => kept (running busy), fun _ => .inr rfl,
    ⟨edits, record, fun _ => .inr rfl⟩, fun _ => none, ?_, fun _ => .inr rfl⟩
  simp [none]

theorem effect_update (counted : touched = decide (0 < c.batchChanges))
    (closed : c.batchDepth = 0 → c.batchChanges = 0) (runtime : Bool)
    (edits : List Edit) : Effect c (c.update runtime edits).1 touched
      (touched || (c.notifies edits && decide (0 < c.batchDepth)))
      (c.notifies edits && c.batchDepth == 0) := by
  rw [Controller.update_eq]
  cases notified : c.notifies edits with
  | false =>
      simp only [Bool.false_and, Bool.or_false, Bool.false_eq_true, if_false]
      exact ⟨id, .inl, ⟨edits, rfl, by simp [notified]⟩, closed, counted, .inl⟩
  | true =>
      simp only [Bool.true_and, if_true]
      rcases Nat.eq_zero_or_pos c.batchDepth with outside | inside
      · have none := closed outside
        have untouched : (touched || decide (0 < c.batchDepth)) = false := by
          simp [counted, none, outside]
        rw [untouched, beq_iff_eq.mpr outside]
        exact .raised _ runtime rfl id outside none
      · simp only [decide_eq_true inside, Bool.or_true, beq_false_of_ne (Nat.ne_of_gt inside)]
        rw [Controller.noteChange_inside
          (c := { c with record := (c.record.editAll edits).1 }) inside]
        refine ⟨id, .inl, ⟨edits, rfl, fun _ => .inl rfl⟩, ?_, ?_, fun _ => .inl rfl⟩
        · exact fun none => absurd none (Nat.ne_of_gt inside)
        · simp

theorem effect_closeBatch (counted : touched = decide (0 < c.batchChanges))
    (opened : 0 < c.batchDepth) (runtime : Bool) :
    Effect c (c.closeBatch runtime) touched (touched && c.batchDepth != 1)
      (c.batchDepth == 1 && touched) := by
  rw [Controller.closeBatch]
  dsimp only
  by_cases outermost : c.batchDepth = 1
  · rw [if_neg (by omega)]
    simp only [outermost, bne_self_eq_false, Bool.and_false, beq_self_eq_true, Bool.true_and]
    by_cases changed : 0 < c.batchChanges
    · rw [if_pos changed, counted, decide_eq_true changed]
      exact @Effect.raised _ _ _ _ _ runtime [] rfl id rfl rfl
    · have none : c.batchChanges = 0 := by omega
      rw [if_neg changed]
      obtain rfl : touched = false := by simpa [none] using counted
      split
      · obtain ⟨running, kept, e⟩ := Controller.start_cases runtime
          { c with batchDepth := 1 - 1 }
        rw [e]
        exact .quiet counted rfl kept id rfl (fun _ => none)
      · exact .quiet counted rfl id id rfl (fun _ => none)
  · have inner : 0 < c.batchDepth - 1 := by omega
    simp only [if_pos inner, bne_iff_ne.mpr outermost, beq_false_of_ne outermost,
      Bool.and_true, Bool.false_and]
    exact .quiet counted rfl id id rfl (fun none => absurd none (Nat.ne_of_gt inner))

theorem effect_kick (counted : touched = decide (0 < c.batchChanges))
    (closed : c.batchDepth = 0 → c.batchChanges = 0) (runtime : Bool) :
    Effect c (c.kick runtime).1 touched touched (!c.running && c.maySend) := by
  rw [Controller.kick]
  by_cases busy : c.running = true
  · rw [if_pos busy, show (!c.running && c.maySend) = false by simp [busy]]
    exact .quiet counted rfl id id rfl closed
  · rw [if_neg busy]
    by_cases may : c.maySend = true
    · rw [if_neg (by simp [may]), show (!c.running && c.maySend) = true by simp [busy, may]]
      obtain ⟨running, kept, e⟩ := Controller.start_cases runtime
        { c with latch := .clear, pending := true }
      dsimp only
      rw [e]
      exact ⟨kept, fun _ => .inr rfl, ⟨[], rfl, fun _ => .inr rfl⟩, closed, counted,
        fun _ => .inr rfl⟩
    · rw [if_pos (by simpa using may), show (!c.running && c.maySend) = false by simp [may]]
      exact .quiet counted rfl id id rfl closed

/-- What a call does, when changes are counted exactly for an open batch. -/
theorem effect (counted : touched = decide (0 < c.batchChanges))
    (closed : c.batchDepth = 0 → c.batchChanges = 0) (possible : a.Possible c) :
    Effect c (a.run c) touched (a.touches c touched) (a.signals c touched) := by
  cases a with
  | update runtime edits => exact effect_update counted closed runtime edits
  | openBatch =>
      exact .quiet counted rfl id id rfl (fun none => absurd none (Nat.succ_ne_zero _))
  | closeBatch runtime => exact effect_closeBatch counted possible runtime
  | suppress => exact .quiet counted rfl id id rfl closed
  | resume runtime =>
      rw [run, Controller.resume]
      dsimp only
      split
      · obtain ⟨running, kept, e⟩ := Controller.start_cases runtime
          { c with suppressed := false }
        rw [e]
        exact .quiet counted rfl kept id rfl closed
      · exact .quiet counted rfl id id rfl closed
  | look =>
      rw [run]
      rcases c.drainStep_eq with e | ⟨idle, -, e⟩
      · rw [e]
        exact .quiet counted rfl id id rfl closed
      · rw [e]
        exact .quiet counted rfl id (fun raised => absurd raised Bool.false_ne_true) rfl closed
  | kick runtime => exact effect_kick counted closed runtime

/-- A call that changes what the user sees either signals a change or leaves a batch open
whose end will. -/
theorem Effect.view {was signal : Bool} (h : Effect c c' was touched signal)
    (sound : c.record.Sound) :
    c.record.Evolves c'.record ∧ (c'.record = c.record ∨ touched = true ∨ signal = true) := by
  obtain ⟨edits, e, told⟩ := h.record
  obtain ⟨evolves, silent⟩ := sound.editAll edits
  rw [e]
  refine ⟨evolves, ?_⟩
  cases notified : c.notifies edits with
  | true => exact .inr (told notified)
  | false => exact .inl (silent notified)

end Effects

end Controller.Call

namespace Controller

section Loops

variable (c : Controller τ)

/-- A loop that begins an attempt sends the patch of the whole record if a change is
pending and nothing holds saves back; otherwise it ends, or goes over to the end, and
raises no flag. -/
theorem beginAttempt_cases :
    (∃ pending dirty status latch shown,
      c.beginAttempt = ({ c with
        running := false, pending := pending, dirty := dirty, status := status,
        latch := latch },
        .over shown) ∧ (pending = true → c.pending = true)) ∨
      (c.pending = true ∧ c.maySend = true ∧ c.beginAttempt =
        ({ c with record := c.record.markSent, pending := false, status := .saving },
          .sending c.record.patch c.record.delta)) := by
  rw [beginAttempt]
  split
  next held =>
    obtain ⟨latch, e⟩ := c.stop_eq
    rw [e]
    exact .inl ⟨c.pending, c.dirty, c.status, latch, none, rfl, id⟩
  next free =>
    simp only [Bool.or_eq_true, Bool.not_eq_true', not_or, Bool.not_eq_false] at free
    dsimp only
    cases sent : c.record.synchronize with
    | none =>
        exact .inl ⟨false, _, _, _, _, rfl, fun raised => absurd raised Bool.false_ne_true⟩
    | some result =>
        obtain ⟨patch, d, r⟩ := result
        obtain ⟨-, rfl, rfl, rfl⟩ := Record.synchronize_eq_some.mp sent
        exact .inr ⟨free.1, free.2, rfl⟩

/-- A loop that has its answer commits the delta or takes it back, and goes on only while
the controller is running. -/
theorem finishAttempt_cases (d : Delta) (accepted : Bool) :
    ∃ record running dirty status latch,
      (c.finishAttempt d accepted).1 = { c with
        record := record, running := running, dirty := dirty, status := status,
        latch := latch } ∧
      running = (c.running && (c.finishAttempt d accepted).2) ∧
      (record = c.record ∨ c.record.commit d = .ok record ∨ record = c.record.rollback d) := by
  have goesOn : ∀ c' : Controller τ, ∃ latch,
      c'.continue?.1 =
        { c' with running := c'.running && c'.continue?.2, latch := latch } := by
    intro c'
    rw [continue?]
    split
    · exact ⟨c'.latch, by simp⟩
    · obtain ⟨latch, e⟩ := c'.stop_eq
      exact ⟨latch, by simp [e]⟩
  rw [finishAttempt]
  cases accepted with
  | true =>
      rw [if_pos rfl]
      cases committed : c.record.commit d with
      | error e => exact ⟨c.record, false, _, _, _, rfl, by simp, .inl rfl⟩
      | ok r =>
          dsimp only
          obtain ⟨latch, e⟩ := settleUnlessPending_eq
            { c with record := r, dirty := r.dirty, status := .saved } .resolved
          rw [e]
          obtain ⟨latch', e'⟩ := goesOn { c with
            record := r, dirty := r.dirty, status := .saved, latch := latch }
          exact ⟨r, _, _, _, latch', e', rfl, .inr (.inl rfl)⟩
  | false =>
      rw [if_neg Bool.false_ne_true]
      obtain ⟨latch, e⟩ := settleUnlessPending_eq
        { c with record := c.record.rollback d, status := .notSaved } .rejected
      rw [e]
      obtain ⟨latch', e'⟩ := goesOn { c with
        record := c.record.rollback d, status := .notSaved, latch := latch }
      exact ⟨_, _, _, _, latch', e', rfl, .inr (.inr rfl)⟩

end Loops

end Controller

end RecordSync
