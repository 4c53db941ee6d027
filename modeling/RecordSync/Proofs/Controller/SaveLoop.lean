import RecordSync.Proofs.Controller.Interleaving

/-!
# No change is forgotten

A controller notes a change by a flag, or while a batch is open by a count.  The flag is
lowered when an attempt begins, and by a waiting call that finds a clean record; a loop
may stop with the flag raised, because a batch is open or saves are suppressed, and then
whoever ends that starts a new one.

**Invariant.**  At most one save loop exists, and it exists exactly while the controller
is running.  A loop that is about to begin an attempt finds the flag raised.  While a
request is under way the record has the trunk of the record that was sent, and is that
very record unless a change was noted.

**Results.**
* `Engine.Holds.step`: each step keeps the invariant.
* `Engine.Reachable.nothing_forgotten`: while no loop runs, nothing is pending that could
  be sent, and a record is dirty only if a change is pending or the last attempt failed;
  and the count of the controller is that of the record.
-/

namespace RecordSync

variable {τ : Type} [Catalog τ]

namespace Controller

/-- What holds of a controller at any time: its record is sound, its count is that of the
record, and without a batch nothing is counted for one. -/
structure Steady (c : Controller τ) : Prop where
  sound : c.record.Sound
  dirty_eq : c.dirty = c.record.dirty
  batch : c.batchDepth = 0 → c.batchChanges = 0

/-- What holds of a controller while no save loop runs. -/
structure Idle (c : Controller τ) : Prop where
  running : c.running = false
  sent : c.maySend = true → c.pending = false
  kept : c.record.dirty ≠ 0 → c.hasPending = true ∨ c.status = .notSaved

/-- What holds of a controller while a delta that was taken of a record is under way. -/
structure Awaits (c : Controller τ) (taken : Record τ) (d : Delta) : Prop where
  running : c.running = true
  sound : taken.Sound
  delta_eq : d = taken.delta
  trunk : c.record.trunk = taken.markSent.trunk
  unchanged : c.hasPending = false → c.record = taken.markSent

/-- What holds of a controller, by the save loops that run on it. -/
def Serves (c : Controller τ) : List (SaveLoop τ) → Prop
  | [] => c.Idle
  | [.starting] => c.running = true ∧ c.pending = true
  | [.sending taken patch d] => c.Awaits taken d ∧ patch = taken.patch
  | [.answered taken d _] => c.Awaits taken d
  | _ => False

end Controller

structure Engine.Holds (x : Engine τ) : Prop where
  steady : x.controller.Steady
  serves : x.controller.Serves x.loops

namespace Controller

section Sections

variable {c c' : Controller τ}

theorem Serves.alone {before later : List (SaveLoop τ)} {l : SaveLoop τ}
    (h : c.Serves (before ++ l :: later)) : before = [] ∧ later = [] := by
  have one : ∀ (a b : SaveLoop τ) (rest : List (SaveLoop τ)),
      ¬ c.Serves (a :: b :: rest) := by
    intro a b rest serves
    cases a <;> exact serves
  cases before with
  | nil =>
      cases later with
      | nil => exact ⟨rfl, rfl⟩
      | cons b rest => exact absurd h (one l b rest)
  | cons a before =>
      cases before with
      | nil => exact absurd h (one a l later)
      | cons b before => exact absurd h (one a b _)

/-- Where the save loop stands, if there is one. -/
theorem Serves.stands {loops : List (SaveLoop τ)} (h : c.Serves loops) :
    (loops = [] ∧ c.Idle) ∨ (loops = [.starting] ∧ c.running = true ∧ c.pending = true) ∨
      (∃ taken d, loops = [.sending taken taken.patch d] ∧ c.Awaits taken d) ∨
        ∃ taken d accepted, loops = [.answered taken d accepted] ∧ c.Awaits taken d := by
  cases loops with
  | nil => exact .inl ⟨rfl, h⟩
  | cons l rest =>
      obtain ⟨-, rfl⟩ := @Serves.alone _ _ c [] rest l h
      cases l with
      | starting => exact .inr (.inl ⟨rfl, h⟩)
      | sending taken patch d =>
          obtain ⟨awaits, rfl⟩ := h
          exact .inr (.inr (.inl ⟨taken, d, rfl, awaits⟩))
      | answered taken d accepted => exact .inr (.inr (.inr ⟨taken, d, accepted, rfl, h⟩))

/-- What a critical section outside the save loops does: a running loop goes on and no
change is lost; without a loop, one is started for what is pending, or the controller
stays idle. -/
structure Minds (c c' : Controller τ) : Prop where
  steady : c'.Steady
  busy : c.running = true → c'.running = true ∧ (c.pending = true → c'.pending = true) ∧
    c'.record.trunk = c.record.trunk ∧
    (c'.hasPending = false → c.hasPending = false ∧ c'.record = c.record)
  idle : c.Idle → c'.running = true ∧ c'.pending = true ∨ c'.Idle

/-- A request stays the only concern of a running loop. -/
theorem Awaits.minds {taken : Record τ} {d : Delta} (h : c.Awaits taken d)
    (minds : c.Minds c') : c'.Awaits taken d := by
  obtain ⟨running, -, trunk, unchanged⟩ := minds.busy h.running
  refine ⟨running, h.sound, h.delta_eq, trunk.trans h.trunk, ?_⟩
  intro silent
  obtain ⟨silent, same⟩ := unchanged silent
  exact same.trans (h.unchanged silent)

/-- A critical section outside the save loops keeps the invariant. -/
theorem Minds.holds {x : Engine τ} (h : x.Holds) (minds : x.controller.Minds c') :
    (x.after c').Holds := by
  refine ⟨minds.steady, ?_⟩
  have serves := h.serves
  obtain ⟨c, loops⟩ := x
  dsimp only at serves minds
  rw [Engine.after]
  rcases serves.stands with ⟨rfl, idle⟩ | ⟨rfl, running, pending⟩ |
    ⟨taken, d, rfl, awaits⟩ | ⟨taken, d, accepted, rfl, awaits⟩
  · rcases minds.idle idle with ⟨running, pending⟩ | idle'
    · simp only [idle.running, running]
      exact ⟨running, pending⟩
    · simp only [idle.running, idle'.running]
      exact idle'
  · obtain ⟨running', pending', -⟩ := minds.busy running
    simp only [running]
    exact ⟨running', pending' pending⟩
  · simp only [awaits.running]
    exact ⟨awaits.minds minds, rfl⟩
  · simp only [awaits.running]
    exact awaits.minds minds

omit [Catalog τ] in
/-- The three ways to take note of a change. -/
theorem noteChange_eq (c : Controller τ) :
    (0 < c.batchDepth ∧ c.noteChange true =
      { c with
        dirty := c.record.dirty, latch := .clear,
        batchChanges := c.batchChanges + 1 }) ∨
    (c.batchDepth = 0 ∧ (c.running = true ∨ c.suppressed = true) ∧ c.noteChange true =
      { c with dirty := c.record.dirty, latch := .clear, pending := true }) ∨
    (c.batchDepth = 0 ∧ c.noteChange true =
      { c with
        dirty := c.record.dirty, latch := .clear, pending := true,
        running := true }) := by
  rw [noteChange]
  by_cases depth : 0 < c.batchDepth
  · exact .inl ⟨depth, if_pos depth⟩
  · by_cases held : c.running = true ∨ c.suppressed = true
    · refine .inr (.inl ⟨by omega, held, ?_⟩)
      rw [if_neg depth, if_pos (by simpa using held)]
    · refine .inr (.inr ⟨by omega, ?_⟩)
      rw [if_neg depth, if_neg (by simpa using held)]
      rfl

theorem Minds.noteChange {c₁ : Controller τ} (evolves : c.record.Evolves c₁.record)
    (running : c₁.running = c.running) (pending : c₁.pending = c.pending)
    (batch : c₁.batchDepth = 0 → c₁.batchChanges = 0) : c.Minds (c₁.noteChange true) := by
  rcases noteChange_eq c₁ with ⟨inside, e⟩ | ⟨outside, held, e⟩ | ⟨outside, e⟩
  · rw [e]
    refine ⟨⟨evolves.sound, rfl, fun none => absurd none (Nat.ne_of_gt inside)⟩, ?_, ?_⟩
    · intro busy
      exact ⟨running.trans busy, pending.trans, evolves.trunk_eq,
        fun silent => by simp [hasPending] at silent⟩
    · intro idle
      refine .inr ⟨running.trans idle.running, fun may => ?_,
        fun _ => .inl (by simp [hasPending])⟩
      simp only [maySend, Bool.and_eq_true, beq_iff_eq] at may
      exact absurd may.2 (Nat.ne_of_gt inside)
  · rw [e]
    refine ⟨⟨evolves.sound, rfl, batch⟩, ?_, ?_⟩
    · intro busy
      exact ⟨running.trans busy, fun _ => rfl, evolves.trunk_eq,
        fun silent => by simp [hasPending] at silent⟩
    · intro idle
      refine .inr ⟨running.trans idle.running, fun may => ?_, fun _ => .inl rfl⟩
      rcases held with busy | suppressed
      · exact absurd (idle.running.symm.trans (running.symm.trans busy)) Bool.false_ne_true
      · simp only [maySend, Bool.and_eq_true, suppressed] at may
        cases may.1
  · rw [e]
    refine ⟨⟨evolves.sound, rfl, batch⟩, ?_, fun _ => .inl ⟨rfl, rfl⟩⟩
    intro _
    exact ⟨rfl, fun _ => rfl, evolves.trunk_eq, fun silent => by simp [hasPending] at silent⟩

/-- A change of what holds saves back is minded if an idle controller starts a loop for
what it makes possible to send. -/
theorem Minds.of_same {c₁ : Controller τ} (h : c.Steady) (record : c₁.record = c.record)
    (running : c.running = true → c₁.running = true)
    (pending : c.pending = true → c₁.pending = true)
    (changes : c₁.batchChanges = c.batchChanges) (dirty : c₁.dirty = c.dirty)
    (status : c₁.status = c.status) (batch : c₁.batchDepth = 0 → c₁.batchChanges = 0)
    (idle : c.Idle → c₁.running = true ∧ c₁.pending = true ∨
      c₁.running = false ∧ (c₁.maySend = true → c₁.pending = false)) : c.Minds c₁ := by
  have kept : c.hasPending = true → c₁.hasPending = true := by
    intro some
    rw [hasPending, changes, Bool.or_eq_true]
    rw [hasPending, Bool.or_eq_true] at some
    exact some.imp_left pending
  refine ⟨⟨record ▸ h.sound, by rw [dirty, record, h.dirty_eq], batch⟩, ?_, ?_⟩
  · intro busy
    refine ⟨running busy, pending, by rw [record], fun silent => ⟨?_, record⟩⟩
    cases was : c.hasPending with
    | false => rfl
    | true => exact absurd (kept was) (by simp [silent])
  · intro before
    refine (idle before).imp_right (fun ⟨running, sent⟩ => ⟨running, sent, fun dirty => ?_⟩)
    rw [record] at dirty
    rw [status]
    exact (before.kept dirty).imp_left kept

end Sections

section Users

variable {c : Controller τ}

theorem Steady.update (h : c.Steady) (edits : List Edit) :
    c.Minds (c.update true edits).1 := by
  obtain ⟨evolves, unchanged⟩ := h.sound.editAll edits
  rw [Controller.update]
  dsimp only
  split
  next told => exact .noteChange evolves rfl rfl h.batch
  next silent =>
    have same := unchanged (by simpa using silent)
    exact .of_same h same id id rfl rfl rfl h.batch
      (fun idle => .inr ⟨idle.running, idle.sent⟩)

theorem Steady.openBatch (h : c.Steady) : c.Minds c.openBatch := by
  refine .of_same h rfl id id rfl rfl rfl nofun (fun idle => .inr ⟨idle.running, ?_⟩)
  intro may
  simp [maySend, Controller.openBatch] at may

theorem Steady.closeBatch (h : c.Steady) : c.Minds (c.closeBatch true) := by
  rw [Controller.closeBatch]
  dsimp only
  split
  next inside =>
    refine .of_same h rfl id id rfl rfl rfl (fun none => absurd none (Nat.ne_of_gt inside))
      (fun idle => .inr ⟨idle.running, ?_⟩)
    intro may
    simp only [maySend, Bool.and_eq_true, beq_iff_eq] at may
    exact absurd may.2 (Nat.ne_of_gt inside)
  next outside =>
    split
    next changed => exact .noteChange h.sound.evolves rfl rfl (fun _ => rfl)
    next unchanged =>
      have none : c.batchChanges = 0 := Nat.eq_zero_of_not_pos unchanged
      split
      next waiting =>
        simp only [Bool.and_eq_true] at waiting
        exact .of_same h rfl (fun _ => rfl) id rfl rfl rfl (fun _ => none)
          (fun _ => .inl ⟨rfl, waiting.1.1⟩)
      next settled =>
        refine .of_same h rfl id id rfl rfl rfl (fun _ => none)
          (fun idle => .inr ⟨idle.running, ?_⟩)
        intro may
        simp only [maySend, Bool.and_eq_true, Bool.not_eq_true'] at may
        simpa [idle.running, may.1] using settled

theorem Steady.suppress (h : c.Steady) : c.Minds c.suppress := by
  refine .of_same h rfl id id rfl rfl rfl h.batch (fun idle => .inr ⟨idle.running, ?_⟩)
  intro may
  simp [maySend, Controller.suppress] at may

theorem Steady.resume (h : c.Steady) : c.Minds (c.resume true) := by
  rw [Controller.resume]
  dsimp only
  split
  next waiting =>
    simp only [Bool.and_eq_true] at waiting
    exact .of_same h rfl (fun _ => rfl) id rfl rfl rfl h.batch
      (fun _ => .inl ⟨rfl, waiting.1.1⟩)
  next settled =>
    refine .of_same h rfl id id rfl rfl rfl h.batch (fun idle => .inr ⟨idle.running, ?_⟩)
    intro may
    simp only [maySend, Bool.and_eq_true, beq_iff_eq] at may
    simpa [idle.running, may.2] using settled

theorem Steady.kick (h : c.Steady) : c.Minds (c.kick true).1 := by
  rw [Controller.kick]
  split
  next busy =>
    exact .of_same h rfl id id rfl rfl rfl h.batch
      (fun idle => absurd (idle.running.symm.trans busy) Bool.false_ne_true)
  next =>
    split
    next held =>
      exact .of_same h rfl id id rfl rfl rfl h.batch
        (fun idle => .inr ⟨idle.running, idle.sent⟩)
    next =>
      exact .of_same h rfl (fun _ => rfl) (fun _ => rfl) rfl rfl rfl h.batch
        (fun _ => .inl ⟨rfl, rfl⟩)

omit [Catalog τ] in
/-- A look lowers the flag only of a controller with a clean record on which no loop
runs. -/
theorem drainStep_eq (c : Controller τ) :
    c.drainStep.1 = c ∨
      c.running = false ∧ c.record.dirty = 0 ∧
      c.drainStep.1 = { c with pending := false } := by
  rw [Controller.drainStep]
  split
  next => exact .inl rfl
  next idle =>
    split
    next => exact .inl rfl
    next =>
      by_cases clean : (c.suppressed && c.record.dirty == 0) = true
      · simp only [if_pos clean]
        have idle : c.running = false := by simpa using idle
        simp only [Bool.and_eq_true, beq_iff_eq] at clean
        refine .inr ⟨idle, clean.2, ?_⟩
        split
        · rfl
        · split <;> rfl
      · simp only [if_neg clean]
        left
        split
        · rfl
        · split <;> rfl

theorem Steady.drainStep (h : c.Steady) : c.Minds c.drainStep.1 := by
  rcases drainStep_eq c with e | ⟨idle, clean, e⟩
  · rw [e]
    exact .of_same h rfl id id rfl rfl rfl h.batch (fun idle => .inr ⟨idle.running, idle.sent⟩)
  · rw [e]
    refine ⟨⟨h.sound, h.dirty_eq, h.batch⟩, fun busy => ?_, fun before => ?_⟩
    · exact absurd (idle.symm.trans busy) Bool.false_ne_true
    · exact .inr ⟨before.running, fun _ => rfl, fun dirty => absurd clean dirty⟩

end Users

section Loops

variable {c : Controller τ}

omit [Catalog τ] in
theorem stop_eq (c : Controller τ) :
    ∃ latch, c.stop = { c with running := false, latch := latch } := by
  rw [stop]
  dsimp only
  split
  · exact ⟨_, rfl⟩
  · exact ⟨c.latch, rfl⟩

omit [Catalog τ] in
theorem settleUnlessPending_eq (c : Controller τ) (outcome : Latch) :
    ∃ latch, c.settleUnlessPending outcome = { c with latch := latch } := by
  rw [settleUnlessPending]
  split
  · exact ⟨c.latch, rfl⟩
  · exact ⟨_, rfl⟩

/-- A loop that stops with nothing to send, or held back, leaves the controller idle. -/
theorem Steady.stop (h : c.Steady) (sent : c.maySend = true → c.pending = false)
    (kept : c.record.dirty ≠ 0 → c.hasPending = true ∨ c.status = .notSaved) :
    c.stop.Steady ∧ c.stop.Idle := by
  obtain ⟨latch, e⟩ := c.stop_eq
  rw [e]
  exact ⟨⟨h.sound, h.dirty_eq, h.batch⟩, ⟨rfl, sent, kept⟩⟩

/-- A loop that has its answer goes on for what is pending or leaves the controller
idle. -/
theorem Steady.continue (h : c.Steady) (running : c.running = true)
    (kept : c.record.dirty ≠ 0 → c.hasPending = true ∨ c.status = .notSaved) :
    c.continue?.1.Steady ∧ c.continue?.1.Serves (Engine.finished c.continue?.2) := by
  rw [continue?]
  split
  next more =>
    simp only [Bool.and_eq_true] at more
    exact ⟨h, running, more.1⟩
  next ended =>
    refine h.stop (fun may => ?_) kept
    simpa [may] using ended

/-- What the first section of a loop does. -/
theorem Steady.beginAttempt (h : c.Steady) (running : c.running = true)
    (pending : c.pending = true) :
    c.beginAttempt.1.Steady ∧ c.beginAttempt.1.Serves
      (Engine.begun c.record c.beginAttempt.2) := by
  rw [Controller.beginAttempt]
  split
  next held =>
    refine h.stop (fun may => ?_) (fun _ => .inl (by simp [hasPending, pending]))
    simp [pending, may] at held
  next =>
    dsimp only
    cases sent : c.record.synchronize with
    | none =>
        have clean : c.record.dirty = 0 := h.sound.exact_count.2.2.1.mpr sent
        exact ⟨⟨h.sound, clean.symm, h.batch⟩,
          ⟨rfl, fun _ => rfl, fun dirty => absurd clean dirty⟩⟩
    | some result =>
        obtain ⟨patch, d, r⟩ := result
        obtain ⟨-, rfl, rfl, rfl⟩ := Record.synchronize_eq_some.mp sent
        refine ⟨⟨h.sound.markSent, ?_, h.batch⟩,
          ⟨running, h.sound, rfl, rfl, fun _ => rfl⟩, rfl⟩
        exact h.dirty_eq.trans h.sound.alike_markSent.dirty_eq.symm

/-- What the second section of a loop does: the commit of an accepted attempt does not
fail, and it leaves a clean record if no change was noted meanwhile. -/
theorem Steady.finishAttempt (h : c.Steady) {taken : Record τ} {d : Delta}
    (awaits : c.Awaits taken d) (accepted : Bool) :
    (c.finishAttempt d accepted).1.Steady ∧
      (c.finishAttempt d accepted).1.Serves
      (Engine.finished (c.finishAttempt d accepted).2) := by
  obtain ⟨running, sound₀, rfl, trunk, unchanged⟩ := awaits
  have suits : taken.delta.Suits c.record.type := sound₀.suits_of_trunk trunk
  rw [Controller.finishAttempt]
  cases accepted with
  | true =>
      rw [if_pos rfl, (h.sound.commit_attempt sound₀ trunk).1]
      dsimp only
      obtain ⟨latch, e⟩ := settleUnlessPending_eq
        { c with
          record := c.record.advance taken.delta
          dirty := (c.record.advance taken.delta).dirty
          status := .saved } .resolved
      rw [e]
      refine Steady.continue ⟨h.sound.advance suits, rfl, h.batch⟩ running
        (fun dirty => .inl ?_)
      cases silent : c.hasPending with
      | true => exact silent
      | false =>
          have clean : (c.record.advance taken.delta).dirty = 0 := by
            rw [unchanged silent]
            exact sound₀.dirty_advance_delta
          exact absurd clean dirty
  | false =>
      rw [if_neg Bool.false_ne_true]
      obtain ⟨latch, e⟩ := settleUnlessPending_eq
        { c with record := c.record.rollback taken.delta, status := .notSaved } .rejected
      rw [e]
      refine Steady.continue ⟨h.sound.rollback suits, ?_, h.batch⟩ running
        (fun _ => .inr rfl)
      exact h.dirty_eq.trans (h.sound.alike_rollback suits).dirty_eq.symm

end Loops

end Controller

namespace Engine

theorem Holds.start {r : Record τ} (sound : r.Sound) (clean : r.dirty = 0) :
    (Engine.start r).Holds :=
  ⟨⟨sound, rfl, fun _ => rfl⟩, ⟨rfl, fun _ => rfl, fun dirty => absurd clean dirty⟩⟩

/-- A loop that exists is the only one. -/
theorem Holds.alone {x : Engine τ} (h : x.Holds) {before later : List (SaveLoop τ)}
    {l : SaveLoop τ} (loops : x.loops = before ++ l :: later) :
    before = [] ∧ later = [] ∧ x.controller.Serves [l] := by
  have serves := h.serves
  rw [loops] at serves
  obtain ⟨rfl, rfl⟩ := serves.alone
  exact ⟨rfl, rfl, serves⟩

/-- Each step keeps the invariant. -/
theorem Holds.step {x y : Engine τ} (h : x.Holds) (hs : Step x y) : y.Holds := by
  have steady := h.steady
  cases hs with
  | move move =>
      cases move with
      | update edits => exact (steady.update edits).holds h
      | openBatch => exact steady.openBatch.holds h
      | closeBatch => exact steady.closeBatch.holds h
      | suppress => exact steady.suppress.holds h
      | resume => exact steady.resume.holds h
      | drainStep => exact steady.drainStep.holds h
      | kick => exact steady.kick.holds h
      | begin e =>
          obtain ⟨rfl, rfl, running, pending⟩ := h.alone e
          obtain ⟨steady', serves'⟩ := steady.beginAttempt running pending
          exact ⟨steady', by rwa [List.nil_append, List.append_nil]⟩
      | finish e =>
          obtain ⟨rfl, rfl, awaits⟩ := h.alone e
          obtain ⟨steady', serves'⟩ := steady.finishAttempt awaits _
          exact ⟨steady', by rwa [List.nil_append, List.append_nil]⟩
  | answer accepted e =>
      obtain ⟨rfl, rfl, awaits, -⟩ := h.alone e
      exact ⟨steady, awaits⟩

/-- There is one save loop while the controller is running, and none otherwise. -/
theorem Holds.one_loop {x : Engine τ} (h : x.Holds) :
    x.loops.length = x.controller.running.toNat := by
  rcases h.serves.stands with ⟨loops, idle⟩ | ⟨loops, running, -⟩ |
    ⟨taken, d, loops, awaits⟩ | ⟨taken, d, accepted, loops, awaits⟩
  · rw [loops, idle.running]
    rfl
  · rw [loops, running]
    rfl
  · rw [loops, awaits.running]
    rfl
  · rw [loops, awaits.running]
    rfl

theorem Holds.loops_of_idle {x : Engine τ} (h : x.Holds)
    (idle : x.controller.running = false) : x.loops = [] := by
  have one := h.one_loop
  rwa [idle, Bool.toNat_false, List.length_eq_zero_iff] at one

theorem Reachable.holds {type : τ} {x : Engine τ} (h : Reachable type x) : x.Holds := by
  induction h with
  | start made clean => exact Holds.start made.sound.1 clean
  | step _ hs ih => exact ih.step hs

/-- While no save loop runs, nothing is pending that could be sent, and the record is
dirty only if a change is pending or the last attempt failed; and the count of the
controller is always that of the record.  The controller says truly whether a loop runs:
there is one loop if it does, and none if not. -/
theorem Reachable.nothing_forgotten {type : τ} {x : Engine τ} (h : Reachable type x) :
    (x.controller.running = false → x.controller.suppressed = false →
      x.controller.batchDepth = 0 →
        x.controller.pending = false ∧ x.controller.batchChanges = 0) ∧
    (x.controller.running = false → x.controller.record.dirty ≠ 0 →
      x.controller.pending = true ∨ 0 < x.controller.batchChanges ∨
        x.controller.status = .notSaved) ∧
    x.controller.dirty = x.controller.record.dirty ∧
    x.loops.length = x.controller.running.toNat := by
  have steady := h.holds.steady
  have idle : x.controller.running = false → x.controller.Idle := by
    intro running
    have serves := h.holds.serves
    rw [h.holds.loops_of_idle running] at serves
    exact serves
  refine ⟨?_, ?_, steady.dirty_eq, h.holds.one_loop⟩
  · intro running free outside
    have may : x.controller.maySend = true := by simp [Controller.maySend, free, outside]
    exact ⟨(idle running).sent may, steady.batch outside⟩
  · intro running dirty
    rcases (idle running).kept dirty with waiting | failed
    · rw [Controller.hasPending, Bool.or_eq_true, decide_eq_true_iff] at waiting
      exact waiting.elim .inl (fun some => .inr (.inl some))
    · exact .inr (.inr failed)

/-- A tag is written and sent, and the request fails: no loop runs, and the record is
dirty. -/
theorem nothing_forgotten_after_failure :
    ∃ x : Engine Entity, Reachable .task x ∧ x.controller.running = false ∧ x.loops = [] ∧
      x.controller.record.dirty ≠ 0 ∧
      (x.controller.pending = true ∨ 0 < x.controller.batchChanges ∨
        x.controller.status = .notSaved) := by
  have created : Reachable Entity.task (Engine.start (.blank .task 1)) :=
    .start (.blank 1) rfl
  have resumed := created.step (.move (.resume _))
  have written := resumed.step (.move (.update _ [.write "tag" (.text "a")]))
  have sent := written.step (.move (@Move.begin _ _ _ [] [] rfl))
  have failed := sent.step (@Step.answer _ _ _ [] [] _ _ _ false rfl)
  have ended := failed.step (.move (@Move.finish _ _ _ [] [] _ _ _ rfl))
  obtain ⟨-, kept, -, loops⟩ := ended.nothing_forgotten
  exact ⟨_, ended, rfl, List.length_eq_zero_iff.mp loops, by decide, kept rfl (by decide)⟩

end Engine

end RecordSync
