import RecordSync.Proofs.Controller.SaveLoop

/-!
# The baseline of a controlled record

While an answer is known to a save loop and not yet to the record, the server holds what
was sent and not what the record has as its baseline.  `Engine.baseline` is what the
record takes the server to hold once every answer has been dealt with: no critical section
changes it.

**Results.**
* `Engine.Holds.baseline_move`: a critical section keeps the baseline, and the record its
  type and id.
-/

namespace RecordSync

variable {τ : Type} [Catalog τ]

namespace Controller

section Record

omit [Catalog τ] in
theorem record_noteChange (c : Controller τ) : (c.noteChange true).record = c.record := by
  rcases noteChange_eq c with ⟨-, e⟩ | ⟨-, -, e⟩ | ⟨-, e⟩ <;> rw [e]

theorem record_update (c : Controller τ) (edits : List Edit) :
    (c.update true edits).1.record = (c.record.editAll edits).1 := by
  rw [update]
  dsimp only
  split
  · rw [record_noteChange]
  · rfl

omit [Catalog τ] in
theorem record_closeBatch (c : Controller τ) : (c.closeBatch true).record = c.record := by
  rw [closeBatch]
  dsimp only
  split_ifs
  · rfl
  · rw [record_noteChange]
  · rfl
  · rfl

omit [Catalog τ] in
theorem record_resume (c : Controller τ) : (c.resume true).record = c.record := by
  rw [resume]
  dsimp only
  split <;> rfl

omit [Catalog τ] in
theorem record_kick (c : Controller τ) : (c.kick true).1.record = c.record := by
  rw [kick]
  split_ifs <;> rfl

omit [Catalog τ] in
theorem record_drainStep (c : Controller τ) : c.drainStep.1.record = c.record := by
  rcases drainStep_eq c with e | ⟨-, -, e⟩ <;> rw [e]

omit [Catalog τ] in
theorem record_stop (c : Controller τ) : c.stop.record = c.record := by
  obtain ⟨latch, e⟩ := c.stop_eq
  rw [e]

omit [Catalog τ] in
theorem record_continue (c : Controller τ) : c.continue?.1.record = c.record := by
  rw [continue?]
  split
  · rfl
  · exact c.record_stop

omit [Catalog τ] in
theorem record_settle (c : Controller τ) (outcome : Latch) :
    (c.settleUnlessPending outcome).record = c.record := by
  obtain ⟨latch, e⟩ := settleUnlessPending_eq c outcome
  rw [e]

omit [Catalog τ] in
theorem record_beginAttempt (c : Controller τ) :
    c.beginAttempt.1.record = c.record ∧ (∃ shown, c.beginAttempt.2 = .over shown) ∨
      c.beginAttempt.1.record = c.record.markSent ∧
        c.beginAttempt.2 = .sending c.record.patch c.record.delta := by
  rw [beginAttempt]
  split
  · exact .inl ⟨c.record_stop, _, rfl⟩
  · dsimp only
    cases sent : c.record.synchronize with
    | none => exact .inl ⟨rfl, _, rfl⟩
    | some result =>
        obtain ⟨patch, d, r⟩ := result
        obtain ⟨-, rfl, rfl, rfl⟩ := Record.synchronize_eq_some.mp sent
        exact .inr ⟨rfl, rfl⟩

omit [Catalog τ] in
theorem record_finishAttempt (c : Controller τ) (d : Delta) (accepted : Bool)
    {r : Record τ} (committed : accepted = true → c.record.commit d = .ok r) :
    (c.finishAttempt d accepted).1.record = if accepted then r
      else c.record.rollback d := by
  rw [finishAttempt]
  cases accepted with
  | true =>
      rw [if_pos rfl, if_pos rfl, committed rfl]
      exact (record_continue _).trans (record_settle _ _)
  | false =>
      rw [if_neg Bool.false_ne_true, if_neg Bool.false_ne_true]
      exact (record_continue _).trans (record_settle _ _)

/-- An attempt that begins changes nothing of the record but its marks. -/
theorem Steady.record_begun {c : Controller τ} (h : c.Steady) :
    c.beginAttempt.1.record.remoteMessage = c.record.remoteMessage ∧
      c.beginAttempt.1.record.type = c.record.type ∧
      c.beginAttempt.1.record.id = c.record.id := by
  have alike := h.sound.alike_markSent
  rcases c.record_beginAttempt with ⟨same, -⟩ | ⟨sent, -⟩
  · rw [same]
    exact ⟨rfl, rfl, rfl⟩
  · rw [sent]
    exact ⟨alike.remote_eq, alike.type_eq, alike.id_eq⟩

/-- An attempt that was accepted leaves the baseline at what the user saw when it was
begun. -/
theorem Steady.record_finished {c : Controller τ} (h : c.Steady)
    {taken : Record τ} {d : Delta} (awaits : c.Awaits taken d) (accepted : Bool) :
    (c.finishAttempt d accepted).1.record.remoteMessage =
        (if accepted then taken.localMessage else c.record.remoteMessage) ∧
      (c.finishAttempt d accepted).1.record.type = c.record.type ∧
        (c.finishAttempt d accepted).1.record.id = c.record.id := by
  obtain ⟨-, sound, rfl, trunk, -⟩ := awaits
  have committed := h.sound.commit_attempt sound trunk
  rw [c.record_finishAttempt taken.delta accepted (fun _ => committed.1)]
  cases accepted with
  | true => exact ⟨committed.2, Record.advance_type _ _, Record.advance_id _ _⟩
  | false =>
      exact ⟨(h.sound.alike_rollback (sound.suits_of_trunk trunk)).remote_eq,
        Record.rollback_type _ _, Record.rollback_id _ _⟩

end Record

end Controller

namespace Engine

/-- What the record takes the server to hold once every answer has been dealt with. -/
def baseline (x : Engine τ) : Message :=
  match x.loops with
  | [.answered taken _ true] => taken.localMessage
  | _ => x.controller.record.remoteMessage

omit [Catalog τ] in
theorem baseline_eq_remote {x : Engine τ}
    (h : ∀ taken delta, x.loops ≠ [.answered taken delta true]) :
    x.baseline = x.controller.record.remoteMessage := by
  rw [baseline]
  split
  next e => exact absurd e (h _ _)
  next => rfl

/-- A critical section outside the save loops keeps the baseline if the record keeps its
own. -/
theorem Holds.baseline_after {x : Engine τ} (h : x.Holds) {c : Controller τ}
    (running : x.controller.running = true → c.running = true)
    (same : c.record.remoteMessage = x.controller.record.remoteMessage) :
    (x.after c).baseline = x.baseline := by
  have serves := h.serves
  obtain ⟨c₀, loops⟩ := x
  dsimp only at serves running same
  rw [after]
  rcases serves.stands with ⟨rfl, idle⟩ | ⟨rfl, busy, -⟩ | ⟨taken, d, rfl, awaits⟩ |
    ⟨taken, d, accepted, rfl, awaits⟩
  · cases now : c.running <;> simp only [idle.running] <;> exact same
  · simp only [busy]
    exact same
  · simp only [awaits.running]
    exact same
  · simp only [awaits.running]
    cases accepted with
    | true => rfl
    | false => exact same

/-- A critical section keeps the baseline, and the record its type and id. -/
theorem Holds.baseline_move {x y : Engine τ} (h : x.Holds) (move : Move x y) :
    y.baseline = x.baseline ∧ y.controller.record.type = x.controller.record.type ∧
      y.controller.record.id = x.controller.record.id := by
  have steady := h.steady
  have plain : ∀ {c : Controller τ}, x.controller.Minds c →
      c.record = x.controller.record →
      (x.after c).baseline = x.baseline ∧
        (x.after c).controller.record.type = x.controller.record.type ∧
          (x.after c).controller.record.id = x.controller.record.id := by
    intro c minds same
    refine ⟨h.baseline_after (fun busy => (minds.busy busy).1) (by rw [same]), ?_, ?_⟩
    · exact congrArg Record.type same
    · exact congrArg Record.id same
  cases move with
  | update edits =>
      have evolves := (steady.sound.editAll edits).1
      have record := x.controller.record_update edits
      refine ⟨h.baseline_after (fun busy => ((steady.update edits).busy busy).1) ?_, ?_, ?_⟩
      · rw [record, evolves.remote_eq steady.sound]
      · exact (congrArg Record.type record).trans evolves.type_eq
      · exact (congrArg Record.id record).trans evolves.id_eq
  | openBatch => exact plain steady.openBatch rfl
  | closeBatch => exact plain steady.closeBatch (Controller.record_closeBatch _)
  | suppress => exact plain steady.suppress rfl
  | resume => exact plain steady.resume (Controller.record_resume _)
  | drainStep => exact plain steady.drainStep (Controller.record_drainStep _)
  | kick => exact plain steady.kick (Controller.record_kick _)
  | begin e =>
      obtain ⟨rfl, rfl, -⟩ := h.alone e
      obtain ⟨same, record⟩ := steady.record_begun
      have idle : x.baseline = x.controller.record.remoteMessage :=
        baseline_eq_remote (by rw [e]; nofun)
      rw [idle, ← same]
      refine ⟨?_, record⟩
      cases x.controller.beginAttempt.2 <;> rfl
  | @finish before later taken d accepted e =>
      obtain ⟨rfl, rfl, awaits⟩ := h.alone e
      obtain ⟨same, record⟩ := steady.record_finished awaits accepted
      have known : x.baseline = if accepted then taken.localMessage
          else x.controller.record.remoteMessage := by
        rw [baseline, e]
        cases accepted <;> rfl
      rw [known, ← same]
      refine ⟨?_, record⟩
      cases (x.controller.finishAttempt d accepted).2 <;> rfl

end Engine

end RecordSync
