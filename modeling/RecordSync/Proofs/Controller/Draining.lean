import RecordSync.Proofs.Controller.Polling

/-!
# The turns of a waiting call

A call waits until every change of a record is saved, and nobody else uses the controller
meanwhile.  Then only three things happen: the call is polled, a save loop goes on, and
the server answers, as it likes.  A log is kept of what is sent and answered, and of the
attempt that the call starts itself.

**Invariant.**  The latch is clear while a loop runs, and settled when a call that waited
for it finds none; so the call learns of the end of each loop.  What was logged since the
call started its attempt tells how far the attempt has come.

**Measure.**  `turnsLeft` counts the turns that are still to come: three for an attempt,
as many again if a change is pending that the loop goes on for, and those of the attempt
that the call may start.  Every turn lowers it, save for a poll of a call that goes on
waiting.

**Results.**
* `Draining.Orderly.advances`: a turn keeps the invariant and lowers the measure.
* `Draining.Orderly.exists_step`: while the call waits there is a turn that does.
-/

namespace RecordSync

variable {τ : Type}

namespace SaveLoop

/-- How many turns a loop takes to its end, at most. -/
def turnsLeft (pending : Bool) : SaveLoop τ → ℕ
  | starting => 3
  | sending .. => 2 + 3 * pending.toNat
  | answered .. => 1 + 3 * pending.toNat

/-- How many answers a loop still waits for, at most. -/
def answersLeft (pending : Bool) : SaveLoop τ → ℕ
  | starting => 1
  | sending .. => 1 + pending.toNat
  | answered .. => pending.toNat

end SaveLoop

namespace Progress

/-- A call may look once before it waits, and may start a loop and wait for it; the last
look is the one that returns. -/
def turnsLeft : Progress → ℕ
  | waiting call => 1 + (!call.waiting).toNat + 4 * (!call.retried).toNat
  | answered _ => 0

/-- The answer to the attempt that the call may still start. -/
def answersLeft : Progress → ℕ
  | waiting call => (!call.retried).toNat
  | answered _ => 0

end Progress

/-- What is logged while a call waits. -/
inductive Draining.Event
  /-- The call starts an attempt of its own. -/
  | started
  /-- A request is sent. -/
  | sent
  /-- The server took the patch or did not. -/
  | answered (accepted : Bool)
deriving DecidableEq, Repr

def Draining.Event.isAnswer : Draining.Event → Bool
  | answered _ => true
  | _ => false

/-- What was logged of an attempt since its loop was started. -/
def SaveLoop.events : SaveLoop τ → List Draining.Event
  | starting => []
  | sending .. => [.sent]
  | answered _ _ accepted => [.sent, .answered accepted]

/-- A controller with its save loops and one call that waits for its record to be
saved. -/
structure Draining (τ : Type) where
  engine : Engine τ
  progress : Progress
  log : List Draining.Event

namespace Draining

/-- A call is made. -/
def start (x : Engine τ) : Draining τ := ⟨x, .waiting .fresh, []⟩

def controller (x : Draining τ) : Controller τ := x.engine.controller

/-- The number of answers that came. -/
def answers (x : Draining τ) : ℕ := x.log.countP Event.isAnswer

/-- What is logged of an attempt that begins. -/
def eventsOf : Controller.Attempt → List Event
  | .over _ => []
  | .sending _ _ => [.sent]

/-- What is logged of a poll that leaves a controller behind: a new attempt if it started
a loop. -/
def startedBy (x : Draining τ) (c : Controller τ) : List Event :=
  if !x.controller.running && c.running then [.started] else []

/-- The call is polled. -/
def polled (x : Draining τ) (runtime : Bool) (call : Drain) : Draining τ :=
  ⟨x.engine.after (call.poll runtime x.controller).1,
    (call.poll runtime x.controller).2.progress,
    x.log ++ x.startedBy (call.poll runtime x.controller).1⟩

/-- A loop among others begins an attempt. -/
def begun (x : Draining τ) (before later : List (SaveLoop τ)) : Draining τ :=
  ⟨⟨x.controller.beginAttempt.1,
      before ++ Engine.begun x.controller.record x.controller.beginAttempt.2 ++ later⟩,
    x.progress, x.log ++ eventsOf x.controller.beginAttempt.2⟩

/-- The request of a loop among others is answered. -/
def answered (x : Draining τ) (before later : List (SaveLoop τ)) (taken : Record τ)
    (delta : Delta) (accepted : Bool) : Draining τ :=
  ⟨⟨x.controller, before ++ .answered taken delta accepted :: later⟩, x.progress,
    x.log ++ [.answered accepted]⟩

/-- A loop among others takes its answer. -/
def finished (x : Draining τ) (before later : List (SaveLoop τ)) (delta : Delta)
    (accepted : Bool) : Draining τ :=
  ⟨⟨(x.controller.finishAttempt delta accepted).1,
      before ++ Engine.finished (x.controller.finishAttempt delta accepted).2 ++ later⟩,
    x.progress, x.log⟩

/-- A turn while a call waits, on a thread with a runtime or without one, and nobody else
uses the controller. -/
inductive Step (runtime : Bool) : Draining τ → Draining τ → Prop
  | poll (x : Draining τ) {call : Drain} :
      x.progress = .waiting call → Step runtime x (x.polled runtime call)
  | begin (x : Draining τ) {before later : List (SaveLoop τ)} :
      x.engine.loops = before ++ .starting :: later →
      Step runtime x (x.begun before later)
  | answer (x : Draining τ) {before later : List (SaveLoop τ)} {taken : Record τ}
      {patch : Message} {delta : Delta} (accepted : Bool) :
      x.engine.loops = before ++ .sending taken patch delta :: later →
        Step runtime x (x.answered before later taken delta accepted)
  | finish (x : Draining τ) {before later : List (SaveLoop τ)} {taken : Record τ}
      {delta : Delta} {accepted : Bool} :
      x.engine.loops = before ++ .answered taken delta accepted :: later →
        Step runtime x (x.finished before later delta accepted)

def turnsLeft (x : Draining τ) : ℕ :=
  x.engine.loops.foldr (fun l left => l.turnsLeft x.controller.pending + left) 0 +
    x.progress.turnsLeft

/-- The number of answers that are still to come, at most. -/
def answersLeft (x : Draining τ) : ℕ :=
  x.engine.loops.foldr (fun l left => l.answersLeft x.controller.pending + left) 0 +
    x.progress.answersLeft

/-- How far the attempt has come that the call started, by what was logged since. -/
inductive Attempted (x : Engine τ) : List Event → Prop
  | runs (l : SaveLoop τ) : x.loops = [l] →
      (x.controller.pending = true → l = .starting) →
      Attempted x l.events
  | saved (events : List Event) : x.controller.isSynchronized = true → Attempted x events
  | refused : x.loops = [] → x.controller.pending = false →
      Attempted x [.sent, .answered false]

/-- Why a call returned what it returned. -/
inductive Told (runtime : Bool) (x : Draining τ) : Bool → Prop
  | saved : x.controller.isSynchronized = true → Told runtime x true
  | suppressed : x.controller.suppressed = true → x.controller.record.dirty ≠ 0 →
      Told runtime x false
  /-- The attempt that the call started was the last one, and failed. -/
  | refused (earlier : List Event) : x.controller.suppressed = false →
      x.controller.record.dirty ≠ 0 → .started ∉ earlier →
        x.log = earlier ++ [.started, .sent, .answered false] → Told runtime x false
  | unsupported : runtime = false → x.controller.suppressed = false →
      x.controller.pending = true → Told runtime x false

/-- How far the call has come. -/
inductive Course (runtime : Bool) (x : Draining τ) : Prop
  | first (call : Drain) : x.progress = .waiting call → call.retried = false →
      .started ∉ x.log → Course runtime x
  | second (call : Drain) (earlier later : List Event) : x.progress = .waiting call →
      call.retried = true → x.controller.suppressed = false → .started ∉ earlier →
        x.log = earlier ++ .started :: later → Attempted x.engine later → Course runtime x
  | done (saved : Bool) : x.progress = .answered saved → x.controller.running = false →
      Told runtime x saved → Course runtime x

/-- What holds while a call waits, and when it has returned. -/
structure Orderly [Catalog τ] (runtime : Bool) (x : Draining τ) : Prop where
  attends : x.engine.Attends
  outside : x.controller.batchDepth = 0
  armed : x.controller.running = true → x.controller.latch = .clear
  told : ∀ call, x.progress = .waiting call → call.waiting = true →
    x.controller.running = false → x.controller.latch ≠ .clear
  sent : .sent ∈ x.log → x.controller.suppressed = false
  started : .started ∈ x.log → runtime = true ∧ x.controller.suppressed = false
  course : Course runtime x

/-- A turn leads on. -/
structure Advances [Catalog τ] (runtime : Bool) (x y : Draining τ) : Prop where
  orderly : Orderly runtime y
  turns : y.turnsLeft < x.turnsLeft
  answers : y.answers + y.answersLeft ≤ x.answers + x.answersLeft
  suppressed : y.controller.suppressed = x.controller.suppressed

variable [Catalog τ] {runtime : Bool} {x y : Draining τ}
    {before later : List (SaveLoop τ)}

section Loops

omit [Catalog τ] in
/-- The call goes on waiting while a loop goes on. -/
theorem Course.loop (h : Course runtime x) (busy : x.controller.running = true)
    (progress : y.progress = x.progress)
    (suppressed : y.controller.suppressed = x.controller.suppressed) {events : List Event}
    (log : y.log = x.log ++ events) (others : .started ∉ events)
    (attempted : ∀ since, x.controller.suppressed = false → Attempted x.engine since →
      Attempted y.engine (since ++ events)) : Course runtime y := by
  cases h with
  | first call waits own none =>
      refine .first call (progress.trans waits) own ?_
      rw [log, List.mem_append]
      exact fun started => started.elim none others
  | second call earlier since waits own free none e attempt =>
      refine .second call earlier (since ++ events) (progress.trans waits) own
        (suppressed.trans free) none ?_ (attempted since free attempt)
      rw [log, e, List.append_assoc, List.cons_append]
  | done saved _ idle => exact absurd (idle.symm.trans busy) Bool.false_ne_true

/-- A turn of a loop leads on if it settles the latch exactly when it ends the loop. -/
theorem Orderly.loop (h : Orderly runtime x) (busy : x.controller.running = true)
    (turn : Engine.Turn x.engine y.engine) (progress : y.progress = x.progress)
    (suppressed : y.controller.suppressed = x.controller.suppressed)
    (outside : y.controller.batchDepth = 0)
    (armed : y.controller.running = true ↔ y.controller.latch = .clear)
    {events : List Event} (log : y.log = x.log ++ events) (others : .started ∉ events)
    (sent : .sent ∈ events → x.controller.suppressed = false)
    (attempted : ∀ since, x.controller.suppressed = false → Attempted x.engine since →
      Attempted y.engine (since ++ events)) : Orderly runtime y where
  attends := h.attends.turn turn
  outside := outside
  armed := armed.mp
  told := fun _ _ _ idle clear => absurd (idle.symm.trans (armed.mpr clear)) Bool.false_ne_true
  sent := by
    rw [log, List.mem_append, suppressed]
    exact fun there => there.elim h.sent sent
  started := by
    rw [log, List.mem_append, suppressed]
    exact fun there => there.elim h.started (fun own => absurd own others)
  course := h.course.loop busy progress suppressed log others attempted

omit [Catalog τ] in
theorem Attempted.runs_of_busy {x : Engine τ} {since : List Event} (h : Attempted x since)
    (busy : x.controller.running = true) {l : SaveLoop τ} (loops : x.loops = [l]) :
    since = l.events ∧ (x.controller.pending = true → l = .starting) := by
  cases h with
  | runs l' loops' only =>
      cases List.singleton_inj.mp (loops.symm.trans loops')
      exact ⟨rfl, only⟩
  | saved _ saved =>
      have idle := (Controller.isSynchronized_iff.mp saved).1
      exact absurd (idle.symm.trans busy) Bool.false_ne_true
  | refused none => cases loops.symm.trans none

section Measures

variable {l : SaveLoop τ}

omit [Catalog τ] in
theorem turnsLeft_one (loops : x.engine.loops = [l]) :
    x.turnsLeft = l.turnsLeft x.controller.pending + x.progress.turnsLeft := by
  simp [turnsLeft, loops]

omit [Catalog τ] in
theorem turnsLeft_none (loops : x.engine.loops = []) :
    x.turnsLeft = x.progress.turnsLeft := by
  simp [turnsLeft, loops]

omit [Catalog τ] in
theorem answersLeft_one (loops : x.engine.loops = [l]) :
    x.answersLeft = l.answersLeft x.controller.pending + x.progress.answersLeft := by
  simp [answersLeft, loops]

omit [Catalog τ] in
theorem answersLeft_none (loops : x.engine.loops = []) :
    x.answersLeft = x.progress.answersLeft := by
  simp [answersLeft, loops]

end Measures

/-- A loop sends if there is something to be sent, and otherwise it ends. -/
theorem Orderly.begun (h : Orderly runtime x)
    (loops : x.engine.loops = before ++ .starting :: later) :
    Advances runtime x (x.begun before later) := by
  have turn : Engine.Turn x.engine (x.begun before later).engine := .begin x.engine loops
  obtain ⟨rfl, rfl, busy, -, pending⟩ := h.attends.alone loops
  rw [List.nil_append] at loops
  rcases h.attends.steady.begins busy pending h.outside with
    ⟨c, shown, e, idle, settled, suppressed, outside, saved⟩ | ⟨free, e⟩
  · have began : x.begun [] [] = ⟨⟨c, []⟩, x.progress, x.log⟩ := by
      simp [Draining.begun, controller, e, Engine.begun, eventsOf]
    rw [began] at turn ⊢
    refine ⟨h.loop busy turn rfl suppressed outside ?_ (List.append_nil _).symm
      List.not_mem_nil (fun there => absurd there List.not_mem_nil)
      (fun since free _ => .saved _ (saved free)), ?_, ?_, suppressed⟩
    · exact ⟨fun on => absurd (idle.symm.trans on) Bool.false_ne_true,
        fun clear => absurd clear settled⟩
    · rw [turnsLeft_one loops, turnsLeft_none rfl]
      exact Nat.lt_add_of_pos_left (Nat.succ_pos _)
    · rw [answersLeft_one loops, answersLeft_none rfl]
      exact Nat.add_le_add_left (Nat.le_add_left _ _) _
  · have began : x.begun [] [] = ⟨⟨{ x.controller with
        record := x.controller.record.markSent, pending := false, status := .saving },
        [.sending x.controller.record x.controller.record.patch x.controller.record.delta]⟩,
        x.progress, x.log ++ [.sent]⟩ := by
      simp only [Draining.begun, controller] at e ⊢
      simp [e, Engine.begun, eventsOf]
    rw [began] at turn ⊢
    refine ⟨h.loop busy turn rfl rfl h.outside ⟨h.armed, fun _ => busy⟩ rfl (by simp)
      (fun _ => free) (fun since _ attempted => ?_), ?_, ?_, rfl⟩
    · obtain ⟨rfl, -⟩ := attempted.runs_of_busy busy loops
      exact .runs (.sending _ _ _) rfl (fun raised => absurd raised Bool.false_ne_true)
    · rw [turnsLeft_one loops, turnsLeft_one rfl]
      exact Nat.add_lt_add_right (Nat.lt_succ_self 2) _
    · rw [answersLeft_one loops, answersLeft_one rfl]
      simp [answers, Event.isAnswer, controller, SaveLoop.answersLeft]

/-- An answer is one of those that were still to come. -/
theorem Orderly.answered (h : Orderly runtime x) {taken : Record τ} {patch : Message}
    {delta : Delta}
    (loops : x.engine.loops = before ++ .sending taken patch delta :: later)
    (accepted : Bool) :
    Advances runtime x (x.answered before later taken delta accepted) := by
  have turn : Engine.Turn x.engine (x.answered before later taken delta accepted).engine :=
    .answer x.engine accepted loops
  obtain ⟨rfl, rfl, busy, -⟩ := h.attends.alone loops
  rw [List.nil_append] at loops
  refine ⟨h.loop busy turn rfl rfl h.outside ⟨h.armed, fun _ => busy⟩ rfl (by simp) (by simp)
    (fun since _ attempted => ?_), ?_, ?_, rfl⟩
  · obtain ⟨rfl, only⟩ := attempted.runs_of_busy busy loops
    exact .runs (.answered taken delta accepted) rfl (fun raised => by cases only raised)
  · rw [turnsLeft_one loops, turnsLeft_one rfl]
    simp [Draining.answered, controller, SaveLoop.turnsLeft]
  · rw [answersLeft_one loops, answersLeft_one rfl]
    simp [answers, Draining.answered, controller, SaveLoop.answersLeft, Event.isAnswer]
    omega

/-- A loop that was answered goes on only for a change that is pending, and so not if it
is the attempt that the call started. -/
theorem Orderly.finished (h : Orderly runtime x) {taken : Record τ} {delta : Delta}
    {accepted : Bool}
    (loops : x.engine.loops = before ++ .answered taken delta accepted :: later) :
    Advances runtime x (x.finished before later delta accepted) := by
  have turn : Engine.Turn x.engine (x.finished before later delta accepted).engine :=
    .finish x.engine loops
  obtain ⟨rfl, rfl, busy, awaits⟩ := h.attends.alone loops
  rw [List.nil_append] at loops
  have ends : x.controller.Finished accepted (x.controller.finishAttempt delta accepted) :=
    h.attends.steady.finishes awaits h.outside (h.armed busy) accepted
  rw [Draining.finished] at turn ⊢
  generalize x.controller.finishAttempt delta accepted = result at *
  obtain ⟨c, goesOn⟩ := result
  have armed : c.running = true ↔ c.latch = .clear :=
    (Bool.eq_iff_iff.mp ends.running).trans ends.latch.symm
  have orderly := h.loop busy turn rfl ends.suppressed (ends.batchDepth.trans h.outside) armed
    (List.append_nil _).symm List.not_mem_nil (fun there => absurd there List.not_mem_nil)
  cases goesOn with
  | true =>
      have raised := ends.goesOn rfl
      refine ⟨orderly (fun since _ attempted => ?_), ?_, ?_, ends.suppressed⟩
      · cases (attempted.runs_of_busy busy loops).2 raised
      · rw [turnsLeft_one loops, turnsLeft_one rfl, raised]
        exact Nat.add_lt_add_right (Nat.lt_succ_self 3) _
      · rw [answersLeft_one loops, answersLeft_one rfl, raised]
        exact le_rfl
  | false =>
      refine ⟨orderly (fun since _ attempted => ?_), ?_, ?_, ends.suppressed⟩
      · obtain ⟨rfl, only⟩ := attempted.runs_of_busy busy loops
        have quiet : x.controller.pending = false :=
          Bool.eq_false_iff.mpr (fun raised => by cases only raised)
        cases accepted with
        | true => exact .saved _ (ends.saved quiet rfl)
        | false => exact .refused rfl (ends.pending.trans quiet)
      · rw [turnsLeft_one loops, turnsLeft_none rfl]
        exact Nat.lt_add_of_pos_left (Nat.lt_of_lt_of_le Nat.one_pos (Nat.le_add_right 1 _))
      · rw [answersLeft_one loops, answersLeft_none rfl]
        exact Nat.add_le_add_left (Nat.le_add_left _ _) _

end Loops

section Polls

omit [Catalog τ] in
theorem startedBy_idle {c : Controller τ} (idle : c.running = false) :
    x.startedBy c = [] := by
  simp [startedBy, idle]

omit [Catalog τ] in
theorem startedBy_busy {c : Controller τ} (busy : x.controller.running = true) :
    x.startedBy c = [] := by
  simp [startedBy, busy]

/-- A poll with which the call returns. -/
theorem Orderly.returns (h : Orderly runtime x) {call : Drain}
    (waits : x.progress = .waiting call) (idle : x.controller.running = false)
    {c : Controller τ} {saved : Bool} (attends : (x.engine.after c).Attends)
    (same : c.running = false) (outside : c.batchDepth = 0)
    (suppressed : c.suppressed = x.controller.suppressed)
    (told : Told runtime ⟨x.engine.after c, .answered saved, x.log⟩ saved) :
    Advances runtime x ⟨x.engine.after c, .answered saved, x.log ++ x.startedBy c⟩ := by
  rw [startedBy_idle same, List.append_nil]
  have none : x.engine.loops = [] := h.attends.idle idle
  have none' : (x.engine.after c).loops = [] := attends.idle same
  refine ⟨⟨attends, outside, fun busy => ?_, fun _ e => ?_, fun there => ?_, fun there => ?_,
    .done saved rfl same told⟩, ?_, ?_, suppressed⟩
  · exact absurd (same.symm.trans busy) Bool.false_ne_true
  · cases e
  · exact suppressed.trans (h.sent there)
  · exact (h.started there).imp_right suppressed.trans
  · simp [turnsLeft, none, none', waits, Progress.turnsLeft]
  · simp [answers, answersLeft, none, none', waits, Progress.answersLeft]

omit [Catalog τ] in
/-- The attempt that a call started has failed, if the call finds no loop and something to
be sent. -/
theorem Course.refused (h : Course runtime x) {call : Drain}
    (waits : x.progress = .waiting call) (retried : call.retried = true)
    (loops : x.engine.loops = [])
    (unsaved : x.controller.pending = false → x.controller.record.dirty ≠ 0) :
    x.controller.record.dirty ≠ 0 ∧ ∃ earlier, .started ∉ earlier ∧
      x.log = earlier ++ [.started, .sent, .answered false] := by
  cases h with
  | first call' waits' fresh =>
      cases waits.symm.trans waits'
      exact absurd (fresh.symm.trans retried) Bool.false_ne_true
  | second call' earlier since _ _ _ none log attempted =>
      cases attempted with
      | runs _ one => cases loops.symm.trans one
      | saved _ saved =>
          obtain ⟨-, quiet, -, clean⟩ := Controller.isSynchronized_iff.mp saved
          exact absurd clean (unsaved quiet)
      | refused _ quiet => exact ⟨unsaved quiet, earlier, none, log⟩
  | done saved returned => cases waits.symm.trans returned

omit [Catalog τ] in
theorem Course.unstarted (h : Course runtime x) {call : Drain}
    (waits : x.progress = .waiting call) (fresh : call.retried = false) :
    .started ∉ x.log := by
  cases h with
  | first _ _ _ none => exact none
  | second call' _ _ waits' retried =>
      cases waits.symm.trans waits'
      exact absurd (fresh.symm.trans retried) Bool.false_ne_true
  | done saved returned => cases waits.symm.trans returned

omit [Catalog τ] in
/-- A call that finds a loop comes no further. -/
theorem Course.look (h : Course runtime x) {call call' : Drain}
    (waits : x.progress = .waiting call) (same : call'.retried = call.retried) :
    Course runtime ⟨x.engine, .waiting call', x.log⟩ := by
  cases h with
  | first _ waits' fresh none =>
      cases waits.symm.trans waits'
      exact .first call' rfl (same.trans fresh) none
  | second _ earlier since waits' retried free none log attempted =>
      cases waits.symm.trans waits'
      exact .second call' earlier since rfl (same.trans retried) free none log attempted
  | done saved returned => cases waits.symm.trans returned

/-- A poll leads on, unless the call waits already and a loop runs. -/
theorem Orderly.polled (h : Orderly runtime x) {call : Drain}
    (waits : x.progress = .waiting call) :
    (x.controller.running = true ∧ x.polled runtime call = x) ∨
      Advances runtime x (x.polled runtime call) := by
  have attends : (x.engine.after (call.poll runtime x.controller).1).Attends := by
    rcases x.engine.after_poll call runtime with same | turn
    · rw [show x.engine.after (call.poll runtime x.controller).1 = x.engine from same]
      exact h.attends
    · exact h.attends.turn turn
  have unchanged := h.attends.steady.batch h.outside
  have polled := Drain.polled_poll runtime h.outside unchanged h.armed (h.told call waits)
  rw [Draining.polled]
  generalize call.poll runtime x.controller = result at *
  cases polled with
  | busy busy =>
      have same : x.engine.after x.controller = x.engine := by
        rw [Engine.after, controller, Bool.not_and_self]
        rfl
      rw [same, startedBy_busy busy, List.append_nil]
      obtain ⟨retried, waiting⟩ := call
      cases waiting with
      | true =>
          left
          refine ⟨busy, ?_⟩
          rw [Poll.progress, ← waits]
      | false =>
          right
          refine ⟨⟨h.attends, h.outside, h.armed, fun _ _ _ idle => ?_, h.sent, h.started,
            ?_⟩, ?_, ?_, rfl⟩
          · exact absurd (idle.symm.trans busy) Bool.false_ne_true
          · exact h.course.look waits rfl
          · simp [turnsLeft, controller, waits, Progress.turnsLeft, Poll.progress]
          · simp [answers, answersLeft, controller, waits, Progress.answersLeft, Poll.progress]
  | saved saved =>
      have idle : x.controller.running = false :=
        (Controller.isSynchronized_iff.mp saved).1
      exact .inr (h.returns waits idle attends idle h.outside rfl (.saved saved))
  | suppressed idle suppressed dirty =>
      exact .inr
        (h.returns waits idle attends idle h.outside rfl (.suppressed suppressed dirty))
  | again idle free retried unsaved =>
      obtain ⟨dirty, earlier, none, log⟩ :=
        h.course.refused waits retried (h.attends.idle idle) unsaved
      exact .inr (h.returns waits idle attends idle h.outside rfl
        (.refused earlier free dirty none log))
  | asks idle free fresh supported =>
      right
      have none : x.engine.loops = [] := h.attends.idle idle
      have started : x.startedBy { x.controller with
          latch := .clear, pending := true, running := true } = [.started] := by
        simp [startedBy, idle]
      rw [started]
      have one : (x.engine.after { x.controller with
          latch := .clear, pending := true, running := true }).loops = [.starting] := by
        simp only [controller] at idle
        simp [Engine.after, idle, none]
      refine ⟨⟨attends, h.outside, fun _ => rfl, fun _ _ _ idle => ?_, fun _ => free,
        fun _ => ⟨supported, free⟩, ?_⟩, ?_, ?_, rfl⟩
      · cases idle
      · exact .second _ x.log [] rfl rfl free (h.course.unstarted waits fresh) rfl
          (.runs .starting one (fun _ => rfl))
      · simp [turnsLeft, one, none, waits, fresh, Poll.progress, Progress.turnsLeft,
          SaveLoop.turnsLeft]
      · simp [answers, answersLeft, one, none, waits, fresh, Poll.progress,
          Progress.answersLeft, SaveLoop.answersLeft, Event.isAnswer]
  | unsupported idle free fresh supported =>
      exact .inr (h.returns waits idle attends idle h.outside rfl
        (.unsupported supported free rfl))

end Polls

/-- A turn leads on, unless the call is polled that waits already and a loop runs. -/
theorem Orderly.advances (h : Orderly runtime x) (hs : Step runtime x y) :
    (x.controller.running = true ∧ y = x) ∨ Advances runtime x y := by
  cases hs with
  | poll waits => exact h.polled waits
  | begin loops => exact .inr (h.begun loops)
  | answer accepted loops => exact .inr (h.answered loops accepted)
  | finish loops => exact .inr (h.finished loops)

theorem Advances.ne (h : Advances runtime x y) : y ≠ x := by
  rintro rfl
  exact lt_irrefl _ h.turns

/-- While the call waits there is a turn that leads on. -/
theorem Orderly.exists_step (h : Orderly runtime x) {call : Drain}
    (waits : x.progress = .waiting call) : ∃ y, Step runtime x y ∧ y ≠ x := by
  cases running : x.controller.running with
  | false =>
      refine ⟨_, .poll x waits, ?_⟩
      rcases h.polled waits with ⟨busy, -⟩ | advances
      · exact absurd (running.symm.trans busy) Bool.false_ne_true
      · exact advances.ne
  | true =>
      rcases (h.attends.busy running).stands with
        ⟨-, idle⟩ | ⟨loops, -⟩ | ⟨_, _, loops, -⟩ | ⟨_, _, _, loops, -⟩
      · exact absurd (idle.running.symm.trans running) Bool.false_ne_true
      · rw [← List.nil_append [SaveLoop.starting]] at loops
        exact ⟨_, .begin x loops, (h.begun loops).ne⟩
      · rw [← List.nil_append [SaveLoop.sending _ _ _]] at loops
        exact ⟨_, .answer x true loops, (h.answered loops true).ne⟩
      · rw [← List.nil_append [SaveLoop.answered _ _ _]] at loops
        exact ⟨_, .finish x loops, (h.finished loops).ne⟩

/-- While all is saved nothing is sent. -/
theorem Orderly.silent (h : Orderly runtime x)
    (saved : x.controller.isSynchronized = true) (log : x.log = [])
    (hs : Step runtime x y) : y.controller.isSynchronized = true ∧ y.log = [] := by
  obtain ⟨idle, quiet, -, clean⟩ := Controller.isSynchronized_iff.mp saved
  have none : x.engine.loops = [] := h.attends.idle idle
  cases hs with
  | @poll call waits =>
      have polled := Drain.polled_poll runtime h.outside
        (h.attends.steady.batch h.outside) h.armed (h.told call waits)
      rw [Draining.polled]
      generalize call.poll runtime x.controller = result at *
      cases polled with
      | busy busy => exact absurd (idle.symm.trans busy) Bool.false_ne_true
      | saved saved =>
          refine ⟨saved, ?_⟩
          dsimp only
          rw [log, List.nil_append]
          exact startedBy_idle idle
      | suppressed _ _ dirty => exact absurd clean dirty
      | again _ _ _ unsaved => exact absurd clean (unsaved quiet)
      | asks _ _ _ _ unsaved => exact absurd clean (unsaved quiet)
      | unsupported _ _ _ _ unsaved => exact absurd clean (unsaved quiet)
  | begin loops => exact absurd (none.symm.trans loops) (by simp)
  | answer accepted loops => exact absurd (none.symm.trans loops) (by simp)
  | finish loops => exact absurd (none.symm.trans loops) (by simp)

end Draining

end RecordSync
