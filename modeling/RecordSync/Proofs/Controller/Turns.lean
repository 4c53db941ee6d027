import Mathlib.Logic.Relation
import RecordSync.Proofs.Controller.Sections

/-!
# Turns

Everyone who uses a controller takes hold of it in turn: calls, each of which has a
runtime on its thread or not, the two sections of a save loop, and the answers to
requests.  A behaviour is what comes of any such turns in the course of time.

Without a runtime a call leaves its change noted and starts no loop; that is all the
difference it makes.  So while no loop runs there may be something to send, and
`Engine.Holds` does not hold; but what it says of a running loop does.

**Results.**
* `Controller.Call.leaves`: a call notes a change, or starts a loop for what was noted
  before, or leaves things as they are.
* `Engine.Attends.turn`: there is one loop while the controller is running, and what it
  waits for is what was sent; each turn keeps this.
-/

namespace RecordSync

variable {τ : Type}

section Behaviours

variable {σ : Type} {step : σ → σ → Prop} {first : σ} {trace : ℕ → σ}

/-- What becomes of a system in the course of time.  At some moments nothing happens. -/
structure Behaviour (step : σ → σ → Prop) (first : σ) (trace : ℕ → σ) : Prop where
  start : trace 0 = first
  next : ∀ n, Relation.ReflGen step (trace n) (trace (n + 1))

theorem Behaviour.reachable (h : Behaviour step first trace) (n : ℕ) :
    Relation.ReflTransGen step first (trace n) := by
  induction n with
  | zero =>
      rw [h.start]
  | succ n ih => exact ih.trans (h.next n).to_reflTransGen

/-- Nothing happens in a step, or a step is taken. -/
theorem Behaviour.same_or_step (h : Behaviour step first trace) (n : ℕ) :
    trace (n + 1) = trace n ∨ step (trace n) (trace (n + 1)) :=
  (Relation.reflGen_iff _ _ _).mp (h.next n)

/-- What can be reached is reached in a behaviour, and lasts in it. -/
theorem exists_behaviour {x : σ} (h : Relation.ReflTransGen step first x) :
    ∃ trace n, Behaviour step first trace ∧ ∀ m, n ≤ m → trace m = x := by
  induction h with
  | refl => exact ⟨fun _ => first, 0, ⟨rfl, fun _ => .refl⟩, fun _ _ => rfl⟩
  | @tail x y _ hs ih =>
      obtain ⟨trace, n, behaviour, ended⟩ := ih
      refine ⟨fun m => if m ≤ n then trace m else y, n + 1, ⟨?_, fun m => ?_⟩, fun m hm => ?_⟩
      · exact (if_pos (Nat.zero_le n)).trans behaviour.start
      · rcases Nat.lt_trichotomy m n with earlier | rfl | later
        · rw [if_pos (by omega), if_pos (by omega)]
          exact behaviour.next m
        · rw [if_pos le_rfl, if_neg (by omega), ended m le_rfl]
          exact .single hs
        · rw [if_neg (by omega), if_neg (by omega)]
      · exact if_neg (by omega)

end Behaviours

namespace Controller

variable {c : Controller τ}

/-- What a call finds.  The flag is only lowered while saves are suppressed, of a
controller with a clean record. -/
theorem drainStep_cases (c : Controller τ) :
    (c.running = true ∧ c.drainStep = (c, .wait)) ∨
    (0 < c.batchDepth ∧ c.drainStep = (c, .again)) ∨
    (c.running = false ∧ c.batchDepth = 0 ∧ ∃ synchronized,
      c.drainStep = (c, .done synchronized) ∨
        (c.suppressed = true ∧ c.record.dirty = 0) ∧
          c.drainStep = ({ c with pending := false }, .done synchronized)) ∨
    (c.running = false ∧ c.maySend = true ∧ c.drainStep = (c, .retry)) := by
  rw [drainStep]
  by_cases busy : c.running = true
  · exact .inl ⟨busy, if_pos busy⟩
  · have idle : c.running = false := by simpa using busy
    rw [if_neg busy]
    refine .inr ?_
    by_cases inside : 0 < c.batchDepth
    · exact .inl ⟨inside, if_pos inside⟩
    · have outside : c.batchDepth = 0 := by omega
      rw [if_neg inside]
      refine .inr ?_
      by_cases lowers : (c.suppressed && c.record.dirty == 0) = true
      · simp only [if_pos lowers]
        simp only [Bool.and_eq_true, beq_iff_eq] at lowers
        refine .inl ⟨idle, outside, ?_⟩
        split
        · exact ⟨true, .inr ⟨lowers, rfl⟩⟩
        · rw [if_pos lowers.1]
          exact ⟨false, .inr ⟨lowers, rfl⟩⟩
      · simp only [if_neg lowers]
        split
        · exact .inl ⟨idle, outside, true, .inl rfl⟩
        · by_cases suppressed : c.suppressed = true
          · rw [if_pos suppressed]
            exact .inl ⟨idle, outside, false, .inl rfl⟩
          · rw [if_neg suppressed]
            refine .inr ⟨idle, ?_, rfl⟩
            simp [maySend, suppressed, outside]

/-- Whether there is a runtime only decides whether a loop is started, and none is started
while one runs. -/
def Alike (c c₁ c₂ : Controller τ) : Prop :=
  (∃ running, c₁ = { c₂ with running := running }) ∧ (c.running = true → c₁ = c₂)

theorem Alike.rfl {c₁ : Controller τ} : Alike c c₁ c₁ :=
  ⟨⟨c₁.running, Eq.refl _⟩, fun _ => Eq.refl _⟩

theorem Alike.start {c₁ : Controller τ} (idle : c.running = false) (runtime : Bool) :
    Alike c (c₁.start runtime) (c₁.start true) := by
  refine ⟨?_, fun busy => absurd (idle.symm.trans busy) Bool.false_ne_true⟩
  obtain ⟨running, -, e⟩ := start_cases runtime c₁
  exact ⟨running, e⟩

theorem Alike.noteChange {c₁ : Controller τ} (same : c₁.running = c.running)
    (runtime : Bool) : Alike c (c₁.noteChange runtime) (c₁.noteChange true) := by
  rw [Controller.noteChange, Controller.noteChange]
  dsimp only
  split_ifs with inside held
  · exact .rfl
  · exact .rfl
  · refine .start ?_ runtime
    rw [← same]
    simp only [Bool.or_eq_true, not_or, Bool.not_eq_true] at held
    exact held.1

variable [Catalog τ]

namespace Call

variable {a : Call}

/-- The call, on a thread with a runtime. -/
def supported : Call → Call
  | update _ edits => update true edits
  | closeBatch _ => closeBatch true
  | resume _ => resume true
  | kick _ => kick true
  | a => a

theorem alike (a : Call) (c : Controller τ) : Alike c (a.run c) (a.supported.run c) := by
  cases a with
  | openBatch => exact .rfl
  | suppress => exact .rfl
  | look => exact .rfl
  | update runtime edits =>
      show Alike c (c.update runtime edits).1 (c.update true edits).1
      rw [update_eq, update_eq]
      split_ifs
      · exact .noteChange rfl runtime
      · exact .rfl
  | closeBatch runtime =>
      show Alike c (c.closeBatch runtime) (c.closeBatch true)
      rw [Controller.closeBatch, Controller.closeBatch]
      dsimp only
      split_ifs with inside changed waiting
      · exact .rfl
      · exact .noteChange rfl runtime
      · simp only [Bool.and_eq_true, Bool.not_eq_true'] at waiting
        exact .start waiting.1.2 runtime
      · exact .rfl
  | resume runtime =>
      show Alike c (c.resume runtime) (c.resume true)
      rw [Controller.resume, Controller.resume]
      dsimp only
      split_ifs with waiting
      · simp only [Bool.and_eq_true, Bool.not_eq_true'] at waiting
        exact .start waiting.1.2 runtime
      · exact .rfl
  | kick runtime =>
      show Alike c (c.kick runtime).1 (c.kick true).1
      rw [Controller.kick, Controller.kick]
      split_ifs with busy held
      · exact .rfl
      · exact .rfl
      · exact .start (by simpa using busy) runtime

theorem supported_minds (h : c.Steady) (a : Call) : c.Minds (a.supported.run c) := by
  cases a with
  | update runtime edits => exact h.update edits
  | openBatch => exact h.openBatch
  | closeBatch runtime => exact h.closeBatch
  | suppress => exact h.suppress
  | resume runtime => exact h.resume
  | look => exact h.drainStep
  | kick runtime => exact h.kick

theorem steady (h : c.Steady) (a : Call) : (a.run c).Steady := by
  obtain ⟨⟨running, e⟩, -⟩ := a.alike c
  have supported := (a.supported_minds h).steady
  rw [e]
  exact ⟨supported.sound, supported.dirty_eq, supported.batch⟩

/-- What a call leaves behind. -/
inductive Leaves (c : Controller τ) (a : Call) (c' : Controller τ) : Prop
  /-- A change is noted, and the latch is armed again. -/
  | noted : c'.latch = .clear → c'.hasPending = true →
      (c'.running = true → c.running = true ∨ c'.pending = true) →
        (c'.batchDepth = 0 → a.signals c (decide (0 < c.batchChanges)) = true) →
        Leaves c a c'
  /-- A loop is started for a change that was noted before. -/
  | restarted : c.running = false → c.pending = true →
      (a = .resume true ∧ c.batchDepth = 0 ∨
        a = .closeBatch true ∧ c.batchDepth = 1 ∧ c.batchChanges = 0 ∧
        c.suppressed = false) →
          c' = { c with running := true, suppressed := false, batchDepth := 0 } →
          Leaves c a c'
  /-- Nothing is noted and no loop is started. -/
  | kept : c'.latch = c.latch → c'.running = c.running → c'.record = c.record →
      c'.batchChanges = c.batchChanges →
        (c'.pending = c.pending ∨
          c.running = false ∧ c.batchDepth = 0 ∧ c.record.dirty = 0 ∧
          c'.pending = false) → (c'.batchDepth = 0 → c.batchDepth = 0 ∨
            (∃ runtime, a = .closeBatch runtime) ∧ c.batchDepth = 1 ∧
            c.batchChanges = 0) →
              Leaves c a c'

theorem leaves_look (c : Controller τ) : Leaves c .look c.drainStep.1 := by
  rcases c.drainStep_cases with ⟨-, e⟩ | ⟨-, e⟩ |
    ⟨idle, outside, _, e | ⟨⟨-, clean⟩, e⟩⟩ |
    ⟨-, -, e⟩
  · rw [e]
    exact .kept rfl rfl rfl rfl (.inl rfl) .inl
  · rw [e]
    exact .kept rfl rfl rfl rfl (.inl rfl) .inl
  · rw [e]
    exact .kept rfl rfl rfl rfl (.inl rfl) .inl
  · rw [e]
    exact .kept rfl rfl rfl rfl (.inr ⟨idle, outside, clean, rfl⟩) .inl
  · rw [e]
    exact .kept rfl rfl rfl rfl (.inl rfl) .inl

theorem leaves_update (sound : c.record.Sound) (runtime : Bool) (edits : List Edit) :
    Leaves c (.update runtime edits) (c.update runtime edits).1 := by
  rw [update_eq]
  cases told : c.notifies edits with
  | false =>
      have same := (sound.editAll edits).2 told
      rw [if_neg Bool.false_ne_true]
      exact .kept rfl rfl same rfl (.inl rfl) .inl
  | true =>
      rw [if_pos rfl]
      rcases Nat.eq_zero_or_pos c.batchDepth with outside | inside
      · obtain ⟨running, -, e⟩ := noteChange_outside
          (c := { c with record := (c.record.editAll edits).1 }) outside runtime
        rw [e]
        refine .noted rfl rfl (fun _ => .inr rfl) (fun _ => ?_)
        simp [signals, told, outside]
      · rw [noteChange_inside (c := { c with record := (c.record.editAll edits).1 }) inside]
        refine .noted rfl (by simp [hasPending]) .inl (fun none => ?_)
        exact absurd none (Nat.ne_of_gt inside)

theorem leaves_closeBatch (opened : 0 < c.batchDepth) (runtime : Bool) :
    Leaves c (.closeBatch runtime) (c.closeBatch runtime) := by
  rw [Controller.closeBatch]
  dsimp only
  split_ifs with inside changed waiting
  · exact .kept rfl rfl rfl rfl (.inl rfl) (fun none => absurd none (Nat.ne_of_gt inside))
  · have outside : c.batchDepth - 1 = 0 := by omega
    obtain ⟨running, -, e⟩ := noteChange_outside
      (c := { c with batchDepth := c.batchDepth - 1, batchChanges := 0 }) outside runtime
    rw [e]
    refine .noted rfl rfl (fun _ => .inr rfl) (fun _ => ?_)
    have outermost : c.batchDepth = 1 := by omega
    simp [signals, outermost, changed]
  · simp only [Bool.and_eq_true, Bool.not_eq_true'] at waiting
    have outermost : c.batchDepth = 1 := by omega
    have unchanged : c.batchChanges = 0 := by omega
    rw [start]
    split
    next supported =>
      subst supported
      refine .restarted waiting.1.2 waiting.1.1
        (.inr ⟨rfl, outermost, unchanged, waiting.2⟩) ?_
      simp [outermost, waiting.2]
    next => exact .kept rfl rfl rfl rfl (.inl rfl) (fun _ => .inr
      ⟨⟨_, rfl⟩, outermost, unchanged⟩)
  · exact .kept rfl rfl rfl rfl (.inl rfl)
      (fun _ => .inr ⟨⟨_, rfl⟩, by omega, by omega⟩)

theorem leaves_resume (c : Controller τ) (runtime : Bool) :
    Leaves c (.resume runtime) (c.resume runtime) := by
  rw [Controller.resume]
  dsimp only
  split_ifs with waiting
  · simp only [Bool.and_eq_true, Bool.not_eq_true', beq_iff_eq] at waiting
    rw [start]
    split
    next supported =>
      subst supported
      refine .restarted waiting.1.2 waiting.1.1 (.inl ⟨rfl, waiting.2⟩) ?_
      simp [waiting.2]
    next => exact .kept rfl rfl rfl rfl (.inl rfl) .inl
  · exact .kept rfl rfl rfl rfl (.inl rfl) .inl

theorem leaves_kick (c : Controller τ) (runtime : Bool) :
    Leaves c (.kick runtime) (c.kick runtime).1 := by
  rw [Controller.kick]
  split_ifs with busy held
  · exact .kept rfl rfl rfl rfl (.inl rfl) .inl
  · exact .kept rfl rfl rfl rfl (.inl rfl) .inl
  · have idle : c.running = false := by simpa using busy
    have may : c.maySend = true := by simpa using held
    obtain ⟨running, -, e⟩ :=
      start_cases runtime { c with latch := .clear, pending := true }
    dsimp only
    rw [e]
    exact .noted rfl rfl (fun _ => .inr rfl) (fun _ => by simp [signals, idle, may])

/-- A call notes a change, or starts a loop for what was noted before, or does neither. -/
theorem leaves (h : c.Steady) (a : Call) (possible : a.Possible c) :
    Leaves c a (a.run c) := by
  cases a with
  | update runtime edits => exact leaves_update h.sound runtime edits
  | openBatch =>
      exact .kept rfl rfl rfl rfl (.inl rfl) (fun none => absurd none (Nat.succ_ne_zero _))
  | closeBatch runtime => exact leaves_closeBatch possible runtime
  | suppress => exact .kept rfl rfl rfl rfl (.inl rfl) .inl
  | resume runtime => exact leaves_resume c runtime
  | look => exact leaves_look c
  | kick runtime => exact leaves_kick c runtime

end Call

end Controller

namespace Engine

variable [Catalog τ] {x y : Engine τ}

/-- Someone takes hold of the controller, or a request is answered. -/
inductive Turn : Engine τ → Engine τ → Prop
  | call (x : Engine τ) (a : Controller.Call) :
      a.Possible x.controller → Turn x (x.after (a.run x.controller))
  | begin (x : Engine τ) {before later : List (SaveLoop τ)} :
      x.loops = before ++ .starting :: later →
        Turn x ⟨x.controller.beginAttempt.1,
          before ++ begun x.controller.record x.controller.beginAttempt.2 ++ later⟩
  | answer (x : Engine τ) {before later : List (SaveLoop τ)} {taken : Record τ}
      {patch : Message} {delta : Delta} (accepted : Bool) :
      x.loops = before ++ .sending taken patch delta :: later →
        Turn x ⟨x.controller, before ++ .answered taken delta accepted :: later⟩
  | finish (x : Engine τ) {before later : List (SaveLoop τ)} {taken : Record τ}
      {delta : Delta} {accepted : Bool} :
      x.loops = before ++ .answered taken delta accepted :: later →
        Turn x ⟨(x.controller.finishAttempt delta accepted).1,
          before ++ finished (x.controller.finishAttempt delta accepted).2 ++ later⟩

/-- There is a loop only while the controller is running, and then things stand as it
needs them. -/
structure Attends (x : Engine τ) : Prop where
  steady : x.controller.Steady
  idle : x.controller.running = false → x.loops = []
  busy : x.controller.running = true → x.controller.Serves x.loops

theorem Attends.start {r : Record τ} (sound : r.Sound) : (start r).Attends :=
  ⟨⟨sound, rfl, fun _ => rfl⟩, fun _ => rfl, fun busy => absurd busy Bool.false_ne_true⟩

/-- What the save loops need is kept up. -/
theorem Holds.attends (h : x.Holds) : x.Attends :=
  ⟨h.steady, h.loops_of_idle, fun _ => h.serves⟩

/-- A loop exists while the controller is running. -/
theorem Attends.holds (h : x.Attends) {before later : List (SaveLoop τ)} {l : SaveLoop τ}
    (loops : x.loops = before ++ l :: later) : x.controller.running = true ∧ x.Holds := by
  cases running : x.controller.running with
  | true => exact ⟨rfl, h.steady, h.busy running⟩
  | false => exact absurd ((h.idle running).symm.trans loops) (by simp)

/-- A loop that exists is the only one. -/
theorem Attends.alone (h : x.Attends) {before later : List (SaveLoop τ)} {l : SaveLoop τ}
    (loops : x.loops = before ++ l :: later) :
    before = [] ∧ later = [] ∧ x.controller.running = true ∧ x.controller.Serves [l] := by
  obtain ⟨busy, holds⟩ := h.holds loops
  obtain ⟨before, later, serves⟩ := holds.alone loops
  exact ⟨before, later, busy, serves⟩

theorem Attends.call (h : x.Attends) (a : Controller.Call)
    (possible : a.Possible x.controller) : (x.after (a.run x.controller)).Attends := by
  cases running : x.controller.running with
  | true =>
      rw [(a.alike x.controller).2 running]
      exact ((a.supported_minds h.steady).holds ⟨h.steady, h.busy running⟩).attends
  | false =>
      have loops : (x.after (a.run x.controller)).loops =
          if (a.run x.controller).running then [.starting] else [] := by
        rw [after, running, h.idle running]
        rfl
      cases started : (a.run x.controller).running with
      | false =>
          rw [started] at loops
          exact ⟨a.steady h.steady, fun _ => loops,
            fun busy => absurd (started.symm.trans busy) Bool.false_ne_true⟩
      | true =>
          rw [started] at loops
          refine ⟨a.steady h.steady,
            fun idle => absurd (idle.symm.trans started) Bool.false_ne_true, fun _ => ?_⟩
          rw [loops]
          refine ⟨started, ?_⟩
          show (a.run x.controller).pending = true
          cases a.leaves h.steady possible with
          | noted _ _ raised => exact (raised started).resolve_left (by simp [running])
          | restarted _ pending _ e => exact e ▸ pending
          | kept _ same =>
              exact absurd (running.symm.trans (same.symm.trans started)) Bool.false_ne_true

/-- Each turn keeps what the loops need. -/
theorem Attends.turn (h : x.Attends) (turn : Turn x y) : y.Attends := by
  cases turn with
  | call a possible => exact h.call a possible
  | begin loops =>
      have holds := (h.holds loops).2
      exact (holds.step (.move (.begin x loops))).attends
  | answer accepted loops =>
      have holds := (h.holds loops).2
      exact (holds.step (.answer x accepted loops)).attends
  | finish loops =>
      have holds := (h.holds loops).2
      exact (holds.step (.move (.finish x loops))).attends

end Engine

end RecordSync
