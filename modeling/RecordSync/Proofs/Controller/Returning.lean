import Mathlib.Order.Monotone.Basic
import RecordSync.Proofs.Controller.Draining

/-!
# What a waiting call returns

A call that waits until every change of a record is saved returns true iff all is saved in
the end.  A call that finds a dirty record and no loop starts one attempt of its own, and
returns false if that fails.  For the attempt it needs a runtime on its thread; without
one it returns at once that the record is not saved, although no attempt of its own has
failed.

Turns are taken in any order and the server answers as it likes, but nobody else uses the
controller meanwhile.

**Results.**
* `Draining.Since.step`: a turn keeps what holds since the call was made.
* `Draining.exists_answered`: the call returns, unless nothing happens any more.
* `Draining.call_returns`: the call returns after at most three answers, and what it
  returns.
-/

namespace RecordSync

variable {τ : Type}

namespace Draining

variable {runtime : Bool} {x : Engine τ} {y : Draining τ} {trace : ℕ → Draining τ}

theorem Told.saved_iff {saved : Bool} (h : Told runtime y saved) :
    saved = true ↔ y.controller.isSynchronized = true := by
  have unsaved : y.controller.record.dirty ≠ 0 → ¬ y.controller.isSynchronized = true :=
    fun dirty synchronized => dirty (Controller.isSynchronized_iff.mp synchronized).2.2.2
  cases h with
  | saved synchronized => exact ⟨fun _ => synchronized, fun _ => rfl⟩
  | suppressed _ dirty => simp [unsaved dirty]
  | refused _ _ dirty => simp [unsaved dirty]
  | unsupported _ _ pending =>
      simp [Controller.isSynchronized, Controller.hasPending, pending]

/-- All is saved of a clean record, unless the call could not start an attempt. -/
theorem Told.synchronized_of_clean {saved : Bool} (h : Told runtime y saved)
    (able : runtime = true ∨ y.controller.suppressed = true)
    (clean : y.controller.record.dirty = 0) : y.controller.isSynchronized = true := by
  cases h with
  | saved synchronized => exact synchronized
  | suppressed _ dirty => exact absurd clean dirty
  | refused _ _ dirty => exact absurd clean dirty
  | unsupported unable free =>
      rcases able with able | suppressed
      · exact absurd (unable.symm.trans able) Bool.false_ne_true
      · exact absurd (free.symm.trans suppressed) Bool.false_ne_true

variable [Catalog τ]

theorem Orderly.start (used : x.Used) (outside : x.controller.batchDepth = 0)
    (armed : x.controller.running = true → x.controller.latch = .clear) :
    Orderly runtime (start x) where
  attends := used.attends
  outside := outside
  armed := armed
  told := fun call waits waiting => by
    cases waits
    cases waiting
  sent := fun there => absurd there List.not_mem_nil
  started := fun there => absurd there List.not_mem_nil
  course := .first .fresh rfl rfl List.not_mem_nil

/-- At most two answers are still to come to the loop that runs when the call is made, and
one to the attempt that the call may start. -/
theorem answersLeft_start (used : x.Used) : (start x).answersLeft ≤ 3 := by
  have attends := used.attends
  have own : (start x).progress.answersLeft = 1 := rfl
  have few := Bool.toNat_le x.controller.pending
  cases running : x.controller.running with
  | false =>
      rw [answersLeft_none (attends.idle running), own]
      omega
  | true =>
      rcases (attends.busy running).stands with ⟨e, -⟩ | ⟨e, -⟩ | ⟨_, _, e, -⟩ |
        ⟨_, _, _, e, -⟩
      · rw [answersLeft_none e, own]
        omega
      · rw [answersLeft_one e, own, SaveLoop.answersLeft]
        omega
      · rw [answersLeft_one e, own, SaveLoop.answersLeft]
        exact Nat.succ_le_succ (Nat.add_le_add_left few 1)
      · rw [answersLeft_one e, own, SaveLoop.answersLeft]
        exact (Nat.succ_le_succ few).trans (Nat.le_succ 2)

/-- What a call returns that was made in a state, by the state in which it returns. -/
structure Returns (runtime : Bool) (x : Engine τ) (y : Draining τ) (saved : Bool) :
    Prop where
  /-- Nothing is under way. -/
  ended : y.engine.loops = []
  /-- The call returns true iff all is saved. -/
  saved_iff : saved = true ↔
    y.controller.record.localMessage = y.controller.record.remoteMessage ∧
      y.controller.isSynchronized = true
  /-- Only for want of a runtime does it matter that a change was taken back. -/
  clean_iff : runtime = true ∨ x.controller.suppressed = true →
    (y.controller.record.localMessage = y.controller.record.remoteMessage ↔
      y.controller.isSynchronized = true)
  /-- It returns false if its own attempt was the last one and failed. -/
  refused : saved = false → x.controller.suppressed = false → runtime = true →
    ∃ earlier, .started ∉ earlier ∧ y.log = earlier ++ [.started, .sent, .answered false]
  /-- Suppressed saves are not attempted. -/
  suppressed : x.controller.suppressed = true → .started ∉ y.log ∧ .sent ∉ y.log ∧
    (saved = false ↔ y.controller.record.localMessage ≠ y.controller.record.remoteMessage)
  /-- If all was saved already nothing is sent. -/
  silent : x.controller.isSynchronized = true → saved = true ∧ y.log = []
  /-- Without a runtime no attempt is started. -/
  unsupported : runtime = false → .started ∉ y.log

/-- What holds at each moment after a call was made. -/
structure Since (runtime : Bool) (x : Engine τ) (y : Draining τ) : Prop where
  orderly : Orderly runtime y
  few : y.answers + y.answersLeft ≤ 3
  suppressed : y.controller.suppressed = x.controller.suppressed
  silent : x.controller.isSynchronized = true →
    y.controller.isSynchronized = true ∧ y.log = []

theorem Since.step {z : Draining τ} (h : Since runtime x y) (hs : Step runtime y z) :
    Since runtime x z := by
  rcases h.orderly.advances hs with ⟨-, rfl⟩ | advances
  · exact h
  · exact ⟨advances.orderly, advances.answers.trans h.few,
      advances.suppressed.trans h.suppressed,
      fun saved => h.orderly.silent (h.silent saved).1 (h.silent saved).2 hs⟩

theorem since (h : Behaviour (Step runtime) (start x) trace) (used : x.Used)
    (outside : x.controller.batchDepth = 0)
    (armed : x.controller.running = true → x.controller.latch = .clear) (n : ℕ) :
    Since runtime x (trace n) := by
  induction n with
  | zero =>
      rw [h.start]
      have left := answersLeft_start used
      exact ⟨.start used outside armed, by simpa [answers, start] using left, rfl,
        fun saved => ⟨saved, rfl⟩⟩
  | succ n ih =>
      rcases h.same_or_step n with same | hs
      · rwa [same]
      · exact ih.step hs

theorem Since.returns (h : Since runtime x y) {saved : Bool}
    (answered : y.progress = .answered saved) : Returns runtime x y saved := by
  obtain ⟨idle, told⟩ : y.controller.running = false ∧ Told runtime y saved := by
    cases h.orderly.course with
    | first call waits => cases answered.symm.trans waits
    | second call _ _ waits => cases answered.symm.trans waits
    | done saved' answered' idle told =>
        cases answered.symm.trans answered'
        exact ⟨idle, told⟩
  have same := h.suppressed
  have clean_iff := h.orderly.attends.steady.sound.clean_iff
  have clean : y.controller.isSynchronized = true →
      y.controller.record.localMessage = y.controller.record.remoteMessage :=
    fun synchronized => clean_iff.mp (Controller.isSynchronized_iff.mp synchronized).2.2.2
  have same_iff : runtime = true ∨ x.controller.suppressed = true →
      (y.controller.record.localMessage = y.controller.record.remoteMessage ↔
        y.controller.isSynchronized = true) :=
    fun able => ⟨fun e => told.synchronized_of_clean (same ▸ able) (clean_iff.mpr e), clean⟩
  refine ⟨h.orderly.attends.idle idle, ?_, same_iff, fun no free supported => ?_,
    fun held => ?_, fun silent => ?_, fun unable there => ?_⟩
  · exact told.saved_iff.trans ⟨fun synchronized => ⟨clean synchronized, synchronized⟩,
      And.right⟩
  · cases told with
    | saved => cases no
    | suppressed held =>
        exact absurd ((free.symm.trans same.symm).trans held) Bool.false_ne_true
    | refused earlier _ _ none log => exact ⟨earlier, none, log⟩
    | unsupported unable => exact absurd (unable.symm.trans supported) Bool.false_ne_true
  · refine ⟨fun there => ?_, fun there => ?_, ?_⟩
    · have free := (h.orderly.started there).2
      exact absurd ((free.symm.trans same).trans held) Bool.false_ne_true
    · have free := h.orderly.sent there
      exact absurd ((free.symm.trans same).trans held) Bool.false_ne_true
    · rw [← Bool.not_eq_true, told.saved_iff, Ne, same_iff (.inr held)]
  · obtain ⟨synchronized, log⟩ := h.silent silent
    exact ⟨told.saved_iff.mpr synchronized, log⟩
  · exact absurd (unable.symm.trans (h.orderly.started there).1) Bool.false_ne_true

theorem turnsLeft_antitone (h : ∀ n, Since runtime x (trace n))
    (steps : Behaviour (Step runtime) (start x) trace) :
    Antitone (fun n => (trace n).turnsLeft) := by
  refine antitone_nat_of_succ_le (fun n => ?_)
  rcases steps.same_or_step n with same | hs
  · exact le_of_eq (congrArg turnsLeft same)
  · rcases (h n).orderly.advances hs with ⟨-, same⟩ | advances
    · exact le_of_eq (congrArg turnsLeft same)
    · exact le_of_lt advances.turns

/-- Whenever the call waits something happens later. -/
def Lasting (trace : ℕ → Draining τ) : Prop :=
  ∀ n call, (trace n).progress = .waiting call → ∃ m, n ≤ m ∧ trace (m + 1) ≠ trace m

/-- A call returns, since only so many turns are left. -/
theorem exists_answered (h : ∀ n, Since runtime x (trace n))
    (steps : Behaviour (Step runtime) (start x) trace) (lasting : Lasting trace) :
    ∃ n saved, (trace n).progress = .answered saved := by
  have comes : ∀ left n, (trace n).turnsLeft ≤ left →
      ∃ n saved, (trace n).progress = .answered saved := by
    intro left
    induction left with
    | zero =>
        intro n none
        cases progress : (trace n).progress with
        | waiting call => simp [turnsLeft, progress, Progress.turnsLeft] at none
        | answered saved => exact ⟨n, saved, progress⟩
    | succ left ih =>
        intro n few
        cases progress : (trace n).progress with
        | waiting call =>
            obtain ⟨m, later, moves⟩ := lasting n call progress
            have before := turnsLeft_antitone h steps later
            rcases (h m).orderly.advances ((steps.same_or_step m).resolve_left moves) with
              ⟨-, same⟩ | advances
            · exact absurd same moves
            · have fewer := advances.turns
              exact ih (m + 1) (by dsimp only at before; omega)
        | answered saved => exact ⟨n, saved, progress⟩
  exact comes _ 0 le_rfl

/-- A call is made in any state that can come about, outside any batch and with the latch
clear if a loop runs, and nobody else uses the controller while it waits.  However the
server answers, there are at most three answers.  While the call waits there is a turn
that leads on, and unless nothing happens any more the call returns.  It returns true iff
all is saved.  With saves enabled it returns false only if the attempt that it started
itself was the last one and failed, or if there is no runtime, where it starts none.  With
saves suppressed it starts none either, and returns false iff the record is dirty in the
end.  If all was saved already it sends nothing. -/
theorem call_returns {x : Engine τ} {trace : ℕ → Draining τ}
    (h : Behaviour (Step runtime) (start x) trace) (used : x.Used)
    (outside : x.controller.batchDepth = 0)
    (armed : x.controller.running = true → x.controller.latch = .clear) :
    (∀ n, (trace n).answers ≤ 3) ∧
    (∀ n call, (trace n).progress = .waiting call →
      ∃ y, Step runtime (trace n) y ∧ y ≠ trace n) ∧
    (Lasting trace → ∃ n saved, (trace n).progress = .answered saved) ∧
    ∀ n saved, (trace n).progress = .answered saved →
      Returns runtime x (trace n) saved := by
  have holds := since h used outside armed
  refine ⟨fun n => ?_, fun n _ => (holds n).orderly.exists_step, exists_answered holds h,
    fun n _ => (holds n).returns⟩
  have few := (holds n).few
  omega

/-- A task with a tag under way and another one pending. -/
def tagging : Engine Entity := (Ledger.tagSent "a" "b" [] 0).engine

theorem tagging_used : tagging.Used := by
  refine ⟨_, .task, [], .blank 1, ?_⟩
  have resumed := Relation.ReflTransGen.single
    (Engine.Turn.call (Engine.start (.blank Entity.task 1)) (.resume true) trivial)
  have written := resumed.tail (.call _ (.update true [.write "tag" (.text "a")]) trivial)
  have sent := written.tail (@Engine.Turn.begin _ _ _ [] [] rfl)
  exact sent.tail (.call _ (.update true [.write "tag" (.text "b")]) trivial)

/-- The server takes the first tag and refuses the second one, twice. -/
theorem exists_refused :
    ∃ y : Draining Entity, Relation.ReflTransGen (Step true) (start tagging) y ∧
      y.progress = .answered false ∧ y.answers = 3 := by
  have waits :=
    Relation.ReflTransGen.single (@Step.poll _ true (start tagging) .fresh rfl)
  have taken := waits.tail (@Step.answer _ _ _ [] [] _ _ _ true rfl)
  have goesOn := taken.tail (@Step.finish _ _ _ [] [] _ _ _ rfl)
  have again := goesOn.tail (@Step.begin _ _ _ [] [] rfl)
  have refused := again.tail (@Step.answer _ _ _ [] [] _ _ _ false rfl)
  have ended := refused.tail (@Step.finish _ _ _ [] [] _ _ _ rfl)
  have asked := ended.tail (@Step.poll _ _ _ ⟨false, true⟩ rfl)
  have sent := asked.tail (@Step.begin _ _ _ [] [] rfl)
  have refusedAgain := sent.tail (@Step.answer _ _ _ [] [] _ _ _ false rfl)
  have endedAgain := refusedAgain.tail (@Step.finish _ _ _ [] [] _ _ _ rfl)
  exact ⟨_, endedAgain.tail (@Step.poll _ _ _ ⟨true, true⟩ rfl), rfl, rfl⟩

/-- The last of the three answers is to the attempt that the call started. -/
theorem call_returns_after_three_answers :
    ∃ trace n, Behaviour (Step true) (start tagging) trace ∧
      (trace n).progress = .answered false ∧ (trace n).answers = 3 ∧
        ∃ earlier, .started ∉ earlier ∧
          (trace n).log = earlier ++ [.started, .sent, .answered false] := by
  obtain ⟨y, reached, answered, three⟩ := exists_refused
  obtain ⟨trace, n, behaviour, ended⟩ := exists_behaviour reached
  have here := ended n le_rfl
  have answered : (trace n).progress = .answered false := by rw [here, answered]
  have returns :=
    (call_returns behaviour tagging_used rfl (fun _ => rfl)).2.2.2 n false answered
  exact ⟨trace, n, behaviour, answered, by rw [here, three], returns.refused rfl rfl rfl⟩

/-- A tag was written on a thread without a runtime, so that no loop was started.  A call
that has no runtime either returns false, although saves are enabled and no attempt has
failed. -/
theorem call_starts_nothing :
    ∃ x : Engine Entity, x.Used ∧ x.controller.batchDepth = 0 ∧
      x.controller.running = false ∧ x.controller.suppressed = false ∧
        ∃ y, Step false (start x) y ∧ y.progress = .answered false ∧ y.log = [] := by
  have tagged := (Ending.tasks_used 1).turn
    (.call _ (.update false [.write "tag" (.text "a")]) trivial)
  exact ⟨_, tagged, rfl, rfl, rfl, _, @Step.poll _ _ _ .fresh rfl, rfl, rfl⟩

end Draining

end RecordSync
