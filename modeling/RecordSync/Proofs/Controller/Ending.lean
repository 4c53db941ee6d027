import Mathlib.Logic.Function.Basic
import RecordSync.Proofs.Controller.Waiting
import RecordSync.Simulation.Clients

/-!
# The end of a session

A session that ends waits until each of its records is saved.  It makes a call for every
record and polls the calls in any order, while others go on to use the records.  A call
that has answered is not polled again.  When all have answered the session ends if every
answer was true, and is kept otherwise.

The answers are given at different moments.  A call that answers true finds its record
saved; but when the last call answers, a record whose call has answered before may have
been changed, and nobody looks at it again.

**Step.**  A saved record stays saved unless an update tells of a change, or a waiting
call that found it dirty asks for a new attempt.

**Results.**
* `Controller.Call.saved_or_disturbs`: what calls do to a saved record.
* `Ending.Step.saved_iff`, `Ending.saved_iff`: a record that was saved at one moment is
  saved at another, unless it was disturbed in between and not saved again.
* `Ending.ends_unsaved_iff`: when a session ends with a record that is not saved.
-/

namespace RecordSync

variable {τ : Type}

/-- The outcome of the end of a session, by the number of records that are not saved. -/
def Unsaved.verdict : ℕ → Except Unsaved Unit
  | 0 => .ok ()
  | failed + 1 => .error ⟨failed + 1⟩

theorem Unsaved.verdict_eq_ok {failed : ℕ} : verdict failed = .ok () ↔ failed = 0 := by
  cases failed <;> simp [verdict]

theorem Unsaved.eq_of_verdict {failed told : ℕ} (h : verdict failed = .error ⟨told⟩) :
    told = failed := by
  cases failed with
  | zero => cases h
  | succ failed =>
      cases h
      rfl

/-- The end of a session in a world has such an outcome. -/
theorem World.finish_verdict (w : World) (client : Nat) (x : Client) :
    (w.finish client x).2 = (w.drainAll x.tracked).2.map
      (fun answers => Unsaved.verdict (answers.countP (fun saved => !saved))) := by
  rw [finish, drain]
  cases w.drainAll x.tracked with
  | mk w' answers =>
      cases answers with
      | none => rfl
      | some answers =>
          dsimp only [Option.map_some]
          cases answers.countP (fun saved => !saved) <;> rfl

namespace Controller

variable {c : Controller τ}

theorem isSynchronized_iff : c.isSynchronized = true ↔
    c.running = false ∧ c.pending = false ∧ c.batchChanges = 0 ∧ c.record.dirty = 0 := by
  simp [isSynchronized, hasPending, and_assoc]

theorem not_synchronized_of_pending (h : c.hasPending = true) :
    c.isSynchronized = false := by
  simp [isSynchronized, h]

/-- A change that is noted is still to be saved. -/
theorem noteChange_hasPending (runtime : Bool) (c : Controller τ) :
    (c.noteChange runtime).hasPending = true := by
  rcases Nat.eq_zero_or_pos c.batchDepth with outside | inside
  · obtain ⟨running, -, e⟩ := noteChange_outside outside runtime
    simp [e, hasPending]
  · simp [noteChange_inside inside, hasPending]

/-- A look that finds all saved is right. -/
theorem drainStep_saved {c' : Controller τ} (h : c.drainStep = (c', .done true)) :
    c'.isSynchronized = true := by
  rw [drainStep] at h
  by_cases busy : c.running = true
  · rw [if_pos busy] at h
    cases h
  · rw [if_neg busy] at h
    split at h
    next => cases h
    next =>
      dsimp only at h
      split_ifs at h with lowers found suppressed found suppressed
      all_goals cases h
      all_goals simpa [isSynchronized, busy] using found

namespace Call

variable [Catalog τ] {a : Call}

/-- The call leaves something to be sent, even if all was saved: its edits tell of a
change, or it asks for a new attempt and nothing holds it back. -/
def Disturbs (c : Controller τ) : Call → Prop
  | update _ edits => c.notifies edits = true
  | kick _ => c.running = false ∧ c.maySend = true
  | _ => False

theorem Disturbs.unsaved (h : a.Disturbs c) : (a.run c).isSynchronized = false := by
  cases a with
  | update runtime edits =>
      refine not_synchronized_of_pending ?_
      have told : c.notifies edits = true := h
      rw [run, update_eq, if_pos told]
      exact noteChange_hasPending runtime _
  | kick runtime =>
      refine not_synchronized_of_pending ?_
      rw [run, Controller.kick, if_neg (by simp [h.1]), if_neg (by simp [h.2])]
      obtain ⟨running, -, e⟩ :=
        start_cases runtime { c with latch := .clear, pending := true }
      dsimp only
      rw [e]
      rfl
  | openBatch => exact h.elim
  | closeBatch runtime => exact h.elim
  | suppress => exact h.elim
  | resume runtime => exact h.elim
  | look => exact h.elim

/-- A call leaves a saved record saved, unless it leaves something to be sent. -/
theorem saved_or_disturbs (sound : c.record.Sound) (saved : c.isSynchronized = true)
    (a : Call) : (a.run c).isSynchronized = true ∨ a.Disturbs c := by
  obtain ⟨idle, lowered, unchanged, clean⟩ := isSynchronized_iff.mp saved
  cases a with
  | update runtime edits =>
      cases told : c.notifies edits with
      | true => exact .inr told
      | false =>
          left
          have same := (sound.editAll edits).2 told
          rw [run, update_eq, told, if_neg Bool.false_ne_true, same]
          exact saved
  | openBatch => exact .inl saved
  | closeBatch runtime =>
      left
      rw [run, Controller.closeBatch]
      simp [isSynchronized_iff, idle, lowered, unchanged, clean]
  | suppress => exact .inl saved
  | resume runtime =>
      left
      rw [run, Controller.resume]
      simp [isSynchronized_iff, idle, lowered, unchanged, clean]
  | look =>
      left
      rw [run]
      rcases c.drainStep_eq with e | ⟨-, -, e⟩
      · rw [e]
        exact saved
      · rw [e]
        exact isSynchronized_iff.mpr ⟨idle, rfl, unchanged, clean⟩
  | kick runtime =>
      cases may : c.maySend with
      | true => exact .inr ⟨idle, may⟩
      | false =>
          left
          rw [run, Controller.kick, if_neg (by simp [idle]), if_pos (by simp [may])]
          exact saved

end Call

end Controller

/-- A call answers true only when its record is saved. -/
theorem Drain.poll_saved {call : Drain} {runtime : Bool} {c : Controller τ}
    (h : (call.poll runtime c).2 = .finished true) :
    (call.poll runtime c).1.isSynchronized = true := by
  have waits : ∀ retried (c' : Controller τ), (await retried c').2 ≠ .finished true := by
    intro retried c'
    rw [await]
    dsimp only
    split <;> exact Poll.noConfusion
  rw [poll] at h ⊢
  split at h
  next => cases h
  next settled =>
    rw [if_neg settled]
    cases looked : c.drainStep with
    | mk c' found =>
        rw [looked] at h
        cases found with
        | done synchronized =>
            cases synchronized with
            | true => exact Controller.drainStep_saved looked
            | false => cases h
        | wait => exact absurd h (waits _ _)
        | again => cases h
        | retry =>
            dsimp only at h
            split at h
            next => cases h
            next =>
              cases kicked : c'.kick runtime with
              | mk c'' started =>
                  rw [kicked] at h
                  cases started with
                  | true => exact absurd h (waits _ _)
                  | false => cases h

namespace Engine

variable [Catalog τ] {x y : Engine τ}

/-- The controller of a record was used in any way. -/
def Used (x : Engine τ) : Prop :=
  ∃ (r : Record τ) (type : τ) (attempts : List Delta),
    Record.Reachable type r attempts ∧ Relation.ReflTransGen Turn (start r) x

theorem Used.attends (h : x.Used) : x.Attends := by
  obtain ⟨r, type, attempts, made, turns⟩ := h
  induction turns with
  | refl => exact .start made.sound.1
  | tail _ turn ih => exact ih.turn turn

theorem Used.turn (h : x.Used) (turn : Turn x y) : y.Used := by
  obtain ⟨r, type, attempts, made, turns⟩ := h
  exact ⟨r, type, attempts, made, turns.tail turn⟩

/-- A poll leaves a controller alone, or takes hold of it to look or to ask for a new
attempt. -/
theorem after_poll (x : Engine τ) (call : Drain) (runtime : Bool) :
    x.after (call.poll runtime x.controller).1 = x ∨
      Turn x (x.after (call.poll runtime x.controller).1) := by
  rcases call.poll_cases runtime x.controller with e | ⟨e, -⟩ | ⟨-, -, e, -⟩
  · left
    rw [e, after, Bool.not_and_self]
    rfl
  · rw [e]
    exact .inr (.call _ .look trivial)
  · rw [e]
    exact .inr (.call _ (.kick runtime) trivial)

/-- While all is saved there is no loop, so that only calls take turns. -/
theorem Attends.saved_or_disturbed (h : x.Attends)
    (saved : x.controller.isSynchronized = true) (turn : Turn x y) :
    y.controller.isSynchronized = true ∨
      ∃ a : Controller.Call, a.Disturbs x.controller ∧
      y = x.after (a.run x.controller) := by
  have idle := (Controller.isSynchronized_iff.mp saved).1
  cases h.turned turn with
  | called a _ e =>
      subst e
      exact (a.saved_or_disturbs h.steady.sound saved).imp_right
        (fun disturbs => ⟨a, disturbs, rfl⟩)
  | goesOn busy => exact absurd (idle.symm.trans busy) Bool.false_ne_true
  | ended busy => exact absurd (idle.symm.trans busy) Bool.false_ne_true

end Engine

/-- How far a call has come. -/
inductive Progress
  | waiting (call : Drain)
  | answered (saved : Bool)
deriving DecidableEq, Repr

/-- Where a call stands after a poll, which may come back at once. -/
def Poll.progress : Poll → Progress
  | .finished saved => .answered saved
  | .suspended call => .waiting call
  | .ready call => .waiting call

/-- A call that a session waits for, with the number of its controller. -/
structure Awaited where
  handle : ℕ
  progress : Progress
deriving DecidableEq, Repr

namespace Awaited

def isAnswered (x : Awaited) : Bool :=
  match x.progress with
  | .waiting _ => false
  | .answered _ => true

/-- The record of the call was not saved. -/
def isRefused (x : Awaited) : Bool := x.progress = .answered false

theorem answered_true_iff {x : Awaited} :
    x.progress = .answered true ↔ x.isAnswered = true ∧ ¬ x.isRefused = true := by
  rw [isAnswered, isRefused]
  cases x.progress with
  | waiting call => simp
  | answered saved => cases saved <;> simp

end Awaited

/-- A session that ends: all the controllers, and the calls that it waits for, one for
each of the handles it tracks. -/
structure Ending (τ : Type) where
  engines : ℕ → Engine τ
  calls : List Awaited

namespace Ending

/-- A session begins to end. -/
def start (engines : ℕ → Engine τ) (tracked : List ℕ) : Ending τ :=
  ⟨engines, tracked.map (fun handle => ⟨handle, .waiting .fresh⟩)⟩

/-- All is saved of a record. -/
def Saved (x : Ending τ) (handle : ℕ) : Prop :=
  (x.engines handle).controller.isSynchronized = true

/-- A record that is tracked is not saved. -/
def hasUnsaved (x : Ending τ) (tracked : List ℕ) : Bool :=
  tracked.any (fun handle => !(x.engines handle).controller.isSynchronized)

/-- The outcome, once all calls have answered. -/
def verdict (x : Ending τ) : Option (Except Unsaved Unit) :=
  if x.calls.all
    Awaited.isAnswered then some (Unsaved.verdict (x.calls.countP Awaited.isRefused))
  else none

theorem hasUnsaved_iff {x : Ending τ} {tracked : List ℕ} :
    x.hasUnsaved tracked = true ↔ ∃ handle ∈ tracked, ¬ x.Saved handle := by
  simp [hasUnsaved, Saved]

/-- The outcome tells how many calls did not answer true. -/
theorem verdict_eq_some {x : Ending τ} {outcome : Except Unsaved Unit}
    (concluded : x.verdict = some outcome) :
    (∀ failed, outcome = .error ⟨failed⟩ → failed = x.calls.countP Awaited.isRefused) ∧
      (outcome = .ok () ↔ ∀ call ∈ x.calls, call.progress = .answered true) := by
  rw [verdict] at concluded
  split at concluded
  next all =>
    obtain rfl := Option.some.inj concluded
    have none_refused : x.calls.countP Awaited.isRefused = 0 ↔
        ∀ call ∈ x.calls, call.progress = .answered true := by
      rw [List.countP_eq_zero]
      refine forall₂_congr (fun call hc => ?_)
      rw [Awaited.answered_true_iff]
      simp [List.all_eq_true.mp all call hc]
    exact ⟨fun failed => Unsaved.eq_of_verdict, Unsaved.verdict_eq_ok.trans none_refused⟩
  next => cases concluded

variable [Catalog τ] {x y : Ending τ}

/-- Someone takes a turn on one of the controllers; a call is polled; or a call has waited
too long and is given up. -/
inductive Step : Ending τ → Ending τ → Prop
  | turn (x : Ending τ) (handle : ℕ) {e : Engine τ} :
      Engine.Turn (x.engines handle) e →
      Step x ⟨Function.update x.engines handle e, x.calls⟩
  | poll (x : Ending τ) (runtime : Bool) {number handle : ℕ} {call : Drain} :
      x.calls[number]? = some ⟨handle, .waiting call⟩ →
        Step x ⟨Function.update x.engines handle
            ((x.engines handle).after (call.poll runtime (x.engines handle).controller).1),
          x.calls.set number
            ⟨handle, (call.poll runtime (x.engines handle).controller).2.progress⟩⟩
  | giveUp (x : Ending τ) {number handle : ℕ} {call : Drain} :
      x.calls[number]? = some ⟨handle, .waiting call⟩ →
        Step x ⟨x.engines, x.calls.set number ⟨handle, .answered false⟩⟩

/-- A call for a record answers true in a step. -/
structure Answers (number handle : ℕ) (x y : Ending τ) : Prop where
  waits : ∃ call, x.calls[number]? = some ⟨handle, .waiting call⟩
  answered : y.calls[number]? = some ⟨handle, .answered true⟩

/-- Something is left to be sent of a record in a step. -/
def Disturbed (handle : ℕ) (x y : Ending τ) : Prop :=
  ∃ a : Controller.Call, a.Disturbs (x.engines handle).controller ∧
    y.engines handle = (x.engines handle).after (a.run (x.engines handle).controller)

theorem Disturbed.unsaved {handle : ℕ} (h : Disturbed handle x y) : ¬ y.Saved handle := by
  obtain ⟨a, disturbs, e⟩ := h
  rw [Saved, e]
  exact Bool.not_eq_true _ ▸ disturbs.unsaved

/-- A step leaves a controller alone, or takes a turn on it. -/
theorem Step.engine (hs : Step x y) (handle : ℕ) :
    y.engines handle = x.engines handle ∨
      Engine.Turn (x.engines handle) (y.engines handle) := by
  cases hs with
  | turn other turn =>
      by_cases same : handle = other
      · subst same
        exact .inr (by simpa using turn)
      · exact .inl (Function.update_of_ne same _ _)
  | @poll runtime number other call waits =>
      by_cases same : handle = other
      · subst same
        simpa using (x.engines handle).after_poll call runtime
      · exact .inl (Function.update_of_ne same _ _)
  | giveUp => exact .inl rfl

theorem Step.attends (hs : Step x y) (attends : ∀ handle, (x.engines handle).Attends)
    (handle : ℕ) : (y.engines handle).Attends := by
  rcases hs.engine handle with same | turn
  · rw [same]
    exact attends handle
  · exact (attends handle).turn turn

/-- A saved record stays saved in a step exactly if the step leaves nothing of it to be
sent. -/
theorem Step.saved_iff (hs : Step x y) {handle : ℕ} (attends : (x.engines handle).Attends)
    (saved : x.Saved handle) : y.Saved handle ↔ ¬ Disturbed handle x y := by
  refine ⟨fun still disturbed => disturbed.unsaved still, fun calm => ?_⟩
  rcases hs.engine handle with same | turn
  · rw [Saved, same]
    exact saved
  · exact (attends.saved_or_disturbed saved turn).resolve_right calm

/-- Only the call that is polled or given up comes further, and it answers true only when
its record is saved. -/
theorem Step.calls (hs : Step x y) :
    y.calls = x.calls ∨ ∃ number handle call progress,
      x.calls[number]? = some ⟨handle, .waiting call⟩ ∧
        y.calls = x.calls.set number ⟨handle, progress⟩ ∧
          (progress = .answered true → y.Saved handle) := by
  cases hs with
  | turn => exact .inl rfl
  | @poll runtime number handle call waits =>
      refine .inr ⟨number, handle, call, _, waits, rfl, fun answered => ?_⟩
      rw [Saved]
      dsimp only
      rw [Function.update_self]
      refine Drain.poll_saved ?_
      cases polled : (call.poll runtime (x.engines handle).controller).2 with
      | finished saved =>
          rw [polled] at answered
          exact congrArg Poll.finished (Progress.answered.inj answered)
      | suspended call =>
          rw [polled] at answered
          cases answered
      | ready call =>
          rw [polled] at answered
          cases answered
  | @giveUp number handle call waits =>
      exact .inr ⟨number, handle, call, _, waits, rfl, fun answered => by cases answered⟩

/-- The calls stay with their records. -/
theorem Step.handles (hs : Step x y) :
    y.calls.map Awaited.handle = x.calls.map Awaited.handle := by
  rcases hs.calls with same | ⟨number, handle, call, progress, waits, e, -⟩
  · rw [same]
  · refine List.ext_getElem? (fun i => ?_)
    rw [e, List.getElem?_map, List.getElem?_map]
    by_cases own : number = i
    · subst own
      rw [List.getElem?_set_self (List.getElem?_eq_some_iff.mp waits).1, waits]
      rfl
    · rw [List.getElem?_set_ne own]

/-- A call that has answered true did so before, or does in this step. -/
theorem Step.answered (hs : Step x y) {number handle : ℕ}
    (answered : y.calls[number]? = some ⟨handle, .answered true⟩) :
    x.calls[number]? = some ⟨handle, .answered true⟩ ∨ Answers number handle x y := by
  rcases hs.calls with same | ⟨number', handle', call, progress, waits, e, -⟩
  · left
    rwa [← same]
  · by_cases own : number' = number
    · subst own
      have there := answered
      rw [e, List.getElem?_set_self (List.getElem?_eq_some_iff.mp waits).1] at there
      cases there
      exact .inr ⟨⟨call, waits⟩, answered⟩
    · left
      rwa [e, List.getElem?_set_ne own] at answered

/-- A call answers true only when its record is saved. -/
theorem Step.saved_of_answers (hs : Step x y) {number handle : ℕ}
    (answers : Answers number handle x y) : y.Saved handle := by
  obtain ⟨⟨call, waits⟩, answered⟩ := answers
  have differs : y.calls[number]? ≠ x.calls[number]? := by
    rw [waits, answered]
    exact fun same => by cases same
  rcases hs.calls with same | ⟨number', handle', call', progress, waits', e, saved⟩
  · exact absurd (by rw [same]) differs
  · by_cases own : number' = number
    · subst own
      rw [e, List.getElem?_set_self (List.getElem?_eq_some_iff.mp waits').1] at answered
      cases answered
      exact saved rfl
    · exact absurd (by rw [e, List.getElem?_set_ne own]) differs

section Behaviours

variable {engines : ℕ → Engine τ} {tracked : List ℕ} {trace : ℕ → Ending τ} {m n : ℕ}

/-- After one moment something is left to be sent of a record, and up to another it is not
saved again. -/
def Overtaken (trace : ℕ → Ending τ) (handle m n : ℕ) : Prop :=
  ∃ k, m ≤ k ∧ k < n ∧ Disturbed handle (trace k) (trace (k + 1)) ∧
    ∀ l, k < l → l ≤ n → ¬ (trace l).Saved handle

theorem attends (h : Behaviour Step (start engines tracked) trace)
    (used : ∀ handle, (engines handle).Used) (n : ℕ) :
    ∀ handle, ((trace n).engines handle).Attends := by
  induction n with
  | zero =>
      rw [h.start]
      exact fun handle => (used handle).attends
  | succ n ih =>
      rcases h.same_or_step n with same | hs
      · rwa [same]
      · exact hs.attends ih

/-- A record that was saved and is not saved later was disturbed last in between. -/
theorem overtaken_of_unsaved (h : Behaviour Step (start engines tracked) trace)
    (used : ∀ handle, (engines handle).Used) {handle : ℕ} (saved : (trace m).Saved handle)
    (later : m ≤ n) (unsaved : ¬ (trace n).Saved handle) :
    Overtaken trace handle m n := by
  induction n, later using Nat.le_induction with
  | base => exact absurd saved unsaved
  | succ n later ih =>
      by_cases was : (trace n).Saved handle
      · refine ⟨n, later, Nat.lt_succ_self n, ?_, fun l after until_ => ?_⟩
        · rcases h.same_or_step n with same | hs
          · exact absurd (same ▸ was) unsaved
          · by_contra calm
            exact unsaved ((hs.saved_iff (attends h used n handle) was).mpr calm)
        · obtain rfl : l = n + 1 := by omega
          exact unsaved
      · obtain ⟨k, from_, before, disturbed, never⟩ := ih was
        refine ⟨k, from_, by omega, disturbed, fun l after until_ => ?_⟩
        rcases Nat.lt_or_eq_of_le until_ with earlier | rfl
        · exact never l after (by omega)
        · exact unsaved

/-- A record that was saved is saved later, unless it is overtaken. -/
theorem saved_iff (h : Behaviour Step (start engines tracked) trace)
    (used : ∀ handle, (engines handle).Used) {handle : ℕ} (saved : (trace m).Saved handle)
    (later : m ≤ n) :
    (trace n).Saved handle ↔ ¬ Overtaken trace handle m n := by
  constructor
  · rintro now ⟨k, -, before, -, never⟩
    exact never n before le_rfl now
  · intro safe
    by_contra unsaved
    exact safe (overtaken_of_unsaved h used saved later unsaved)

theorem handles (h : Behaviour Step (start engines tracked) trace) (n : ℕ) :
    (trace n).calls.map Awaited.handle = tracked := by
  induction n with
  | zero =>
      rw [h.start, start, List.map_map]
      exact List.map_id' tracked
  | succ n ih =>
      rcases h.same_or_step n with same | hs
      · rwa [same]
      · rwa [hs.handles]

/-- A call answers true when its record is saved. -/
theorem saved_of_answers (h : Behaviour Step (start engines tracked) trace)
    {number handle : ℕ} (answers : Answers number handle (trace m) (trace (m + 1))) :
    (trace (m + 1)).Saved handle := by
  rcases h.same_or_step m with same | hs
  · obtain ⟨⟨call, waits⟩, answered⟩ := answers
    rw [same, waits] at answered
    cases answered
  · exact hs.saved_of_answers answers

/-- A call that has answered true did so at some moment. -/
theorem exists_answers (h : Behaviour Step (start engines tracked) trace)
    {number handle : ℕ}
    (answered : (trace n).calls[number]? = some ⟨handle, .answered true⟩) :
    ∃ m, m < n ∧ Answers number handle (trace m) (trace (m + 1)) := by
  induction n with
  | zero =>
      rw [h.start, start, List.getElem?_map, Option.map_eq_some_iff] at answered
      obtain ⟨_, -, fresh⟩ := answered
      cases fresh
  | succ n ih =>
      have back : (trace n).calls[number]? = some ⟨handle, .answered true⟩ ∨
          Answers number handle (trace n) (trace (n + 1)) := by
        rcases h.same_or_step n with same | hs
        · exact .inl (same ▸ answered)
        · exact hs.answered answered
      rcases back with before | answers
      · obtain ⟨m, earlier, answers⟩ := ih before
        exact ⟨m, by omega, answers⟩
      · exact ⟨n, Nat.lt_succ_self n, answers⟩

end Behaviours

/-- Others use the records in any way while a session waits for them to be saved.  When
all its calls have answered the session ends if each has answered true, and otherwise it
tells how many have not.  A call that answers true finds its record saved.  So the session
ends with a record that is not saved iff there is a tracked record that was changed after
its own call had answered and was not saved again. -/
theorem ends_unsaved_iff {engines : ℕ → Engine τ} {tracked : List ℕ}
    {trace : ℕ → Ending τ} {n : ℕ} {outcome : Except Unsaved Unit}
    (h : Behaviour Step (start engines tracked) trace)
    (used : ∀ handle, (engines handle).Used)
    (concluded : (trace n).verdict = some outcome) :
    (trace n).calls.map Awaited.handle = tracked ∧
    (∀ failed, outcome = .error ⟨failed⟩ → failed = (trace n).calls.countP Awaited.isRefused) ∧
    (outcome = .ok () ↔ ∀ call ∈ (trace n).calls, call.progress = .answered true) ∧
    (∀ number handle m, Answers number handle (trace m) (trace (m + 1)) →
      (trace (m + 1)).Saved handle) ∧
    (outcome = .ok () →
      ((trace n).hasUnsaved tracked = true ↔
        ∃ number handle m, m < n ∧ Answers number handle (trace m) (trace (m + 1)) ∧
          Overtaken trace handle (m + 1) n)) := by
  obtain ⟨counted, ends⟩ := verdict_eq_some concluded
  refine ⟨handles h n, counted, ends, fun _ _ _ => saved_of_answers h, fun e => ?_⟩
  rw [hasUnsaved_iff]
  constructor
  · rintro ⟨handle, tracks, unsaved⟩
    rw [← handles h n] at tracks
    obtain ⟨call, hc, rfl⟩ := List.mem_map.mp tracks
    obtain ⟨number, here⟩ := List.getElem?_of_mem hc
    have answered : (trace n).calls[number]? = some ⟨call.handle, .answered true⟩ := by
      rw [here, ← ends.mp e call hc]
    obtain ⟨m, earlier, answers⟩ := exists_answers h answered
    exact ⟨number, call.handle, m, earlier, answers,
      overtaken_of_unsaved h used (saved_of_answers h answers) earlier unsaved⟩
  · rintro ⟨number, handle, m, earlier, answers, overtaken⟩
    refine ⟨handle, ?_, fun saved => ?_⟩
    · rw [← handles h (m + 1)]
      exact List.mem_map_of_mem (List.mem_of_getElem? answers.answered)
    · exact (saved_iff h used (saved_of_answers h answers) earlier).mp saved overtaken

/-- New tasks under control, with saves allowed. -/
def tasks (handle : ℕ) : Engine Entity :=
  (Engine.start (.blank .task handle)).after
    ((Controller.ofRecord (.blank .task handle)).resume true)

theorem tasks_used (handle : ℕ) : (tasks handle).Used :=
  ⟨_, .task, [], .blank handle, .single (.call _ (.resume true) trivial)⟩

/-- A session tracks two tasks and ends.  Nothing of the first is to be saved, and its
call answers at once; a tag of the second is on its way.  The first is changed before the
server answers, and when it has answered the session ends, with the change unsaved. -/
theorem exists_overtaken :
    ∃ x y : Ending Entity, Relation.ReflTransGen Step (start tasks [0, 1]) x ∧
      x.verdict = none ∧ Step x y ∧ y.verdict = some (.ok ()) ∧ ¬ y.Saved 0 := by
  have tagged := Relation.ReflTransGen.single (Step.turn (start tasks [0, 1]) 1
    (.call _ (.update true [.write "tag" (.text "a")]) trivial))
  have sent := tagged.tail (.turn _ 1 (@Engine.Turn.begin _ _ _ [] [] rfl))
  have answered := sent.tail (@Step.poll _ _ _ true 0 0 .fresh rfl)
  have waiting := answered.tail (@Step.poll _ _ _ true 1 1 .fresh rfl)
  have changed := waiting.tail
    (.turn _ 0 (.call _ (.update true [.write "tag" (.text "b")]) trivial))
  have taken := changed.tail (.turn _ 1 (@Engine.Turn.answer _ _ _ [] [] _ _ _ true rfl))
  have stopped := taken.tail (.turn _ 1 (@Engine.Turn.finish _ _ _ [] [] _ _ _ rfl))
  exact ⟨_, _, stopped, rfl, @Step.poll _ _ _ true 1 1 ⟨false, true⟩ rfl, rfl,
    Bool.false_ne_true⟩

/-- The change is found again in a behaviour that ends so. -/
theorem ends_unsaved_of_change :
    ∃ trace n, Behaviour Step (start tasks [0, 1]) trace ∧
      (trace n).verdict = some (.ok ()) ∧
      ∃ number handle m, m < n ∧ Answers number handle (trace m) (trace (m + 1)) ∧
        Overtaken trace handle (m + 1) n := by
  obtain ⟨x, y, reached, -, last, concluded, unsaved⟩ := exists_overtaken
  obtain ⟨trace, n, behaviour, ended⟩ := exists_behaviour (reached.tail last)
  have here := ended n le_rfl
  have concluded : (trace n).verdict = some (.ok ()) := by rw [here, concluded]
  refine ⟨trace, n, behaviour, concluded, ?_⟩
  refine ((ends_unsaved_iff behaviour tasks_used concluded).2.2.2.2 rfl).mp ?_
  exact hasUnsaved_iff.mpr ⟨0, List.mem_cons_self, by rw [here]; exact unsaved⟩

/-- With the last answer the session ends, and one of its records is not saved. -/
theorem session_ends_unsaved :
    ∃ x y : Ending Entity, (∀ handle, (tasks handle).Used) ∧
      Relation.ReflTransGen Step (start tasks [0, 1]) x ∧ x.verdict = none ∧ Step x y ∧
        y.verdict = some (.ok ()) ∧ y.hasUnsaved [0, 1] = true := by
  obtain ⟨x, y, reached, waits, last, concluded, unsaved⟩ := exists_overtaken
  exact ⟨x, y, tasks_used, reached, waits, last, concluded,
    hasUnsaved_iff.mpr ⟨0, List.mem_cons_self, unsaved⟩⟩

end Ending

end RecordSync
