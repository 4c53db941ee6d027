import Mathlib.Logic.Relation
import RecordSync.Proofs.Controller.SingleFlight
import RecordSync.Proofs.Controller.Turns

/-!
# Batches and suppression

While a batch is open, or while saves are suppressed, nothing is sent.  A save loop may
run then: one that was started before the batch was opened, or one that has an answer to
settle.  It keeps to this as well, since it looks at both whenever it begins an attempt.

A behaviour is what becomes of a controller in the course of time.  Each request in it was
taken at a moment, and tells of the record of that moment.  The moments in which a batch
is open are not among those; so each request tells of the record before the first change
of a batch, or after the last one.

**A batch by itself.**  On a controller that is enabled, idle and clean, the changes of a
batch are counted until it is closed.  Then one loop is started for all of them.  If
nothing else happens and the server takes what it is sent, the loop sends one request, or
none if the record is clean again.

**Results.**
* `Ledger.Step.takes`: a step sends nothing, or the patch of the record as it is, while
  nothing holds saves back.
* `Ledger.Within.kept`: what the inside of a batch leaves as it was.
* `Ledger.Stage.step`: how far the loop is that a batch started.
* `Ledger.batches_atomic`: batches are atomic, and a batch by itself is one request.
-/

namespace RecordSync

variable {τ : Type}

namespace Controller

variable {c : Controller τ}

/-- An attempt is only made while nothing holds saves back, of the record as it is. -/
theorem beginAttempt_eq_sending {c' : Controller τ} {patch : Message} {d : Delta}
    (h : c.beginAttempt = (c', .sending patch d)) :
    c.suppressed = false ∧ c.batchDepth = 0 ∧
      c.record.synchronize = some (patch, d, c'.record) := by
  rw [beginAttempt] at h
  split at h
  next held => cases (Prod.mk.inj h).2
  next free =>
    dsimp only at h
    cases sent : c.record.synchronize with
    | none =>
        rw [sent] at h
        cases (Prod.mk.inj h).2
    | some result =>
        rw [sent] at h
        cases h
        simp only [maySend, Bool.or_eq_true, Bool.not_eq_true', not_or, Bool.not_eq_false,
          Bool.and_eq_true, beq_iff_eq] at free
        exact ⟨free.2.1, free.2.2, rfl⟩

/-- An attempt that nothing holds back is made unless the record is clean. -/
theorem beginAttempt_of_free (pending : c.pending = true) (free : c.suppressed = false)
    (outside : c.batchDepth = 0) :
    (c.record.dirty = 0 ∧ ∃ status latch shown, c.beginAttempt = ({ c with
        pending := false, running := false, dirty := 0, status := status, latch := latch },
        .over shown)) ∨
      (c.record.dirty ≠ 0 ∧ c.beginAttempt =
        ({ c with record := c.record.markSent, pending := false, status := .saving },
          .sending c.record.patch c.record.delta)) := by
  have may : (!c.pending || !c.maySend) = false := by
    simp [maySend, pending, free, outside]
  rw [beginAttempt, may, if_neg Bool.false_ne_true]
  by_cases clean : c.record.dirty = 0
  · have silent : c.record.synchronize = none := if_pos clean
    simp only [silent]
    exact .inl ⟨clean, _, _, _, rfl⟩
  · have sent := Record.synchronize_eq_some.mpr ⟨clean, rfl, rfl, rfl⟩
    refine .inr ⟨clean, ?_⟩
    simp only [sent]

/-- A loop that is answered ends if no change was noted. -/
theorem settle_of_quiet (quiet : c.pending = false) (outcome : Latch) :
    ∃ latch, (c.settleUnlessPending outcome).continue? =
      ({ c with running := false, latch := latch }, false) := by
  obtain ⟨latch, e⟩ := c.settleUnlessPending_eq outcome
  obtain ⟨latch', e'⟩ := stop_eq { c with latch := latch }
  rw [e, continue?, if_neg (by simp [quiet]), e']
  exact ⟨latch', rfl⟩

/-- The end of a batch inside another one starts nothing. -/
theorem closeBatch_inside (inside : 1 < c.batchDepth) (runtime : Bool) :
    c.closeBatch runtime = { c with batchDepth := c.batchDepth - 1 } := by
  rw [closeBatch]
  exact if_pos (Nat.sub_pos_of_lt inside)

/-- The end of the outermost batch, on a controller that is enabled and idle, starts a
loop if a change was noted. -/
theorem closeBatch_outermost (outermost : c.batchDepth = 1) (free : c.suppressed = false)
    (idle : c.running = false) :
    (0 < c.batchChanges ∧ c.closeBatch true = { c with
      batchDepth := 0, batchChanges := 0, dirty := c.record.dirty, latch := .clear
      pending := true, running := true }) ∨
    (c.batchChanges = 0 ∧ c.closeBatch true =
      { c with batchDepth := 0, running := c.pending }) := by
  rw [closeBatch, outermost]
  dsimp only
  rw [if_neg (by omega)]
  by_cases changed : 0 < c.batchChanges
  · rw [if_pos changed]
    refine .inl ⟨changed, ?_⟩
    simp [noteChange, start, idle, free]
  · rw [if_neg changed]
    refine .inr ⟨by omega, ?_⟩
    cases pending : c.pending <;> simp [start, idle, free]

/-- If nothing was noted since an attempt was taken, its success ends the loop with a
clean record. -/
theorem finishAttempt_of_silent [Catalog τ] {r : Record τ} (sound : r.Sound)
    (record : c.record = r.markSent) (silent : c.hasPending = false) :
    ∃ c', c.finishAttempt r.delta true = (c', false) ∧ c'.record.dirty = 0 := by
  have committed : c.record.commit r.delta = .ok (r.markSent.advance r.delta) :=
    record ▸ (sound.markSent.commit_attempt sound rfl).1
  have quiet : c.pending = false := by
    rw [hasPending, Bool.or_eq_false_iff] at silent
    exact silent.1
  obtain ⟨latch, e⟩ := settle_of_quiet (c := { c with
    record := r.markSent.advance r.delta
    dirty := (r.markSent.advance r.delta).dirty
    status := .saved }) quiet .resolved
  rw [finishAttempt, if_pos rfl, committed]
  exact ⟨_, e, sound.dirty_advance_delta⟩

end Controller

namespace Ledger

variable [Catalog τ] {x y z w : Ledger τ} {r₀ : Record τ}

section Taking

/-- A request is sent in a step: at a moment when nothing holds saves back it is taken of
the record. -/
structure Takes (x y : Ledger τ) (q : Record τ × Message × Delta) : Prop where
  requests : y.requests = x.requests ++ [q]
  free : x.controller.suppressed = false
  outside : x.controller.batchDepth = 0
  record : q.1 = x.controller.record
  serialized : q.1.synchronize = some (q.2.1, q.2.2, y.controller.record)

/-- A step sends nothing, or takes one request. -/
theorem Step.takes (hs : Step x y) : y.requests = x.requests ∨ ∃ q, Takes x y q := by
  cases hs with
  | call a possible => exact .inl rfl
  | answer accepted loops => exact .inl rfl
  | finish loops => exact .inl rfl
  | @begin before later loops =>
      rcases began : x.controller.beginAttempt with ⟨c', shown | ⟨patch, d⟩⟩
      · exact .inl (by simp [Ledger.begun, began, requestOf])
      · obtain ⟨free, outside, taken⟩ := Controller.beginAttempt_eq_sending began
        refine .inr ⟨(x.controller.record, patch, d), ?_, free, outside, rfl, ?_⟩
        · rw [Ledger.begun, began]
          rfl
        · rw [taken, Ledger.begun, began]
          rfl

variable {trace : ℕ → Ledger τ}

/-- Each request was taken at a moment of its own. -/
theorem taken (h : Behaviour Step (start r₀) trace) (n : ℕ) {k : ℕ}
    {q : Record τ × Message × Delta} (sent : (trace n).requests[k]? = some q) :
    ∃ m, m < n ∧ (trace m).requests.length = k ∧ Takes (trace m) (trace (m + 1)) q := by
  induction n with
  | zero =>
      rw [h.start] at sent
      cases sent
  | succ n ih =>
      have earlier : (trace n).requests[k]? = some q →
          ∃ m, m < n + 1 ∧ (trace m).requests.length = k ∧
          Takes (trace m) (trace (m + 1)) q := by
        intro sent
        obtain ⟨m, hm, taken⟩ := ih sent
        exact ⟨m, by omega, taken⟩
      have told : (trace (n + 1)).requests = (trace n).requests ∨
          ∃ q, Takes (trace n) (trace (n + 1)) q := by
        rcases h.same_or_step n with same | hs
        · exact .inl (by rw [same])
        · exact hs.takes
      rcases told with same | ⟨q', takes⟩
      · exact earlier (same ▸ sent)
      · rw [takes.requests] at sent
        rcases Nat.lt_trichotomy k (trace n).requests.length with before | here | after
        · rw [List.getElem?_append_left before] at sent
          exact earlier sent
        · rw [here, List.getElem?_append_right le_rfl, Nat.sub_self] at sent
          obtain rfl := Option.some.inj sent
          exact ⟨n, by omega, here.symm, takes⟩
        · rw [List.getElem?_eq_none (by rw [List.length_append]; exact after)] at sent
          cases sent

/-- A batch is open from the step after one moment to the step after another: by itself,
with others inside it, or together with those of other threads. -/
def BatchOpen (trace : ℕ → Ledger τ) (i j : ℕ) : Prop :=
  ∀ m, i < m → m ≤ j → 0 < (trace m).controller.batchDepth

omit [Catalog τ] in
/-- A request is taken before the first change of a batch or after the last one. -/
theorem Takes.apart {m i j : ℕ} {q : Record τ × Message × Delta}
    (takes : Takes (trace m) (trace (m + 1)) q) (batch : BatchOpen trace i j) :
    m ≤ i ∨ j < m := by
  by_contra within
  have inside := batch m (by omega) (by omega)
  rw [takes.outside] at inside
  exact absurd inside (Nat.lt_irrefl 0)

end Taking

section Inside

/-- What is done inside a batch: updates and further batches, on any threads. -/
inductive Within : Ledger τ → Ledger τ → Prop
  | nothing (x : Ledger τ) : Within x x
  | update {x y : Ledger τ} : Within x y → ∀ (runtime : Bool) (edits : List Edit),
      Within x (y.call (.update runtime edits))
  | batch {x y z : Ledger τ} : Within x y → Within (y.call .openBatch) z →
      ∀ runtime : Bool, Within x (z.call (.closeBatch runtime))

/-- A batch is run on a thread with a runtime. -/
def Batch (x z : Ledger τ) : Prop :=
  ∃ y, Within (x.call .openBatch) y ∧ z = y.call (.closeBatch true)

/-- What the inside of a batch leaves as it was.  The record is kept unless a change is
noted. -/
structure Kept (x y : Ledger τ) : Prop where
  holds : y.Holds
  loops : y.engine.loops = x.engine.loops
  requests : y.requests = x.requests
  running : y.controller.running = x.controller.running
  suppressed : y.controller.suppressed = x.controller.suppressed
  depth : y.controller.batchDepth = x.controller.batchDepth
  pending : y.controller.pending = x.controller.pending
  evolves : x.controller.record.Evolves y.controller.record
  record : y.controller.record = x.controller.record ∨ y.touched = true
  touched : x.touched = true → y.touched = true

theorem Holds.kept (h : x.Holds) : Kept x x :=
  ⟨h, rfl, rfl, rfl, rfl, rfl, rfl, h.sound.evolves, .inl rfl, id⟩

theorem Kept.trans (h : Kept x y) (h' : Kept y z) : Kept x z where
  holds := h'.holds
  loops := h'.loops.trans h.loops
  requests := h'.requests.trans h.requests
  running := h'.running.trans h.running
  suppressed := h'.suppressed.trans h.suppressed
  depth := h'.depth.trans h.depth
  pending := h'.pending.trans h.pending
  evolves := h.evolves.trans h'.evolves
  record := by
    rcases h'.record with same | touched
    · rcases h.record with same' | touched
      · exact .inl (same.trans same')
      · exact .inr (h'.touched touched)
    · exact .inr touched
  touched := fun was => h'.touched (h.touched was)

/-- A call that leaves `running` alone starts no loop. -/
theorem loops_call {a : Controller.Call}
    (same : (a.run x.controller).running = x.controller.running) :
    (x.call a).engine.loops = x.engine.loops := by
  show (x.engine.after (a.run x.controller)).loops = x.engine.loops
  have none : (!x.engine.controller.running && (a.run x.controller).running) = false := by
    rw [same]
    exact Bool.not_and_self _
  rw [Engine.after, none]
  rfl

/-- An update inside a batch starts nothing. -/
theorem Holds.kept_update (h : x.Holds) (inside : 0 < x.controller.batchDepth)
    (runtime : Bool) (edits : List Edit) : Kept x (x.call (.update runtime edits)) := by
  have effect := h.counts.effect (a := .update runtime edits) trivial
  obtain ⟨evolves, seen⟩ := effect.view h.sound
  have unsignalled :
      Controller.Call.signals x.controller x.touched (.update runtime edits) = false := by
    simp [Controller.Call.signals, Nat.ne_of_gt inside]
  rw [unsignalled] at effect seen
  have run : ∃ record dirty latch changes, (x.controller.update runtime edits).1 =
      { x.controller with
        record := record, dirty := dirty, latch := latch, batchChanges := changes } := by
    rw [Controller.update_eq]
    split
    · rw [Controller.noteChange_inside
        (c := { x.controller with record := (x.controller.record.editAll edits).1 }) inside]
      exact ⟨_, _, _, _, rfl⟩
    · exact ⟨_, _, _, _, rfl⟩
  obtain ⟨record, dirty, latch, changes, e⟩ := run
  have same : (Controller.Call.run x.controller (.update runtime edits)).running =
      x.controller.running := (congrArg Controller.running e :)
  exact ⟨h.call trivial, loops_call same, rfl, same, (congrArg Controller.suppressed e :),
    (congrArg Controller.batchDepth e :), (congrArg Controller.pending e :), evolves,
    seen.imp_right (·.resolve_right Bool.false_ne_true),
    fun was => (effect.kept was).resolve_right Bool.false_ne_true⟩

/-- A batch inside a batch starts nothing. -/
theorem Kept.batch (h : Kept (x.call .openBatch) y)
    (inside : 0 < x.controller.batchDepth) (runtime : Bool) :
    Kept x (y.call (.closeBatch runtime)) := by
  have depth : y.controller.batchDepth = x.controller.batchDepth + 1 := h.depth
  have e : y.controller.closeBatch runtime =
      { y.controller with batchDepth := y.controller.batchDepth - 1 } :=
    Controller.closeBatch_inside (by omega) runtime
  have same : (Controller.Call.run y.controller (.closeBatch runtime)).running =
      y.controller.running := (congrArg Controller.running e :)
  have opened : (x.call .openBatch).engine.loops = x.engine.loops := loops_call rfl
  have record : (y.controller.closeBatch runtime).record = y.controller.record :=
    (congrArg Controller.record e :)
  have noted : (y.call (.closeBatch runtime)).touched = y.touched := by
    show (y.touched && y.controller.batchDepth != 1) = y.touched
    rw [bne_iff_ne.mpr (by omega), Bool.and_true]
  refine ⟨h.holds.call (a := .closeBatch runtime) (by show 0 < y.controller.batchDepth; omega),
    (loops_call same).trans (h.loops.trans opened), h.requests, same.trans h.running,
    ((congrArg Controller.suppressed e :)).trans h.suppressed, ?_,
    ((congrArg Controller.pending e :)).trans h.pending, ?_, ?_, ?_⟩
  · have less : (y.controller.closeBatch runtime).batchDepth =
        y.controller.batchDepth - 1 :=
      (congrArg Controller.batchDepth e :)
    exact less.trans (by omega)
  · show x.controller.record.Evolves (y.controller.closeBatch runtime).record
    rw [record]
    exact h.evolves
  · rw [noted]
    exact h.record.imp_left record.trans
  · rw [noted]
    exact h.touched

/-- The inside of a batch starts nothing and sends nothing. -/
theorem Within.kept (h : Within x y) (holds : x.Holds)
    (inside : 0 < x.controller.batchDepth) : Kept x y := by
  induction h with
  | nothing x => exact holds.kept
  | update _ runtime edits ih =>
      have kept := ih holds inside
      exact kept.trans (kept.holds.kept_update (kept.depth ▸ inside) runtime edits)
  | batch _ _ runtime outer inner =>
      have kept := outer holds inside
      have opened := inner (kept.holds.call (a := .openBatch) trivial) (Nat.succ_pos _)
      exact kept.trans (opened.batch (kept.depth ▸ inside) runtime)

end Inside

section Alone

/-- The save loops go on and the server takes what they send; nothing else happens. -/
inductive Unattended : Ledger τ → Ledger τ → Prop
  | begin (x : Ledger τ) {before later : List (SaveLoop τ)} :
      x.engine.loops = before ++ .starting :: later → Unattended x (x.begun before later)
  | accept (x : Ledger τ) {before later : List (SaveLoop τ)} {taken : Record τ}
      {patch : Message} {delta : Delta} :
      x.engine.loops = before ++ .sending taken patch delta :: later →
        Unattended x (x.answered before later taken delta true)
  | finish (x : Ledger τ) {before later : List (SaveLoop τ)} {taken : Record τ}
      {delta : Delta} {accepted : Bool} :
      x.engine.loops = before ++ .answered taken delta accepted :: later →
        Unattended x (x.finished before later delta accepted)

/-- What a loop sends for a record, if nothing comes in between. -/
def dueFor (r : Record τ) : List (Record τ × Message × Delta) :=
  if r.dirty = 0 then [] else [(r, r.patch, r.delta)]

/-- How far a loop is that was started for a record after some requests. -/
inductive Stage (r : Record τ) (sent : List (Record τ × Message × Delta)) (x : Ledger τ) :
    Prop
  | starting : x.engine.loops = [.starting] → x.controller.record = r →
      x.controller.pending = true → x.controller.suppressed = false →
        x.controller.batchDepth = 0 → x.controller.batchChanges = 0 → x.requests = sent →
          Stage r sent x
  | sending : x.engine.loops = [.sending r r.patch r.delta] →
      x.controller.record = r.markSent →
      x.controller.hasPending = false → x.requests = sent ++ dueFor r → Stage r sent x
  | taken : x.engine.loops = [.answered r r.delta true] →
      x.controller.record = r.markSent →
      x.controller.hasPending = false → x.requests = sent ++ dueFor r → Stage r sent x
  | ended : x.engine.loops = [] → x.controller.record.dirty = 0 →
      x.requests = sent ++ dueFor r →
      Stage r sent x

variable {r : Record τ} {sent : List (Record τ × Message × Delta)}

omit [Catalog τ] in
/-- The only loop takes its next step. -/
theorem alone_of_loops {before later : List (SaveLoop τ)} {l l' : SaveLoop τ}
    (one : x.engine.loops = [l]) (loops : x.engine.loops = before ++ l' :: later) :
    before = [] ∧ later = [] ∧ l = l' := by
  rw [one] at loops
  cases before with
  | nil =>
      obtain ⟨rfl, rfl⟩ := List.cons.inj loops
      exact ⟨rfl, rfl, rfl⟩
  | cons b before =>
      obtain ⟨-, none⟩ := List.cons.inj loops
      exact absurd none.symm (by simp)

omit [Catalog τ] in
/-- A loop that begins an attempt while nothing holds it back sends what is due. -/
theorem begun_of_free (pending : x.controller.pending = true)
    (free : x.controller.suppressed = false) (outside : x.controller.batchDepth = 0)
    (changes : x.controller.batchChanges = 0) :
    (x.begun [] []).requests = x.requests ++ dueFor x.controller.record ∧
      ((x.begun [] []).engine.loops = [] ∧ (x.begun [] []).controller.record.dirty = 0 ∨
        (x.begun [] []).engine.loops =
            [.sending x.controller.record x.controller.record.patch
              x.controller.record.delta] ∧
          (x.begun [] []).controller.record = x.controller.record.markSent ∧
            (x.begun [] []).controller.hasPending = false) := by
  rcases Controller.beginAttempt_of_free pending free outside with
    ⟨clean, status, latch, shown, e⟩ | ⟨dirty, e⟩
  · rw [Ledger.begun, e, dueFor, if_pos clean]
    exact ⟨rfl, .inl ⟨rfl, clean⟩⟩
  · rw [Ledger.begun, e, dueFor, if_neg dirty]
    refine ⟨rfl, .inr ⟨rfl, rfl, ?_⟩⟩
    show (false || decide (0 < x.controller.batchChanges)) = false
    rw [changes]
    rfl

/-- The answer to the only request ends the loop. -/
theorem ended_of_taken (sound : r.Sound) (record : x.controller.record = r.markSent)
    (silent : x.controller.hasPending = false) :
    (x.finished [] [] r.delta true).engine.loops = [] ∧
      (x.finished [] [] r.delta true).controller.record.dirty = 0 := by
  obtain ⟨c', e, clean⟩ := Controller.finishAttempt_of_silent sound record silent
  rw [Ledger.finished, e]
  exact ⟨rfl, clean⟩

/-- Each step takes the loop to its next stage. -/
theorem Stage.step (h : Stage r sent x) (sound : r.Sound) (hs : Unattended x y) :
    Stage r sent y := by
  cases h with
  | starting one record pending free outside changes requests =>
      cases hs with
      | begin loops =>
          obtain ⟨rfl, rfl, -⟩ := alone_of_loops one loops
          subst record requests
          obtain ⟨requests, ⟨none, clean⟩ | ⟨one, record, silent⟩⟩ :=
            begun_of_free pending free outside changes
          · exact .ended none clean requests
          · exact .sending one record silent requests
      | accept loops => cases (alone_of_loops one loops).2.2
      | finish loops => cases (alone_of_loops one loops).2.2
  | sending one record silent requests =>
      cases hs with
      | begin loops => cases (alone_of_loops one loops).2.2
      | accept loops =>
          obtain ⟨rfl, rfl, same⟩ := alone_of_loops one loops
          cases same
          exact .taken rfl record silent requests
      | finish loops => cases (alone_of_loops one loops).2.2
  | taken one record silent requests =>
      cases hs with
      | begin loops => cases (alone_of_loops one loops).2.2
      | accept loops => cases (alone_of_loops one loops).2.2
      | finish loops =>
          obtain ⟨rfl, rfl, same⟩ := alone_of_loops one loops
          cases same
          obtain ⟨none, clean⟩ := ended_of_taken sound record silent
          exact .ended none clean requests
  | ended none clean requests =>
      cases hs with
      | begin loops => exact absurd (none.symm.trans loops) (by simp)
      | accept loops => exact absurd (none.symm.trans loops) (by simp)
      | finish loops => exact absurd (none.symm.trans loops) (by simp)

theorem Stage.run (h : Stage r sent x) (sound : r.Sound)
    (steps : Relation.ReflTransGen Unattended x y) : Stage r sent y := by
  induction steps with
  | refl => exact h
  | tail _ hs ih => exact ih.step sound hs

/-- The loop comes to its end. -/
theorem Stage.ends (h : Stage r sent x) (sound : r.Sound) :
    ∃ y, Relation.ReflTransGen Unattended x y ∧ y.engine.loops = [] := by
  -- The stages from the last to the first, each with one more step to go.
  have taken : ∀ x : Ledger τ, x.engine.loops = [.answered r r.delta true] →
      x.controller.record = r.markSent → x.controller.hasPending = false →
        ∃ y, Relation.ReflTransGen Unattended x y ∧ y.engine.loops = [] :=
    fun x one record silent =>
      ⟨x.finished [] [] r.delta true, .single (.finish x one),
        (ended_of_taken sound record silent).1⟩
  have sending : ∀ x : Ledger τ, x.engine.loops = [.sending r r.patch r.delta] →
      x.controller.record = r.markSent → x.controller.hasPending = false →
        ∃ y, Relation.ReflTransGen Unattended x y ∧ y.engine.loops = [] := by
    intro x one record silent
    obtain ⟨y, steps, none⟩ := taken (x.answered [] [] r r.delta true) rfl record silent
    exact ⟨y, .head (.accept x one) steps, none⟩
  cases h with
  | ended none => exact ⟨x, .refl, none⟩
  | taken one record silent => exact taken x one record silent
  | sending one record silent => exact sending x one record silent
  | starting one record pending free outside changes requests =>
      subst record
      have began : Unattended x (x.begun [] []) := .begin x one
      rcases (begun_of_free pending free outside changes).2 with ⟨none, -⟩ |
        ⟨one, record, silent⟩
      · exact ⟨_, .single began, none⟩
      · obtain ⟨y, steps, none⟩ := sending _ one record silent
        exact ⟨y, .head began steps, none⟩

/-- A batch on a controller that is enabled, idle and clean starts one loop for all its
changes. -/
theorem Batch.stage (batch : Batch x z) (h : x.Holds)
    (idle : x.controller.running = false) (free : x.controller.suppressed = false)
    (outside : x.controller.batchDepth = 0) (clean : x.controller.record.dirty = 0) :
    x.controller.record.Evolves z.controller.record ∧
      Stage z.controller.record x.requests z := by
  obtain ⟨y, within, rfl⟩ := batch
  have kept := within.kept (h.call (a := .openBatch) trivial) (Nat.succ_pos _)
  have none : y.engine.loops = [] := by
    have one := h.counts.one
    rw [idle, Bool.toNat_false, List.length_eq_zero_iff] at one
    exact (kept.loops.trans (loops_call rfl)).trans one
  have free : y.controller.suppressed = false := kept.suppressed.trans free
  have idle : y.controller.running = false := kept.running.trans idle
  have outermost : y.controller.batchDepth = 1 :=
    kept.depth.trans (congrArg Nat.succ outside)
  have requests : (y.call (.closeBatch true)).requests = x.requests := kept.requests
  have closed : (y.call (.closeBatch true)).controller = y.controller.closeBatch true :=
    rfl
  have loops : (y.call (.closeBatch true)).engine.loops =
      if (y.controller.closeBatch true).running then [.starting] else [] := by
    show (y.engine.after (y.controller.closeBatch true)).loops = _
    have idle : y.engine.controller.running = false := idle
    rw [Engine.after, idle, none]
    rfl
  rcases Controller.closeBatch_outermost outermost free idle with ⟨changed, e⟩ |
    ⟨unchanged, e⟩
  · rw [closed, e]
    rw [e] at loops
    refine ⟨kept.evolves, .starting loops ?_ ?_ ?_ ?_ ?_ requests⟩
    all_goals rw [closed, e]
    exact free
  · have same : y.controller.record = x.controller.record := by
      refine kept.record.resolve_right (fun touched => ?_)
      have counted := kept.holds.counts.counted
      rw [touched, unchanged] at counted
      exact absurd counted (by decide)
    rw [closed, e]
    rw [e] at loops
    refine ⟨kept.evolves, ?_⟩
    cases pending : y.controller.pending with
    | true =>
        refine .starting (by rw [loops, pending]; rfl) ?_ ?_ ?_ ?_ ?_ requests
        all_goals rw [closed, e]
        · exact pending
        · exact free
        · exact unchanged
    | false =>
        refine .ended (by rw [loops, pending]; rfl) ?_ ?_
        · rw [closed, e]
          exact same ▸ clean
        · rw [requests, dueFor, if_pos (same ▸ clean), List.append_nil]

end Alone

/-- In whatever order calls, loop sections and answers come: each request is the patch of
the record at a moment when no batch is open and saves are not suppressed, so it is taken
before the first change of any batch or after the last one.  A batch on a controller that
is enabled, idle and clean, with any updates and batches in it, is followed by one request
with all it changed, or by none if it leaves the record clean, that is, if the user sees
what was seen before; if nothing else happens the loop comes to its end, with a clean
record. -/
theorem batches_atomic {trace : ℕ → Ledger τ}
    (h : Behaviour Step (start r₀) trace) (n : ℕ) :
    (∀ k q, (trace n).requests[k]? = some q →
      ∃ m, m < n ∧ (trace m).requests.length = k ∧ Takes (trace m) (trace (m + 1)) q ∧
        ∀ i j, BatchOpen trace i j → m ≤ i ∨ j < m) ∧
    ∀ {type : τ} {attempts : List Delta}, Record.Reachable type r₀ attempts →
      (trace n).controller.running = false → (trace n).controller.suppressed = false →
        (trace n).controller.batchDepth = 0 → (trace n).controller.record.dirty = 0 →
          ∀ {z : Ledger τ}, Batch (trace n) z →
            (z.controller.record.dirty = 0 ↔ z.view = (trace n).view) ∧
            ∀ {w : Ledger τ}, Relation.ReflTransGen Unattended z w →
              (∃ v, Relation.ReflTransGen Unattended w v ∧ v.engine.loops = []) ∧
              (w.engine.loops = [] → w.controller.record.dirty = 0 ∧
                w.requests = (trace n).requests ++ dueFor z.controller.record) := by
  refine ⟨fun k q sent => ?_, fun made idle free outside clean z batch => ?_⟩
  · obtain ⟨m, earlier, length, takes⟩ := taken h n sent
    exact ⟨m, earlier, length, takes, fun i j batch => takes.apart batch⟩
  · have holds := (Holds.start made.sound.1).run (h.reachable n)
    obtain ⟨evolves, stage⟩ := batch.stage holds idle free outside clean
    refine ⟨?_, fun steps => ?_⟩
    · rw [evolves.sound.clean_iff, evolves.remote_eq holds.sound,
        ← holds.sound.clean_iff.mp clean]
      rfl
    · have stage := stage.run evolves.sound steps
      refine ⟨stage.ends evolves.sound, fun none => ?_⟩
      cases stage with
      | ended _ clean requests => exact ⟨clean, requests⟩
      | starting one => exact absurd (one.symm.trans none) (List.cons_ne_nil _ _)
      | sending one => exact absurd (one.symm.trans none) (List.cons_ne_nil _ _)
      | taken one => exact absurd (one.symm.trans none) (List.cons_ne_nil _ _)

/-- A tag is written in a batch, and again in a batch inside it, which is closed. -/
def tagTwice (x : Ledger Entity) : Ledger Entity :=
  ((((x.call .openBatch).call (.update true [.write "tag" (.text "a")])).call .openBatch).call
    (.update true [.write "tag" (.text "b")])).call (.closeBatch true)

/-- A tag is written twice in a batch: one request follows. -/
theorem batches_atomic_of_tags :
    ∃ trace n, ∃ z w : Ledger Entity, Behaviour Step (start (.blank .task 1)) trace ∧
      Batch (trace n) z ∧ z.view ≠ (trace n).view ∧ Relation.ReflTransGen Unattended z w ∧
      w.engine.loops = [] ∧
        w.requests = (trace n).requests ++
          [(z.controller.record, z.controller.record.patch, z.controller.record.delta)] := by
  have resumed :
      Reachable (.blank .task 1) ((start (.blank Entity.task 1)).call (.resume true)) :=
    .single (.call _ (.resume true) trivial)
  obtain ⟨trace, n, behaviour, ended⟩ := exists_behaviour resumed
  have here := ended n le_rfl
  have batch : Batch (trace n) ((tagTwice (trace n)).call (.closeBatch true)) :=
    ⟨_, ((Within.nothing _).update true _).batch ((Within.nothing _).update true _) true, rfl⟩
  have dirty : ((tagTwice (trace n)).call (.closeBatch true)).controller.record.dirty ≠
      0 := by
    rw [here]
    decide
  obtain ⟨seen, runs⟩ := (batches_atomic behaviour n).2 (.blank 1) (by rw [here]; rfl)
    (by rw [here]; rfl) (by rw [here]; rfl) (by rw [here]; rfl) batch
  obtain ⟨w, steps, none⟩ := (runs .refl).1
  have requests := ((runs steps).2 none).2
  rw [dueFor, if_neg dirty] at requests
  exact ⟨trace, n, _, w, behaviour, batch, fun same => dirty (seen.mpr same), steps,
    none, requests⟩

end Ledger

end RecordSync
