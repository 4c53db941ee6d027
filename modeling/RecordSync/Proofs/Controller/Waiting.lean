import RecordSync.Proofs.Controller.Settlement

/-!
# Calls that wait for the latch

A call that waits for a record to be saved is polled from time to time.  While it waits
for the latch it looks at nothing else, and goes on only if the latch is settled at the
moment of a poll.  A settlement can be gone by then: a change that is noted in between
arms the latch again.  That does no harm if a loop runs for the change, or if one will
when a batch is closed, since that loop settles the latch.

If saves are suppressed there is no such loop.  Then the call is stranded: it waits
although nothing is under way that would settle the latch, where it should answer that
saves are suppressed.  The same happens when a loop stops for a batch, leaving the latch
clear, and saves are suppressed when the batch is closed; and for a change that is noted
without a runtime.

**Invariant.**  While a call waits and the latch is clear, a loop runs or a change is
pending.  It holds until a call is stranded.

**Results.**
* `Lobby.Step.strands`: which steps strand a call.
* `Lobby.stranded_iff`: calls are stranded by these steps and by no others.
-/

namespace RecordSync

variable {τ : Type}

/-- The call that is still under way after a poll, if there is one. -/
def Poll.rest : Poll → List Drain
  | .finished _ => []
  | .suspended call => [call]
  | .ready call => [call]

namespace Controller.Call

/-- The thread of the call has a runtime, or the call needs none. -/
def runtime : Call → Bool
  | update runtime _ => runtime
  | closeBatch runtime => runtime
  | resume runtime => runtime
  | kick runtime => runtime
  | _ => true

variable [Catalog τ] {c : Controller τ} {a : Call}

/-- The call leaves a change that calls for a save loop while the latch is clear: it
signals a change, or it closes the outermost batch while a change from before is
pending. -/
def Demands (c : Controller τ) (a : Call) : Prop :=
  a.signals c (decide (0 < c.batchChanges)) = true ∨
    (∃ runtime, a = .closeBatch runtime) ∧ c.batchDepth = 1 ∧ c.batchChanges = 0 ∧
      c.pending = true ∧ c.latch = .clear

omit [Catalog τ] in
theorem noteChange_demands (outside : c.batchDepth = 0) (idle : c.running = false)
    (runtime : Bool) :
    (c.noteChange runtime).latch = .clear ∧ (c.noteChange runtime).batchDepth = 0 ∧
      ((c.noteChange runtime).running = true ↔ c.suppressed = false ∧ runtime = true) := by
  cases held : c.suppressed <;> cases runtime <;>
    simp [Controller.noteChange, Controller.start, outside, idle, held]

/-- On an idle controller such a call starts a loop exactly if it has a runtime and saves
are not suppressed. -/
theorem Demands.run (h : a.Demands c) (idle : c.running = false) :
    (a.run c).latch = .clear ∧ (a.run c).batchDepth = 0 ∧
      ((a.run c).running = true ↔ c.suppressed = false ∧ a.runtime = true) := by
  rcases h with signalled | ⟨⟨runtime, rfl⟩, outermost, unchanged, pending, clear⟩
  · cases a with
    | update runtime edits =>
        simp only [signals, Bool.and_eq_true, beq_iff_eq] at signalled
        show (c.update runtime edits).1.latch = .clear ∧ _
        rw [run, Controller.update_eq, if_pos signalled.1]
        exact noteChange_demands (c := { c with record := (c.record.editAll edits).1 })
          signalled.2 idle runtime
    | closeBatch runtime =>
        simp only [signals, Bool.and_eq_true, beq_iff_eq, decide_eq_true_iff] at signalled
        rw [run, Controller.closeBatch]
        dsimp only
        rw [if_neg (by omega), if_pos signalled.2]
        exact noteChange_demands
          (c := { c with batchDepth := c.batchDepth - 1, batchChanges := 0 })
          (by simp [signalled.1]) idle runtime
    | kick runtime =>
        simp only [signals, idle, maySend, Bool.not_false, Bool.true_and, Bool.and_eq_true,
          Bool.not_eq_true', beq_iff_eq] at signalled
        cases runtime <;>
          simp [run, Controller.kick, Controller.start, maySend, idle, signalled, Call.runtime]
    | openBatch => cases signalled
    | suppress => cases signalled
    | resume runtime => cases signalled
    | look => cases signalled
  · cases held : c.suppressed <;> cases runtime <;>
      simp [run, Controller.closeBatch, Controller.start, outermost, unchanged, pending,
        clear, idle, held, Call.runtime]

end Controller.Call

/-- A poll leaves a call that waits for a clear latch where it is; otherwise the call
looks at the controller, and it asks for a new attempt if no loop runs and nothing holds
saves back.  Then it waits only if a loop runs. -/
theorem Drain.poll_cases (call : Drain) (runtime : Bool) (c : Controller τ) :
    call.poll runtime c = (c, .suspended call) ∨
    ((call.poll runtime c).1 = c.drainStep.1 ∧
      ∀ d ∈ (call.poll runtime c).2.rest, d.waiting = true → c.running = true) ∨
    (c.running = false ∧ c.maySend = true ∧ (call.poll runtime c).1 = (c.kick runtime).1 ∧
      ∀ d ∈ (call.poll runtime c).2.rest, d.waiting = true →
      (c.kick runtime).1.running = true) := by
  rw [poll]
  split
  next => exact .inl rfl
  next =>
    refine .inr ?_
    rcases c.drainStep_cases with ⟨busy, e⟩ | ⟨-, e⟩ | ⟨-, -, synchronized, e | ⟨-, e⟩⟩ |
      ⟨idle, may, e⟩
    · rw [e]
      exact .inl ⟨rfl, fun _ _ _ => busy⟩
    · rw [e]
      refine .inl ⟨rfl, fun d hd waits => ?_⟩
      obtain rfl := List.mem_singleton.mp hd
      cases waits
    · rw [e]
      exact .inl ⟨rfl, fun d hd => absurd hd List.not_mem_nil⟩
    · rw [e]
      exact .inl ⟨rfl, fun d hd => absurd hd List.not_mem_nil⟩
    · rw [e]
      dsimp only
      split
      next => exact .inl ⟨rfl, fun d hd => absurd hd List.not_mem_nil⟩
      next =>
        refine .inr ⟨idle, may, ?_⟩
        cases kicked : c.kick runtime with
        | mk c' loop =>
            cases loop with
            | false => exact ⟨rfl, fun d hd => absurd hd List.not_mem_nil⟩
            | true =>
                refine ⟨rfl, fun _ _ _ => ?_⟩
                rw [Controller.kick, if_neg (by simp [idle]), if_neg (by simp [may])] at kicked
                obtain ⟨rfl, rfl⟩ := Prod.mk.inj kicked
                rfl

/-- A controller with its save loops and the calls that wait for its record to be
saved. -/
structure Lobby (τ : Type) where
  engine : Engine τ
  calls : List Drain

namespace Lobby

def start (r : Record τ) : Lobby τ := ⟨.start r, []⟩

/-- A call waits for the latch. -/
def Waits (x : Lobby τ) : Prop := ∃ call ∈ x.calls, call.waiting = true

/-- A call waits for the latch to be settled, and there is no loop that settles it and no
batch at whose end one is started. -/
structure Stranded (x : Lobby τ) : Prop where
  waits : x.Waits
  idle : x.engine.controller.running = false
  outside : x.engine.controller.batchDepth = 0
  clear : x.engine.controller.latch = .clear

/-- While a call waits and the latch is clear, a loop runs or a change is pending. -/
def Minded (x : Lobby τ) : Prop :=
  x.Waits → x.engine.controller.latch = .clear →
    x.engine.controller.running = true ∨ x.engine.controller.hasPending = true

variable [Catalog τ] {x y : Lobby τ}

/-- Someone takes a turn; a call is made, is polled, or is given up. -/
inductive Step : Lobby τ → Lobby τ → Prop
  | turn (x : Lobby τ) {e : Engine τ} : Engine.Turn x.engine e → Step x ⟨e, x.calls⟩
  | arrive (x : Lobby τ) : Step x ⟨x.engine, x.calls ++ [.fresh]⟩
  | poll (x : Lobby τ) (runtime : Bool) {before later : List Drain} {call : Drain} :
      x.calls = before ++ call :: later →
        Step x ⟨x.engine.after (call.poll runtime x.engine.controller).1,
          before ++ (call.poll runtime x.engine.controller).2.rest ++ later⟩
  | leave (x : Lobby τ) {before later : List Drain} {call : Drain} :
      x.calls = before ++ call :: later → Step x ⟨x.engine, before ++ later⟩

/-- A call on an idle controller leaves a change that calls for a loop, and there will be
none: saves are suppressed, or the call has no runtime. -/
structure Strands (x y : Lobby τ) : Prop where
  waits : y.Waits
  idle : x.engine.controller.running = false
  call : ∃ a : Controller.Call, y.engine = x.engine.after (a.run x.engine.controller) ∧
    a.Demands x.engine.controller ∧
    (x.engine.controller.suppressed = true ∨ a.runtime = false)

theorem Strands.stranded (h : Strands x y) : y.Stranded := by
  obtain ⟨waits, idle, a, e, demands, held⟩ := h
  obtain ⟨clear, outside, started⟩ := demands.run idle
  have same : y.engine.controller = a.run x.engine.controller := by
    rw [e]
    rfl
  refine ⟨waits, ?_, same ▸ outside, same ▸ clear⟩
  rw [same, ← Bool.not_eq_true, started]
  rintro ⟨free, supported⟩
  rcases held with suppressed | unsupported
  · exact absurd (free.symm.trans suppressed) Bool.false_ne_true
  · exact absurd (unsupported.symm.trans supported) Bool.false_ne_true

/-- A step leaves the controller alone, or is a turn; in either case no call begins to
wait unless a loop runs. -/
theorem Step.turns (hs : Step x y) :
    (y.engine = x.engine ∧ (y.Waits → x.Waits)) ∨
      Engine.Turn x.engine y.engine ∧
        (y.Waits → x.Waits ∨ y.engine.controller.running = true) := by
  cases hs with
  | turn turn => exact .inr ⟨turn, .inl⟩
  | arrive =>
      refine .inl ⟨rfl, ?_⟩
      rintro ⟨call, hc, waits⟩
      rcases List.mem_append.mp hc with hc | hc
      · exact ⟨call, hc, waits⟩
      · obtain rfl := List.mem_singleton.mp hc
        cases waits
  | leave calls =>
      refine .inl ⟨rfl, ?_⟩
      rintro ⟨call, hc, waits⟩
      refine ⟨call, ?_, waits⟩
      rw [calls]
      exact List.mem_append.mpr ((List.mem_append.mp hc).imp_right (List.mem_cons_of_mem _))
  | @poll runtime before later call calls =>
      have others : ∀ {rest : List Drain} {P : Prop},
          (∀ d ∈ rest, d.waiting = true → x.Waits ∨ P) →
          (∃ d ∈ before ++ rest ++ later, d.waiting = true) → x.Waits ∨ P := by
        rintro rest P own ⟨d, hd, waits⟩
        rcases List.mem_append.mp hd with hd | hd
        · rcases List.mem_append.mp hd with hd | hd
          · exact .inl ⟨d, by simp [calls, hd], waits⟩
          · exact own d hd waits
        · exact .inl ⟨d, by simp [calls, hd], waits⟩
      rcases call.poll_cases runtime x.engine.controller with e | ⟨e, rest⟩ |
        ⟨idle, may, e, rest⟩
      · rw [e]
        refine .inl ⟨?_, fun waits => ?_⟩
        · show x.engine.after x.engine.controller = x.engine
          rw [Engine.after, Bool.not_and_self]
          rfl
        · refine (others (P := False) (fun d hd own => .inl ⟨d, ?_, own⟩)
            waits).resolve_right id
          rw [calls, List.mem_singleton.mp hd]
          exact List.mem_append_right _ List.mem_cons_self
      · rw [e]
        refine .inr ⟨.call _ .look trivial, others (fun d hd waits => .inr ?_)⟩
        have busy := rest d hd waits
        show x.engine.controller.drainStep.1.running = true
        rw [Controller.drainStep, if_pos busy]
        exact busy
      · rw [e]
        exact .inr ⟨.call _ (.kick runtime) trivial,
          others (fun d hd waits => .inr (rest d hd waits))⟩

section Calls

variable {a : Controller.Call}

/-- A call that leaves a change which calls for a loop, and no loop, is one that strands
others. -/
theorem Stranded.of_demands (h : y.Stranded)
    (e : y.engine = x.engine.after (a.run x.engine.controller))
    (idle : x.engine.controller.running = false)
    (demands : a.Demands x.engine.controller) : Strands x y := by
  refine ⟨h.waits, idle, a, e, demands, ?_⟩
  have none : ¬ (a.run x.engine.controller).running = true := by
    have unstarted := h.idle
    rw [e] at unstarted
    simpa [Engine.after] using unstarted
  rw [(demands.run idle).2.2] at none
  cases held : x.engine.controller.suppressed with
  | true => exact .inl rfl
  | false => exact .inr (by simpa [held] using none)

/-- A call keeps the invariant, and strands no other call unless it is of the kind that
does. -/
theorem Minded.call (minded : x.Minded) (safe : ¬ x.Stranded)
    (e : y.engine = x.engine.after (a.run x.engine.controller))
    (left : a.Leaves x.engine.controller y.engine.controller)
    (kept : x.engine.controller.running = true → y.engine.controller.running = true)
    (before : y.Waits → x.Waits ∨ y.engine.controller.running = true) :
    y.Minded ∧ (y.Stranded → Strands x y) := by
  cases left with
  | noted _ pending _ signalled =>
      refine ⟨fun _ _ => .inr pending, fun stranded => ?_⟩
      refine stranded.of_demands e ?_ (.inl (signalled stranded.outside))
      rw [← Bool.not_eq_true]
      exact fun busy => absurd (stranded.idle.symm.trans (kept busy)) Bool.false_ne_true
  | restarted _ _ _ e' =>
      have busy : y.engine.controller.running = true := by rw [e']
      exact ⟨fun _ _ => .inl busy,
        fun stranded => absurd (stranded.idle.symm.trans busy) Bool.false_ne_true⟩
  | kept latch running _ changes pending outside =>
      -- A look that lowers the flag finds no call that waits for a clear latch.
      have waiting : y.Waits → y.engine.controller.latch = .clear →
          y.engine.controller.running = true ∨
            (x.engine.controller.running = false ∧ x.Waits ∧
              x.engine.controller.latch = .clear ∧
              x.engine.controller.hasPending = true) := by
        intro waits clear
        cases busy : y.engine.controller.running with
        | true => exact .inl rfl
        | false =>
            have before := (before waits).resolve_right (by simp [busy])
            have was := running.symm.trans busy
            have clear := latch.symm.trans clear
            exact .inr ⟨was, before, clear, (minded before clear).resolve_left (by simp [was])⟩
      refine ⟨fun waits clear => ?_, fun stranded => ?_⟩
      · refine (waiting waits clear).imp_right ?_
        rintro ⟨was, waits, clear, raised⟩
        rcases pending with same | ⟨-, outside, -⟩
        · rw [Controller.hasPending, same, changes]
          exact raised
        · exact absurd ⟨waits, was, outside, clear⟩ safe
      · obtain ⟨was, waits, clear, noted⟩ :=
          (waiting stranded.waits stranded.clear).resolve_left (by simp [stranded.idle])
        rcases outside stranded.outside with outside | ⟨closes, outermost, unchanged⟩
        · exact absurd ⟨waits, was, outside, clear⟩ safe
        · have raised : x.engine.controller.pending = true := by
            simpa [Controller.hasPending, unchanged] using noted
          exact stranded.of_demands e was (.inr ⟨closes, outermost, unchanged, raised, clear⟩)

end Calls

/-- A step keeps the invariant, and strands no call unless it is of the kind that does. -/
theorem Step.strands (hs : Step x y) (attends : x.engine.Attends) (minded : x.Minded)
    (safe : ¬ x.Stranded) : y.Minded ∧ (y.Stranded → Strands x y) := by
  rcases hs.turns with ⟨same, before⟩ | ⟨turn, before⟩
  · refine ⟨fun waits => ?_, fun stranded => absurd ?_ safe⟩
    · rw [same]
      exact minded (before waits)
    · exact ⟨before stranded.waits, same ▸ stranded.idle, same ▸ stranded.outside,
        same ▸ stranded.clear⟩
  · cases attends.turned turn with
    | called a _ e left kept => exact minded.call safe e left kept before
    | goesOn _ busy =>
        exact ⟨fun _ _ => .inl busy,
          fun stranded => absurd (stranded.idle.symm.trans busy) Bool.false_ne_true⟩
    | ended _ _ ended =>
        rcases ended.settled_or_held with settled | ⟨pending, inside⟩
        · exact ⟨fun _ clear => absurd clear settled,
            fun stranded => absurd stranded.clear settled⟩
        · exact ⟨fun _ _ => .inr pending,
            fun stranded => absurd stranded.outside (Nat.ne_of_gt inside)⟩

theorem Step.attends (hs : Step x y) (attends : x.engine.Attends) : y.engine.Attends := by
  rcases hs.turns with ⟨same, -⟩ | ⟨turn, -⟩
  · rwa [same]
  · exact attends.turn turn

/-- In whatever order turns are taken and calls are made, polled and given up: up to any
moment no call is stranded iff no call on an idle controller left a change that calls for
a loop, while another waited, and started none because saves were suppressed or it had no
runtime. -/
theorem stranded_iff {r₀ : Record τ} {trace : ℕ → Lobby τ} {type : τ}
    {attempts : List Delta} (h : Behaviour Step (start r₀) trace)
    (made : Record.Reachable type r₀ attempts) (n : ℕ) :
    (∀ m, m ≤ n → ¬ (trace m).Stranded) ↔ ∀ m, m < n →
      ¬ Strands (trace m) (trace (m + 1)) := by
  refine ⟨fun safe m hm strands => safe (m + 1) hm strands.stranded, fun never => ?_⟩
  have holds : ∀ m, m ≤ n →
      (trace m).engine.Attends ∧ (trace m).Minded ∧ ¬ (trace m).Stranded := by
    intro m
    induction m with
    | zero =>
        intro _
        rw [h.start]
        have none : ¬ (start r₀).Waits := by
          rintro ⟨_, hc, -⟩
          exact List.not_mem_nil hc
        exact ⟨.start made.sound.1, fun waits => absurd waits none,
          fun stranded => none stranded.waits⟩
    | succ m ih =>
        intro hm
        obtain ⟨attends, minded, safe⟩ := ih (by omega)
        rcases h.same_or_step m with same | hs
        · rw [same]
          exact ⟨attends, minded, safe⟩
        · obtain ⟨minded', strands⟩ := hs.strands attends minded safe
          exact ⟨hs.attends attends, minded',
            fun stranded => never m (by omega) (strands stranded)⟩
  exact fun m hm => (holds m hm).2.2

/-- A call waits for a tag to be saved.  The tag is written again in a batch before the
answer comes, so the loop stops for the batch; and saves are suppressed before the batch
is closed. -/
theorem exists_stranded :
    ∃ x : Lobby Entity, Relation.ReflTransGen Step (start (.blank .task 1)) x ∧
      x.Stranded ∧ x.calls = [⟨false, true⟩] ∧
        (Drain.fresh.poll true x.engine.controller).2 = .finished false := by
  have resumed := Relation.ReflTransGen.single
    (Step.turn (start (.blank Entity.task 1)) (.call _ (.resume true) trivial))
  have written :=
    resumed.tail (.turn _ (.call _ (.update true [.write "tag" (.text "a")]) trivial))
  have sent := written.tail (.turn _ (@Engine.Turn.begin _ _ _ [] [] rfl))
  have polled := (sent.tail (.arrive _)).tail (@Step.poll _ _ _ true [] [] _ rfl)
  have opened := polled.tail (.turn _ (.call _ .openBatch trivial))
  have again :=
    opened.tail (.turn _ (.call _ (.update true [.write "tag" (.text "b")]) trivial))
  have taken := again.tail (.turn _ (@Engine.Turn.answer _ _ _ [] [] _ _ _ true rfl))
  have stopped := taken.tail (.turn _ (@Engine.Turn.finish _ _ _ [] [] _ _ _ rfl))
  have suppressed := stopped.tail (.turn _ (.call _ .suppress trivial))
  have closed := suppressed.tail (.turn _ (.call _ (.closeBatch true) Nat.one_pos))
  exact ⟨_, closed, ⟨⟨⟨false, true⟩, List.mem_singleton_self _, rfl⟩, rfl, rfl, rfl⟩, rfl, rfl⟩

/-- The step that strands the call is found again in a behaviour that comes to such a
state. -/
theorem stranded_iff_of_tag :
    ∃ trace, Behaviour Step (start (.blank Entity.task 1)) trace ∧
      ∃ m, Strands (trace m) (trace (m + 1)) := by
  obtain ⟨x, reached, stranded, -⟩ := exists_stranded
  obtain ⟨trace, n, behaviour, ended⟩ := exists_behaviour reached
  refine ⟨trace, behaviour, ?_⟩
  by_contra none
  have safe := (stranded_iff behaviour (.blank 1) n).mpr (fun m _ strands => none ⟨m, strands⟩)
  exact safe n le_rfl (by rw [ended n le_rfl]; exact stranded)

/-- Saves are suppressed, no loop runs and no batch is open: a call that is made now is
told so at once, and the call that waits is not. -/
theorem waiting_call_is_stranded :
    ∃ x : Lobby Entity, Relation.ReflTransGen Step (start (.blank .task 1)) x ∧
      x.Stranded ∧ (Drain.fresh.poll true x.engine.controller).2 = .finished false ∧
      x.calls ≠ [] ∧
        ∀ call ∈ x.calls, call.poll true x.engine.controller =
          (x.engine.controller, .suspended call) := by
  obtain ⟨x, reached, stranded, calls, answered⟩ := exists_stranded
  refine ⟨x, reached, stranded, answered, by simp [calls], fun call hc => ?_⟩
  rw [calls, List.mem_singleton] at hc
  subst hc
  simp [Drain.poll, Latch.isSettled, stranded.clear]

end Lobby

end RecordSync
