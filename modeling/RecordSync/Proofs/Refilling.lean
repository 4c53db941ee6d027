import Mathlib.Data.Int.Range
import RecordSync.Proofs.Allocation

/-!
# Pools over any source

A pool is refilled from a source of which nothing is known.  It may answer with any range,
also one that is empty or reversed, that lies below zero, or that it gave before, and it
may fail for any reason.  The calls at the desk of the pool take turns in refilling it as
they do over a server.

A range is taken over if it is not empty and lies above all that was taken over before;
otherwise the call fails, and the pool stays as it was.

**Account.**  What was issued, followed by what is left in the pool, is what was taken
over, in order.  A call asks for a range only while nothing is left, and nothing comes
into the pool meanwhile, so no id is lost when a range is taken over.

**Results.**
* `IdPool.install_cases`: which ranges are taken over.
* `Supply.Holds.turn`: each turn keeps the account.
* `Supply.Reachable.ids_accounted`: ids are issued in increasing order and none is lost,
  the source is asked only while the pool is empty, and a call that fails leaves the pool
  as it was.
* `Supply.allocates`: a call that is let alone does what `IdPool.allocate` does.
-/

namespace RecordSync

section Ranges

theorem range_of_le {start stop : Int} (h : stop ≤ start) :
    Int.range start stop = [] := by
  have none : (stop - start).toNat = 0 := by omega
  simp [Int.range, none]

theorem range_of_lt {start stop : Int} (h : start < stop) :
    Int.range start stop = start :: Int.range (start + 1) stop := by
  have more : (stop - start).toNat = (stop - (start + 1)).toNat + 1 := by omega
  simp only [Int.range, more, List.range_succ_eq_map, List.map_cons, List.map_map]
  congr 1
  · simp
  · apply List.map_congr_left
    intro n _
    simp
    omega

theorem pairwise_range (start stop : Int) : (Int.range start stop).Pairwise (· < ·) := by
  rw [Int.range, List.pairwise_map]
  exact List.pairwise_lt_range.imp (by omega)

end Ranges

namespace IdPool

variable {p : IdPool}

/-- The ids that are left, in the order in which they are handed out. -/
def left (p : IdPool) : List Int := Int.range p.next p.stop

theorem length_left (p : IdPool) : p.left.length = p.available := by
  simp [left, Int.range, available]

theorem take_eq_none_iff : p.take = none ↔ p.left = [] := by
  rw [take, left]
  split
  next more => simp [range_of_lt more]
  next none => simp [range_of_le (not_lt.mp none)]

/-- An id is taken from the front. -/
theorem left_of_take {id : Int} {pool : IdPool} (h : p.take = some (id, pool)) :
    p.left = id :: pool.left ∧ pool.highWater = p.highWater := by
  obtain ⟨rfl, more, rfl⟩ := take_eq_some.mp h
  exact ⟨range_of_lt more, rfl⟩

/-- A range is taken over iff it is not empty and lies above all that was taken over
before. -/
theorem install_cases (p : IdPool) (start stop : Int) :
    (start < stop ∧ p.highWater ≤ start ∧ p.install start stop = .ok ⟨start, stop, stop⟩) ∨
    (stop ≤ start ∧ p.install start stop = .error .emptyRange) ∨
    (start < stop ∧ start < p.highWater ∧
      p.install start stop = .error (.overlap start stop)) := by
  rw [install]
  split_ifs with empty overlapping
  · exact .inr (.inl ⟨empty, rfl⟩)
  · exact .inr (.inr ⟨by omega, overlapping, rfl⟩)
  · exact .inl ⟨by omega, by omega, rfl⟩

/-- Any other range leaves the pool as it was. -/
theorem refill_of_error {start stop : Int} {e : IdError}
    (h : p.install start stop = .error e) : p.refill start stop = (.error e, p) := by
  rw [refill, h]

end IdPool

/-- The call has asked for a range, or is about to, or was given one. -/
def IdCall.reserves : IdCall → Bool
  | arrived | queued | admitted => false
  | asking | granted _ _ => true

/-- A desk over any source, with the ranges that its pool took over, the first one
first. -/
structure Supply where
  desk : Desk
  accepted : List (Int × Int)

namespace Supply

def opened (batch : Nat) : Supply := ⟨.opened batch, []⟩

/-- The ranges that were taken over once the pool is refilled with a range. -/
def acceptedWith (x : Supply) (start stop : Int) : List (Int × Int) :=
  match x.desk.pool.install start stop with
  | .ok _ => x.accepted ++ [(start, stop)]
  | .error _ => x.accepted

/-- What happens at a desk whose source may answer anything. -/
inductive Turn : Supply → Supply → Prop
  /-- Someone takes an id without waiting for one. -/
  | take (x : Supply) {id : Int} {pool : IdPool} :
      x.desk.pool.take = some (id, pool) →
        Turn x ⟨x.desk.ended pool x.desk.calls (.ok id), x.accepted⟩
  | arrive (x : Supply) :
      Turn x ⟨{ x.desk with calls := x.desk.calls ++ [.arrived] }, x.accepted⟩
  | look (x : Supply) {before later : List IdCall} :
      x.desk.calls = before ++ .arrived :: later →
        Turn x ⟨x.desk.looked before .queued later, x.accepted⟩
  | enter (x : Supply) {before later : List IdCall} :
      x.desk.calls = before ++ .queued :: later →
      (∀ c ∈ x.desk.calls, c.refills = false) →
        Turn x ⟨{ x.desk with calls := before ++ .admitted :: later }, x.accepted⟩
  | lookAgain (x : Supply) {before later : List IdCall} :
      x.desk.calls = before ++ .admitted :: later →
        Turn x ⟨x.desk.looked before .asking later, x.accepted⟩
  /-- The source answers with some range. -/
  | answer (x : Supply) {before later : List IdCall} (start stop : Int) :
      x.desk.calls = before ++ .asking :: later →
        Turn x ⟨{ x.desk with calls := before ++ .granted start stop :: later }, x.accepted⟩
  /-- The source fails for some reason. -/
  | refuse (x : Supply) {before later : List IdCall} (e : IdError) :
      x.desk.calls = before ++ .asking :: later →
        Turn x ⟨x.desk.ended x.desk.pool (before ++ later) (.error e), x.accepted⟩
  | refill (x : Supply) {before later : List IdCall} {start stop : Int} :
      x.desk.calls = before ++ .granted start stop :: later →
        Turn x ⟨x.desk.ended (x.desk.pool.refill start stop).2 (before ++ later)
          (x.desk.pool.refill start stop).1, x.acceptedWith start stop⟩
  /-- A call is given up. -/
  | leave (x : Supply) {before later : List IdCall} {c : IdCall} :
      x.desk.calls = before ++ c :: later →
        Turn x ⟨{ x.desk with calls := before ++ later }, x.accepted⟩

/-- What can come of a desk that was just opened. -/
def Reachable (batch : Nat) (x : Supply) : Prop :=
  Relation.ReflTransGen Turn (opened batch) x

variable {x y : Supply} {batch : Nat} {before later : List IdCall}

/-- What holds of a desk and the ranges that its pool took over. -/
structure Holds (x : Supply) : Prop where
  /-- What was issued and what is left is what was taken over. -/
  account : x.desk.issued ++ x.desk.pool.left =
    x.accepted.flatMap (fun r => Int.range r.1 r.2)
  below : ∀ r ∈ x.accepted, r.2 ≤ x.desk.pool.highWater
  rising : x.accepted.Pairwise (fun r r' => r.2 ≤ r'.1)
  /-- The calls take turns in refilling the pool. -/
  turns : x.desk.calls.countP IdCall.refills ≤ 1
  /-- Nothing is left while a call reserves a range. -/
  dry : ∀ c ∈ x.desk.calls, c.reserves = true → x.desk.pool.left = []

theorem holds_opened (batch : Nat) : (opened batch).Holds where
  account := rfl
  below := by simp [opened]
  rising := List.Pairwise.nil
  turns := Nat.zero_le 1
  dry := by simp [opened, Desk.opened]

/-- Calls may leave or go on to another stage, as long as not two refill the pool and none
reserves a range while something is left. -/
theorem Holds.withCalls (h : x.Holds) {calls : List IdCall}
    (turns : calls.countP IdCall.refills ≤ 1)
    (dry : ∀ c ∈ calls, c.reserves = true → c ∈ x.desk.calls ∨ x.desk.pool.left = []) :
    Holds ⟨{ x.desk with calls := calls }, x.accepted⟩ :=
  { h with
    turns := turns
    dry := fun c hc reserves => (dry c hc reserves).elim (fun hc => h.dry c hc reserves) id }

/-- The calls beside one of them leave room for its turn. -/
theorem Holds.beside {c : IdCall} (h : x.Holds)
    (calls : x.desk.calls = before ++ c :: later) :
    (∀ c ∈ before ++ later, c ∈ x.desk.calls) ∧
      (before ++ later).countP IdCall.refills + c.refills.toNat ≤ 1 := by
  constructor
  · intro c hc
    rw [calls]
    exact List.mem_append.mpr ((List.mem_append.mp hc).imp_right (List.mem_cons_of_mem _))
  · rw [← IdCall.countP_refills, ← calls]
    exact h.turns

/-- A call that ends leaves the others as they were. -/
theorem Holds.without {c : IdCall} (h : x.Holds)
    (calls : x.desk.calls = before ++ c :: later) :
    Holds ⟨{ x.desk with calls := before ++ later }, x.accepted⟩ := by
  obtain ⟨others, turns⟩ := h.beside calls
  exact h.withCalls (by omega) (fun c hc _ => .inl (others c hc))

/-- An id may be issued while no call reserves a range, and then it is the first one that
is left. -/
theorem Holds.issue (h : x.Holds) {id : Int} {pool : IdPool}
    (taken : x.desk.pool.take = some (id, pool)) :
    Holds ⟨x.desk.ended pool x.desk.calls (.ok id), x.accepted⟩ := by
  obtain ⟨first, water⟩ := IdPool.left_of_take taken
  refine ⟨?_, fun r hr => water ▸ h.below r hr, h.rising, h.turns, fun c hc reserves => ?_⟩
  · show (x.desk.issued ++ [id]) ++ pool.left = _
    rw [List.append_assoc, ← h.account, first]
    rfl
  · rw [h.dry c hc reserves] at first
    cases first

/-- A call that looks at the pool ends with an id, or goes on because nothing is left. -/
theorem Holds.looked (h : x.Holds) {c otherwise : IdCall}
    (calls : x.desk.calls = before ++ c :: later) (same : otherwise.refills = c.refills) :
    Holds ⟨x.desk.looked before otherwise later, x.accepted⟩ := by
  rw [Desk.looked]
  split
  next id pool taken => exact (h.without calls).issue taken
  next none =>
    have empty := IdPool.take_eq_none_iff.mp none
    refine h.withCalls ?_ (fun _ _ _ => .inr empty)
    rw [IdCall.countP_refills, same]
    exact (h.beside calls).2

/-- A range that fits is taken over in full, its first id at once: nothing was left, since
the call that was given it reserved it. -/
theorem Holds.accept (h : x.Holds) {start stop : Int} (inhabited : start < stop)
    (above : x.desk.pool.highWater ≤ start)
    (calls : x.desk.calls = before ++ .granted start stop :: later) :
    Holds ⟨x.desk.ended ⟨start + 1, stop, stop⟩ (before ++ later) (.ok start),
      x.accepted ++ [(start, stop)]⟩ := by
  have empty := h.dry (.granted start stop) (by simp [calls]) rfl
  have account := h.account
  rw [empty, List.append_nil] at account
  constructor
  · show (x.desk.issued ++ [start]) ++ Int.range (start + 1) stop = _
    simp [account, range_of_lt inhabited]
  · intro r hr
    show r.2 ≤ stop
    rcases List.mem_append.mp hr with hr | hr
    · have := h.below r hr
      omega
    · simp [List.mem_singleton.mp hr]
  · refine List.pairwise_append.mpr ⟨h.rising, List.pairwise_singleton _ _,
      fun r hr r' hr' => ?_⟩
    have := h.below r hr
    rw [List.mem_singleton.mp hr']
    show r.2 ≤ start
    omega
  · exact (h.without calls).turns
  · intro c hc reserves
    have turns := (h.beside calls).2
    have another : 0 < (before ++ later).countP IdCall.refills :=
      List.countP_pos_iff.mpr
        ⟨c, hc, by cases c <;> simp_all [IdCall.reserves, IdCall.refills]⟩
    simp only [IdCall.refills, Bool.toNat_true] at turns
    omega

/-- The call whose turn it is takes over the range that it was given, or fails. -/
theorem Holds.refill (h : x.Holds) {start stop : Int}
    (calls : x.desk.calls = before ++ .granted start stop :: later) :
    Holds ⟨x.desk.ended (x.desk.pool.refill start stop).2 (before ++ later)
      (x.desk.pool.refill start stop).1, x.acceptedWith start stop⟩ := by
  rcases x.desk.pool.install_cases start stop with ⟨inhabited, above, e⟩ |
    ⟨-, e⟩ | ⟨-, -, e⟩
  · rw [IdPool.refill_of_above above inhabited, acceptedWith, e]
    exact h.accept inhabited above calls
  · rw [IdPool.refill_of_error e, acceptedWith, e]
    exact { h.without calls with }
  · rw [IdPool.refill_of_error e, acceptedWith, e]
    exact { h.without calls with }

/-- Each turn keeps the account. -/
theorem Holds.turn (h : x.Holds) (turn : Turn x y) : y.Holds := by
  cases turn with
  | take taken => exact h.issue taken
  | arrive =>
      refine h.withCalls ?_ (fun c hc reserves => .inl ?_)
      · simpa [List.countP_append, IdCall.refills] using h.turns
      · rcases List.mem_append.mp hc with hc | hc
        · exact hc
        · rw [List.mem_singleton.mp hc] at reserves
          cases reserves
  | look calls => exact h.looked calls rfl
  | @enter before later calls free =>
      have others := (h.beside calls).1
      have none : (before ++ later).countP IdCall.refills = 0 := by
        rw [List.countP_eq_zero]
        exact fun c hc => by simp [free c (others c hc)]
      refine h.withCalls ?_ (fun c hc reserves => .inl ?_)
      · rw [IdCall.countP_refills, none]
        exact le_rfl
      · rcases List.mem_append.mp hc with hc | hc
        · exact others c (List.mem_append_left _ hc)
        · rcases List.mem_cons.mp hc with rfl | hc
          · cases reserves
          · exact others c (List.mem_append_right _ hc)
  | lookAgain calls => exact h.looked calls rfl
  | answer start stop calls =>
      have empty := h.dry .asking (by simp [calls]) rfl
      refine h.withCalls ?_ (fun _ _ _ => .inr empty)
      rw [IdCall.countP_refills]
      exact (h.beside calls).2
  | refuse e calls => exact { h.without calls with }
  | refill calls => exact h.refill calls
  | leave calls => exact h.without calls

theorem Reachable.holds (h : Reachable batch x) : x.Holds := by
  induction h with
  | refl => exact holds_opened batch
  | tail _ turn ih => exact ih.turn turn

/-- A turn issues an id and no call fails, or it leaves the pool as it was and no range is
taken over. -/
theorem Turn.issues_or_keeps (turn : Turn x y) :
    ((∃ id, y.desk.issued = x.desk.issued ++ [id]) ∧ y.desk.failed = x.desk.failed) ∨
    (y.desk.pool = x.desk.pool ∧ y.desk.issued = x.desk.issued ∧ y.accepted = x.accepted) := by
  have looked : ∀ {before later otherwise},
      ((∃ id, (x.desk.looked before otherwise later).issued = x.desk.issued ++ [id]) ∧
        (x.desk.looked before otherwise later).failed = x.desk.failed) ∨
      ((x.desk.looked before otherwise later).pool = x.desk.pool ∧
        (x.desk.looked before otherwise later).issued = x.desk.issued ∧
        x.accepted = x.accepted) := by
    intro before later otherwise
    rw [Desk.looked]
    split
    next id _ _ => exact .inl ⟨⟨id, rfl⟩, rfl⟩
    next => exact .inr ⟨rfl, rfl, rfl⟩
  cases turn with
  | @take id => exact .inl ⟨⟨id, rfl⟩, rfl⟩
  | look => exact looked
  | lookAgain => exact looked
  | @refill _ _ start stop =>
      rcases x.desk.pool.install_cases start stop with ⟨inhabited, above, e⟩ |
        ⟨-, e⟩ | ⟨-, -, e⟩
      · rw [IdPool.refill_of_above above inhabited]
        exact .inl ⟨⟨start, rfl⟩, rfl⟩
      · rw [IdPool.refill_of_error e, acceptedWith, e]
        exact .inr ⟨rfl, rfl, rfl⟩
      · rw [IdPool.refill_of_error e, acceptedWith, e]
        exact .inr ⟨rfl, rfl, rfl⟩
  | arrive => simp
  | enter => simp
  | answer => simp
  | refuse => simp [Desk.ended]
  | leave => simp

/-- Ranges that rise one above the other hold their ids in increasing order. -/
theorem pairwise_flatMap_range {ranges : List (Int × Int)}
    (rising : ranges.Pairwise (fun r r' => r.2 ≤ r'.1)) :
    (ranges.flatMap (fun r => Int.range r.1 r.2)).Pairwise (· < ·) := by
  rw [List.pairwise_flatMap]
  refine ⟨fun r _ => pairwise_range r.1 r.2, rising.imp ?_⟩
  intro r r' above id hid id' hid'
  have low := (Int.mem_range_iff.mp hid).2
  have high := (Int.mem_range_iff.mp hid').1
  omega

/-- A call that is let alone, while no other refills the pool, does what `IdPool.allocate`
does with any source. -/
theorem allocates {σ : Type} (reserve : Nat → σ → Except IdError (Int × Int) × σ)
    (source : σ) (x : Supply) (free : ∀ c ∈ x.desk.calls, c.refills = false) :
    ∃ y, Relation.ReflTransGen Turn x y ∧
      y.desk = x.desk.ended (x.desk.pool.allocate reserve x.desk.batch source).2.1 x.desk.calls
        (x.desk.pool.allocate reserve x.desk.batch source).1 := by
  obtain ⟨⟨pool, batch, calls, issued, failed⟩, accepted⟩ := x
  have arrived := Relation.ReflTransGen.single
    (Turn.arrive ⟨⟨pool, batch, calls, issued, failed⟩, accepted⟩)
  have seen := arrived.tail (@Turn.look _ calls [] rfl)
  rw [IdPool.allocate]
  cases taken : pool.take with
  | some found =>
      refine ⟨_, seen, ?_⟩
      simp [Desk.looked, taken, Desk.ended]
  | none =>
      simp only [Desk.looked, taken] at seen
      have admitted := seen.tail (@Turn.enter _ calls [] rfl
        (by simpa [or_imp, forall_and, IdCall.refills] using free))
      have again := admitted.tail (@Turn.lookAgain _ calls [] rfl)
      simp only [Desk.looked, taken] at again
      rcases answered : reserve (max batch 1) source with ⟨answer, source'⟩
      dsimp only
      cases answer with
      | error e =>
          refine ⟨_, again.tail (@Turn.refuse _ calls [] e rfl), ?_⟩
          simp [Desk.ended]
      | ok range =>
          obtain ⟨start, stop⟩ := range
          refine ⟨_, (again.tail (@Turn.answer _ calls [] start stop rfl)).tail
            (@Turn.refill _ calls [] start stop rfl), ?_⟩
          dsimp only [IdPool.refill]
          cases installed : pool.install start stop with
          | error e => simp [Desk.ended]
          | ok filled =>
              cases first : filled.take with
              | none => simp [first, Desk.ended]
              | some found => simp [first, Desk.ended]

/-- Whatever the source answers, however many calls are under way and in whatever order
they go on: what was issued, followed by what is left in the pool, is what was taken over,
in order; ids are issued in increasing order; while a call reserves a range nothing is
left in the pool; and a turn in which no id is issued, such as one in which a call fails,
leaves the pool and the ranges that were taken over as they were. -/
theorem Reachable.ids_accounted (h : Reachable batch x) :
    x.desk.issued ++ x.desk.pool.left = x.accepted.flatMap (fun r => Int.range r.1 r.2) ∧
    x.desk.issued.Pairwise (· < ·) ∧ x.desk.issued.Nodup ∧
    (∀ c ∈ x.desk.calls, c.reserves = true → x.desk.pool.available = 0) ∧
    ∀ y, Turn x y →
      ((∃ id, y.desk.issued = x.desk.issued ++ [id]) ∧ y.desk.failed = x.desk.failed) ∨
      (y.desk.pool = x.desk.pool ∧ y.desk.issued = x.desk.issued ∧
        y.accepted = x.accepted) := by
  have holds := h.holds
  have increasing : x.desk.issued.Pairwise (· < ·) := by
    have all := pairwise_flatMap_range holds.rising
    rw [← holds.account] at all
    exact (List.pairwise_append.mp all).1
  refine ⟨holds.account, increasing, increasing.imp ne_of_lt, fun c hc reserves => ?_,
    fun y turn => turn.issues_or_keeps⟩
  rw [← IdPool.length_left, holds.dry c hc reserves]
  rfl

/-- Two calls find the pool empty.  The first is given ten and eleven, and the other gets
its id from them; the next call is given a range that begins with eleven again, and
fails. -/
theorem ids_accounted_of_overlapping_range :
    ∃ x, Reachable 2 x ∧ x.desk.failed = [.overlap 11 13] ∧ x.accepted = [(10, 12)] ∧
      x.desk.issued ++ x.desk.pool.left =
        x.accepted.flatMap (fun r => Int.range r.1 r.2) := by
  have waiting : Reachable 2 ⟨⟨.empty, 2, [.queued, .queued], [], []⟩, []⟩ :=
    (((Relation.ReflTransGen.single (.arrive _)).tail (.arrive _)).tail
      (@Turn.look _ [] [.arrived] rfl)).tail (@Turn.look _ [.queued] [] rfl)
  have granted : Reachable 2 ⟨⟨.empty, 2, [.granted 10 12, .queued], [], []⟩, []⟩ :=
    ((waiting.tail (@Turn.enter _ [] [.queued] rfl (by decide))).tail
      (@Turn.lookAgain _ [] [.queued] rfl)).tail (@Turn.answer _ [] [.queued] 10 12 rfl)
  have shared : Reachable 2 ⟨⟨⟨12, 12, 12⟩, 2, [], [10, 11], []⟩, [(10, 12)]⟩ :=
    ((granted.tail (@Turn.refill _ [] [.queued] 10 12 rfl)).tail
      (@Turn.enter _ [] [] rfl (by decide))).tail (@Turn.lookAgain _ [] [] rfl)
  have refused :
      Reachable 2 ⟨⟨⟨12, 12, 12⟩, 2, [], [10, 11], [.overlap 11 13]⟩, [(10, 12)]⟩ :=
    (((((shared.tail (.arrive _)).tail (@Turn.look _ [] [] rfl)).tail
      (@Turn.enter _ [] [] rfl (by decide))).tail (@Turn.lookAgain _ [] [] rfl)).tail
      (@Turn.answer _ [] [] 11 13 rfl)).tail (@Turn.refill _ [] [] 11 13 rfl)
  exact ⟨_, refused, rfl, rfl, refused.ids_accounted.1⟩

end Supply
end RecordSync
