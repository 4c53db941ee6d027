import Mathlib.Data.List.Nodup
import Mathlib.Logic.Relation
import RecordSync.Proofs.Store.Contents
import RecordSync.Server

/-!
# Ids are handed out once

Clients take ids from pools, which they refill from one server.  Several calls may be
under way on one pool.  A call looks at the pool first; if the pool is empty it queues for
its turn to refill it, looks again, asks the server for a range, and takes over the range
together with the first id of it.  Others may take from the pool between any two of these
steps, and a call may be given up at any of them.

A desk is a pool with the calls that are under way on it.  A client that starts anew opens
another desk; the old one is not heard of any more.  The server also answers patches and
reserves ranges for others, and it may be started anew over the same store.

**Invariant.**  What a desk has issued lies below what is left in its pool, and that below
the range that one of its calls was granted, of which there is at most one.  No id belongs
to two desks, and every id that belongs to one lies below the counter of the store.

**Results.**
* `Desk.allocates`: a call that is let alone does what `IdPool.allocate` does.
* `Registry.Holds.step`: each step keeps the invariant.
* `Registry.Reachable.ids_unique`: no id is issued twice, each desk issues its ids in
  increasing order, and a call fails only if the server did.
-/

namespace RecordSync

/-- A call that takes an id, by where it stands. -/
inductive IdCall
  /-- It is about to look at the pool. -/
  | arrived
  /-- The pool was empty; the call waits for its turn to refill it. -/
  | queued
  /-- It is the call's turn; it is about to look again. -/
  | admitted
  /-- The pool was empty again; the call is about to ask for a range. -/
  | asking
  /-- The call was given a range, and is about to take it over. -/
  | granted (start stop : Int)
deriving DecidableEq, Repr

namespace IdCall

/-- It is the turn of the call to refill the pool. -/
def refills : IdCall → Bool
  | arrived | queued => false
  | admitted | asking | granted _ _ => true

/-- The calls that refill the pool are counted one by one. -/
theorem countP_refills (before later : List IdCall) (c : IdCall) :
    (before ++ c :: later).countP refills =
      (before ++ later).countP refills + c.refills.toNat := by
  rw [List.countP_append, List.countP_append, List.countP_cons, Nat.add_assoc]
  cases c.refills <;> rfl

end IdCall

/-- Takes over a range and hands out the first id of it. -/
def IdPool.refill (p : IdPool) (start stop : Int) : Except IdError Int × IdPool :=
  match p.install start stop with
  | .error e => (.error e, p)
  | .ok filled =>
    match filled.take with
    | some (id, filled) => (.ok id, filled)
    | none => (.error .emptyRange, filled)

/-- A pool of ids with the calls that are under way on it. -/
structure Desk where
  pool : IdPool
  /-- The number of ids that are reserved at a time. -/
  batch : Nat
  calls : List IdCall
  /-- The ids that were handed out, the first one first. -/
  issued : List Int
  /-- Why calls ended without an id. -/
  failed : List IdError

namespace Desk

def opened (batch : Nat) : Desk := ⟨.empty, batch, [], [], []⟩

/-- The desk after one of its calls has ended. -/
def ended (d : Desk) (pool : IdPool) (calls : List IdCall) : Except IdError Int → Desk
  | .ok id => { d with pool := pool, calls := calls, issued := d.issued ++ [id] }
  | .error e => { d with pool := pool, calls := calls, failed := d.failed ++ [e] }

/-- A call looks at the pool, and ends if there is an id; otherwise it goes on to another
stage. -/
def looked (d : Desk) (before : List IdCall) (otherwise : IdCall) (later : List IdCall) :
    Desk :=
  match d.pool.take with
  | some (id, pool) => d.ended pool (before ++ later) (.ok id)
  | none => { d with calls := before ++ otherwise :: later }

/-- What happens at a desk, and to the server with it. -/
inductive Turn : Server × Desk → Server × Desk → Prop
  /-- Someone takes an id without waiting for one. -/
  | take (s : Server) (d : Desk) {id : Int} {pool : IdPool} :
      d.pool.take = some (id, pool) → Turn (s, d) (s, d.ended pool d.calls (.ok id))
  | arrive (s : Server) (d : Desk) :
      Turn (s, d) (s, { d with calls := d.calls ++ [.arrived] })
  | look (s : Server) (d : Desk) {before later : List IdCall} :
      d.calls = before ++ .arrived :: later →
      Turn (s, d) (s, d.looked before .queued later)
  | enter (s : Server) (d : Desk) {before later : List IdCall} :
      d.calls = before ++ .queued :: later → (∀ c ∈ d.calls, c.refills = false) →
        Turn (s, d) (s, { d with calls := before ++ .admitted :: later })
  | lookAgain (s : Server) (d : Desk) {before later : List IdCall} :
      d.calls = before ++ .admitted :: later →
      Turn (s, d) (s, d.looked before .asking later)
  | ask (s : Server) (d : Desk) {before later : List IdCall} {start stop : Int}
      {s' : Server} :
      d.calls = before ++ .asking :: later →
        s.reserve (max d.batch 1) = (.ok (start, stop), s') →
          Turn (s, d) (s', { d with calls := before ++ .granted start stop :: later })
  /-- The server does not reserve a range. -/
  | refuse (s : Server) (d : Desk) {before later : List IdCall} (reason : String) :
      d.calls = before ++ .asking :: later →
        Turn (s, d) (s, d.ended d.pool (before ++ later) (.error (.source reason)))
  | refill (s : Server) (d : Desk) {before later : List IdCall} {start stop : Int} :
      d.calls = before ++ .granted start stop :: later →
        Turn (s, d) (s, d.ended (d.pool.refill start stop).2 (before ++ later)
          (d.pool.refill start stop).1)
  /-- A call is given up. -/
  | leave (s : Server) (d : Desk) {before later : List IdCall} {c : IdCall} :
      d.calls = before ++ c :: later →
      Turn (s, d) (s, { d with calls := before ++ later })

end Desk

/-- A server and the desks that take ids from it. -/
structure Registry where
  server : Server
  desks : List Desk

namespace Registry

/-- What happens next: a client opens a desk, something happens at one, or the server is
used for something else. -/
inductive Step : Registry → Registry → Prop
  | opens (x : Registry) (batch : Nat) : Step x ⟨x.server, x.desks ++ [.opened batch]⟩
  | turn (x : Registry) {before later : List Desk} {d d' : Desk} {s : Server} :
      x.desks = before ++ d :: later → Desk.Turn (x.server, d) (s, d') →
        Step x ⟨s, before ++ d' :: later⟩
  | reserve (x : Registry) (count : Nat) : Step x ⟨(x.server.reserve count).2, x.desks⟩
  | respond (x : Registry) (endpoint : String) (patch : Message) :
      Step x ⟨(x.server.respond endpoint patch).2, x.desks⟩
  /-- The server is started anew; its store lasts. -/
  | restart (x : Registry) :
      Step x ⟨{ Server.start x.server.store.digest with store := x.server.store }, x.desks⟩

/-- What can come of a server with an empty store. -/
def Reachable (digest : Bytes → Bytes) (x : Registry) : Prop :=
  Relation.ReflTransGen Step ⟨.start digest, []⟩ x

end Registry

section Counter

namespace Store

variable {s s' : Store} {p number : Nat} {set : String}

theorem nextId_ensure (s : Store) (p : Nat) (set : String) (id : Int) :
    (s.ensure p set id).1.nextId = s.nextId := by
  rw [ensure]
  split
  · split <;> rfl
  · rfl

theorem nextId_place {mayCreate : Bool} {id : Int} {position swapPosition : Option Int}
    {deleted : Option Bool} {found : Option Nat}
    (h : s.place p set mayCreate id position swapPosition deleted = .ok (s', found)) :
    s'.nextId = s.nextId := by
  have ensured := nextId_ensure s p set id
  unfold place at h
  grind [updateRow, update]

theorem nextId_writeFields (number : Nat) (fields : List (String × Value)) (s : Store) :
    (s.writeFields number fields).nextId = s.nextId := by
  induction fields generalizing s with
  | nil => rfl
  | cons x fields ih =>
      rw [writeFields, List.foldl_cons]
      refine (ih _).trans ?_
      obtain ⟨field, value⟩ := x
      cases value with
      | bytes content =>
          show (s.keep content).nextId = s.nextId
          rw [keep]
          split <;> rfl
      | null => rfl
      | text _ => rfl
      | integer _ => rfl
      | real _ => rfl
      | boolean _ => rfl

mutual

theorem nextId_applyRecord {m : Message} {s s' : Store} {p : Nat} {set : String}
    {mayCreate : Bool} (h : s.applyRecord p set mayCreate m = .ok s') :
    s'.nextId = s.nextId := by
  obtain ⟨id, fields, children, position, swapPosition, deleted⟩ := m
  rw [applyRecord] at h
  obtain ⟨⟨s₁, found⟩, placed, h⟩ := of_bind_eq_ok h
  have kept := nextId_place placed
  cases found with
  | none =>
      obtain rfl := Except.ok.inj h
      exact kept
  | some number =>
      exact ((nextId_applyGroups children h).trans
        (nextId_writeFields number fields s₁)).trans kept

theorem nextId_applyGroups {s s' : Store} {number : Nat} (groups : List Group)
    (h : s.applyGroups number groups = .ok s') : s'.nextId = s.nextId := by
  match groups with
  | [] =>
      rw [applyGroups] at h
      rw [Except.ok.inj h]
  | ⟨set, members⟩ :: rest =>
      rw [applyGroups] at h
      obtain ⟨s₁, inner, h⟩ := of_bind_eq_ok h
      obtain ⟨_, -, h⟩ := of_bind_eq_ok h
      exact (nextId_applyGroups rest h).trans (nextId_applyMembers members inner)

theorem nextId_applyMembers {s s' : Store} {number : Nat} {set : String}
    (members : List Message) (h : s.applyMembers number set members = .ok s') :
    s'.nextId = s.nextId := by
  match members with
  | [] =>
      rw [applyMembers] at h
      rw [Except.ok.inj h]
  | m :: rest =>
      rw [applyMembers] at h
      obtain ⟨s₁, inner, h⟩ := of_bind_eq_ok h
      exact (nextId_applyMembers rest h).trans (nextId_applyRecord inner)

end

end Store

namespace Server

variable {s : Server}

/-- No answer to a patch moves the counter of the store. -/
theorem nextId_respond (s : Server) (endpoint : String) (patch : Message) :
    (s.respond endpoint patch).2.store.nextId = s.store.nextId := by
  rw [respond]
  split
  · rfl
  · split
    · rfl
    next kind _ =>
      cases applied : s.store.apply kind patch with
      | ok store => exact Store.nextId_applyRecord applied
      | error _ => rfl

/-- A range that is reserved begins at the counter, which moves behind it. -/
theorem reserve_of_pos {count : Nat} (h : 0 < count) (s : Server) :
    s.reserve count = (.ok (s.store.nextId, s.store.nextId + count),
      { s with store := { s.store with nextId := s.store.nextId + count } }) := by
  rw [reserve, Store.reserve, if_neg (Nat.ne_of_gt h)]

theorem nextId_le_reserve (count : Nat) (s : Server) :
    s.store.nextId ≤ (s.reserve count).2.store.nextId := by
  rcases Nat.eq_zero_or_pos count with rfl | pos
  · exact le_rfl
  · rw [reserve_of_pos pos]
    exact Int.le_add_of_nonneg_right (Int.natCast_nonneg count)

end Server

end Counter

namespace IdPool

variable {p : IdPool}

theorem take_eq_some {id : Int} {pool : IdPool} :
    p.take = some (id, pool) ↔ id = p.next ∧ p.next < p.stop ∧
      pool = { p with next := p.next + 1 } := by
  rw [take]
  split <;> grind

/-- A range above all that was ever reserved is taken over, and its first id handed
out. -/
theorem refill_of_above {start stop : Int} (above : p.highWater ≤ start)
    (inhabited : start < stop) :
    p.refill start stop = (.ok start, ⟨start + 1, stop, stop⟩) := by
  rw [refill, install, if_neg (not_le.mpr inhabited), if_neg (not_lt.mpr above)]
  simp [take, inhabited]

end IdPool

namespace Desk

variable {s s' : Server} {d d' : Desk} {before later : List IdCall}

/-- The id belongs to the desk: it was issued, is in the pool, or is in a range that a
call was granted. -/
def Owns (d : Desk) (id : Int) : Prop :=
  id ∈ d.issued ∨ (d.pool.next ≤ id ∧ id < d.pool.stop) ∨
    ∃ start stop, .granted start stop ∈ d.calls ∧ start ≤ id ∧ id < stop

/-- What holds of a desk, given the counter of the store. -/
structure Holds (counter : Int) (d : Desk) : Prop where
  /-- Ids are issued in increasing order. -/
  increasing : d.issued.Pairwise (· < ·)
  below : ∀ id ∈ d.issued, id < d.pool.next
  pool : d.pool.next ≤ d.pool.stop
  water : d.pool.stop = d.pool.highWater
  counted : d.pool.highWater ≤ counter
  /-- A call that was granted a range can take it over. -/
  granted : ∀ start stop, .granted start stop ∈ d.calls →
    d.pool.highWater ≤ start ∧ start < stop ∧ stop ≤ counter
  /-- The calls take turns in refilling the pool. -/
  turns : d.calls.countP IdCall.refills ≤ 1
  /-- A call fails only if the server did. -/
  failed : ∀ e ∈ d.failed, ∃ reason, e = .source reason

theorem Holds.mono {counter counter' : Int} (h : d.Holds counter)
    (le : counter ≤ counter') : d.Holds counter' :=
  { h with
    counted := h.counted.trans le
    granted := fun start stop hc =>
      have ⟨above, inhabited, bound⟩ := h.granted start stop hc
      ⟨above, inhabited, bound.trans le⟩ }

theorem Holds.lt_of_owns {counter id : Int} (h : d.Holds counter) (owns : d.Owns id) :
    id < counter := by
  rcases owns with issued | ⟨-, lt⟩ | ⟨start, stop, hc, -, lt⟩
  · have := h.below id issued
    have := h.pool
    have := h.water
    have := h.counted
    omega
  · have := h.water
    have := h.counted
    omega
  · have := (h.granted start stop hc).2.2
    omega

theorem holds_opened (batch : Nat) {counter : Int} (h : 0 ≤ counter) :
    (opened batch).Holds counter where
  increasing := List.Pairwise.nil
  below := nofun
  pool := le_rfl
  water := rfl
  counted := h
  granted := nofun
  turns := Nat.zero_le 1
  failed := nofun

/-- Calls may leave or go on to a stage without a range, as long as not two refill the
pool. -/
theorem Holds.withCalls {counter : Int} (h : d.Holds counter) {calls : List IdCall}
    (granted : ∀ start stop, .granted start stop ∈ calls → .granted start stop ∈ d.calls)
    (turns : calls.countP IdCall.refills ≤ 1) : { d with calls := calls }.Holds counter :=
  { h with
    granted := fun start stop hc => h.granted start stop (granted start stop hc)
    turns := turns }

theorem Owns.of_withCalls {calls : List IdCall} {id : Int}
    (granted : ∀ start stop, .granted start stop ∈ calls → .granted start stop ∈ d.calls)
    (owns : { d with calls := calls }.Owns id) : d.Owns id := by
  rcases owns with issued | pooled | ⟨start, stop, hc, range⟩
  · exact .inl issued
  · exact .inr (.inl pooled)
  · exact .inr (.inr ⟨start, stop, granted start stop hc, range⟩)

/-- An id that is taken from the pool is the least that is left there, and above all
issued ones. -/
theorem Holds.issue {counter id : Int} {pool : IdPool} (h : d.Holds counter)
    (taken : d.pool.take = some (id, pool)) :
    (d.ended pool d.calls (.ok id)).Holds counter := by
  obtain ⟨rfl, left, rfl⟩ := IdPool.take_eq_some.mp taken
  exact
    { h with
      increasing := List.pairwise_append.mpr ⟨h.increasing, List.pairwise_singleton _ _,
        fun id issued next he => List.mem_singleton.mp he ▸ h.below id issued⟩
      below := fun id issued => by
        rcases List.mem_append.mp issued with issued | last
        · exact (h.below id issued).trans (Int.lt_succ _)
        · exact List.mem_singleton.mp last ▸ Int.lt_succ _
      pool := left }

theorem Owns.of_issue {id id' : Int} {pool : IdPool}
    (taken : d.pool.take = some (id, pool))
    (owns : (d.ended pool d.calls (.ok id)).Owns id') : d.Owns id' := by
  obtain ⟨rfl, left, rfl⟩ := IdPool.take_eq_some.mp taken
  rcases owns with issued | ⟨above, below⟩ | granted
  · rcases List.mem_append.mp issued with issued | last
    · exact .inl issued
    · exact .inr (.inl ⟨(List.mem_singleton.mp last).ge, List.mem_singleton.mp last ▸ left⟩)
  · exact .inr (.inl ⟨(Int.lt_succ _).le.trans above, below⟩)
  · exact .inr (.inr granted)

/-- What a turn does at a desk: the desk keeps what holds of it, the counter does not
fall, and what comes to belong to the desk was not reserved before. -/
structure Moves (s : Server) (d : Desk) (s' : Server) (d' : Desk) : Prop where
  holds : d'.Holds s'.store.nextId
  counter : s.store.nextId ≤ s'.store.nextId
  owns : ∀ id, d'.Owns id → d.Owns id ∨ s.store.nextId ≤ id

theorem Holds.moves_calls (h : d.Holds s.store.nextId) {calls : List IdCall}
    (granted : ∀ start stop, .granted start stop ∈ calls → .granted start stop ∈ d.calls)
    (turns : calls.countP IdCall.refills ≤ 1) : Moves s d s { d with calls := calls } :=
  ⟨h.withCalls granted turns, le_rfl, fun _ owns => .inl (owns.of_withCalls granted)⟩

/-- The calls beside one of them have the ranges that they had, and leave room for its
turn. -/
theorem Holds.beside {counter : Int} {c : IdCall} (h : d.Holds counter)
    (calls : d.calls = before ++ c :: later) :
    (∀ start stop, .granted start stop ∈ before ++ later → .granted start stop ∈ d.calls) ∧
      (before ++ later).countP IdCall.refills + c.refills.toNat ≤ 1 := by
  refine ⟨fun start stop hc => ?_, ?_⟩
  · rw [calls]
    exact List.mem_append.mpr ((List.mem_append.mp hc).imp_right (List.mem_cons_of_mem _))
  · rw [← IdCall.countP_refills, ← calls]
    exact h.turns

theorem Holds.moves_looked (h : d.Holds s.store.nextId) {c otherwise : IdCall}
    (calls : d.calls = before ++ c :: later)
    (bare : ∀ start stop, otherwise ≠ .granted start stop)
    (same : otherwise.refills = c.refills) :
    Moves s d s (d.looked before otherwise later) := by
  obtain ⟨granted, turns⟩ := h.beside calls
  rw [looked]
  split
  next id pool taken =>
    have fewer := h.withCalls granted ((Nat.le_add_right _ _).trans turns)
    refine ⟨fewer.issue taken, le_rfl, fun _ owns => .inl ?_⟩
    exact (Owns.of_issue (d := { d with calls := before ++ later }) taken
      owns).of_withCalls granted
  next =>
    refine h.moves_calls (fun start stop hc => granted start stop ?_) ?_
    · rcases List.mem_append.mp hc with hc | hc
      · exact List.mem_append_left _ hc
      · exact List.mem_append_right _
          ((List.mem_cons.mp hc).resolve_left (fun e => bare start stop e.symm))
    · rwa [IdCall.countP_refills, same]

/-- A call whose turn it is, while no other refills the pool, is the only one that
does. -/
theorem Holds.moves_enter (h : d.Holds s.store.nextId)
    (calls : d.calls = before ++ .queued :: later)
    (free : ∀ c ∈ d.calls, c.refills = false) :
    Moves s d s { d with calls := before ++ .admitted :: later } := by
  have none : (before ++ later).countP IdCall.refills = 0 := by
    rw [List.countP_eq_zero]
    intro c hc
    have member : c ∈ d.calls := by
      rw [calls]
      exact List.mem_append.mpr ((List.mem_append.mp hc).imp_right (List.mem_cons_of_mem _))
    rw [free c member]
    exact Bool.false_ne_true
  refine h.moves_calls (fun start stop hc => ?_) ?_
  · rw [calls]
    simpa using hc
  · rw [IdCall.countP_refills, none]
    exact le_rfl

/-- The range that a call is granted lies between the counter before and after. -/
theorem Holds.moves_ask (h : d.Holds s.store.nextId) {start stop : Int}
    (calls : d.calls = before ++ .asking :: later)
    (reserved : s.reserve (max d.batch 1) = (.ok (start, stop), s')) :
    Moves s d s' { d with calls := before ++ .granted start stop :: later } := by
  obtain ⟨granted, turns⟩ := h.beside calls
  have pos : 0 < max d.batch 1 := by omega
  rw [Server.reserve_of_pos pos] at reserved
  obtain ⟨range, rfl⟩ := Prod.mk.inj reserved
  obtain ⟨rfl, rfl⟩ := Prod.mk.inj (Except.ok.inj range)
  have counter : s.store.nextId ≤ s.store.nextId + (max d.batch 1 : ℕ) := by omega
  have member : ∀ start stop,
      .granted start stop ∈ before ++ IdCall.granted s.store.nextId
        (s.store.nextId + (max d.batch 1 : ℕ)) :: later →
      .granted start stop ∈ d.calls ∨
        start = s.store.nextId ∧ stop = s.store.nextId + (max d.batch 1 : ℕ) := by
    intro start stop hc
    rcases List.mem_append.mp hc with hc | hc
    · exact .inl (granted start stop (List.mem_append_left _ hc))
    · rcases List.mem_cons.mp hc with e | hc
      · exact .inr (IdCall.granted.inj e)
      · exact .inl (granted start stop (List.mem_append_right _ hc))
  refine ⟨{ h.mono counter with granted := fun start stop hc => ?_, turns := ?_ }, counter,
    fun id owns => ?_⟩
  · rcases member start stop hc with hc | ⟨rfl, rfl⟩
    · exact (h.mono counter).granted start stop hc
    · exact ⟨h.counted, by omega, le_rfl⟩
  · rwa [IdCall.countP_refills]
  · rcases owns with issued | pooled | ⟨start, stop, hc, range⟩
    · exact .inl (.inl issued)
    · exact .inl (.inr (.inl pooled))
    · rcases member start stop hc with hc | ⟨rfl, rfl⟩
      · exact .inl (.inr (.inr ⟨start, stop, hc, range⟩))
      · exact .inr range.1

/-- A call that was granted a range was the only one, and takes it over with its first
id. -/
theorem Holds.moves_refill (h : d.Holds s.store.nextId) {start stop : Int}
    (calls : d.calls = before ++ .granted start stop :: later) :
    Moves s d s (d.ended (d.pool.refill start stop).2 (before ++ later)
      (d.pool.refill start stop).1) := by
  obtain ⟨-, turns⟩ := h.beside calls
  have own : .granted start stop ∈ d.calls := by simp [calls]
  obtain ⟨above, inhabited, bound⟩ := h.granted start stop own
  rw [IdPool.refill_of_above above inhabited]
  have alone : ∀ start' stop', .granted start' stop' ∉ before ++ later := by
    intro start' stop' hc
    have : 0 < (before ++ later).countP IdCall.refills :=
      List.countP_pos_iff.mpr ⟨_, hc, rfl⟩
    simp only [IdCall.refills, Bool.toNat_true] at turns
    omega
  have reach : d.pool.next ≤ start := h.pool.trans (h.water.trans_le above)
  have below : ∀ id ∈ d.issued, id < start :=
    fun id issued => (h.below id issued).trans_le reach
  refine ⟨{ h with
    increasing := ?_
    below := ?_
    pool := inhabited
    water := rfl
    counted := bound
    granted := fun start' stop' hc => absurd hc (alone start' stop')
    turns := (Nat.le_add_right _ _).trans turns }, le_rfl, fun id owns => .inl ?_⟩
  · refine List.pairwise_append.mpr ⟨h.increasing, List.pairwise_singleton _ _, ?_⟩
    intro id issued next he
    exact List.mem_singleton.mp he ▸ below id issued
  · intro id issued
    rcases List.mem_append.mp issued with issued | last
    · exact (below id issued).trans (Int.lt_succ _)
    · exact List.mem_singleton.mp last ▸ Int.lt_succ _
  · rcases owns with issued | ⟨low, high⟩ | ⟨start', stop', hc, -⟩
    · rcases List.mem_append.mp issued with issued | last
      · exact .inl issued
      · obtain rfl := List.mem_singleton.mp last
        exact .inr (.inr ⟨id, stop, own, le_rfl, inhabited⟩)
    · have low : start + 1 ≤ id := low
      exact .inr (.inr ⟨start, stop, own, by omega, high⟩)
    · exact absurd hc (alone start' stop')

/-- Each turn keeps what holds of a desk. -/
theorem Holds.turn (h : d.Holds s.store.nextId) (turn : Turn (s, d) (s', d')) :
    Moves s d s' d' := by
  cases turn with
  | take _ _ taken =>
      exact ⟨h.issue taken, le_rfl, fun _ owns => .inl (owns.of_issue taken)⟩
  | arrive =>
      refine h.moves_calls (fun start stop hc => ?_) ?_
      · exact (List.mem_append.mp hc).resolve_right (by simp)
      · simpa [List.countP_append, IdCall.refills] using h.turns
  | look _ _ calls => exact h.moves_looked calls nofun rfl
  | enter _ _ calls free => exact h.moves_enter calls free
  | lookAgain _ _ calls => exact h.moves_looked calls nofun rfl
  | ask _ _ calls reserved => exact h.moves_ask calls reserved
  | refuse _ _ reason calls =>
      obtain ⟨granted, turns⟩ := h.beside calls
      have fewer := h.withCalls granted ((Nat.le_add_right _ _).trans turns)
      refine ⟨{ fewer with failed := fun e he => ?_ }, le_rfl,
        fun id owns => .inl (owns.of_withCalls granted)⟩
      rcases List.mem_append.mp he with he | he
      · exact h.failed e he
      · exact ⟨reason, List.mem_singleton.mp he⟩
  | refill _ _ calls => exact h.moves_refill calls
  | leave _ _ calls =>
      obtain ⟨granted, turns⟩ := h.beside calls
      exact h.moves_calls granted ((Nat.le_add_right _ _).trans turns)

/-- A call that is let alone, while no other refills the pool, does what `IdPool.allocate`
does. -/
theorem allocates (s : Server) (d : Desk) (free : ∀ c ∈ d.calls, c.refills = false) :
    Relation.ReflTransGen Turn (s, d)
      ((d.pool.allocate Server.reserve d.batch s).2.2,
        d.ended (d.pool.allocate Server.reserve d.batch s).2.1 d.calls
          (d.pool.allocate Server.reserve d.batch s).1) := by
  have arrived := Relation.ReflTransGen.single (Turn.arrive s d)
  have seen := arrived.tail (@Turn.look s _ d.calls [] rfl)
  rw [IdPool.allocate]
  cases taken : d.pool.take with
  | some found =>
      simpa [looked, taken, ended] using seen
  | none =>
      have pos : 0 < max d.batch 1 := by omega
      simp only [looked, taken] at seen
      have admitted := seen.tail (@Turn.enter s _ d.calls [] rfl
        (by simpa [or_imp, forall_and, IdCall.refills] using free))
      have again := admitted.tail (@Turn.lookAgain s _ d.calls [] rfl)
      simp only [looked, taken] at again
      have given :=
        again.tail (@Turn.ask s _ d.calls [] _ _ _ rfl (Server.reserve_of_pos pos s))
      have refilled := given.tail (@Turn.refill _ _ d.calls [] _ _ rfl)
      rw [Server.reserve_of_pos pos]
      dsimp only at refilled ⊢
      rw [IdPool.refill, List.append_nil] at refilled
      cases installed :
        d.pool.install s.store.nextId (s.store.nextId + (max d.batch 1 : ℕ)) with
      | error e =>
          rw [installed] at refilled
          exact refilled
      | ok filled =>
          rw [installed] at refilled
          cases first : filled.take with
          | none =>
              simp only [first] at refilled ⊢
              exact refilled
          | some found =>
              simp only [first] at refilled ⊢
              exact refilled

end Desk

namespace Registry

variable {x y : Registry}

/-- What holds of a server and its desks: what holds of each desk, and that no id belongs
to two. -/
structure Holds (x : Registry) : Prop where
  counter : 0 ≤ x.server.store.nextId
  desks : ∀ d ∈ x.desks, d.Holds x.server.store.nextId
  apart : x.desks.Pairwise (fun d d' => ∀ id, d.Owns id → ¬ d'.Owns id)

theorem Holds.start (digest : Bytes → Bytes) : (⟨.start digest, []⟩ : Registry).Holds :=
  ⟨Int.zero_le_ofNat 1, nofun, List.Pairwise.nil⟩

/-- The server may move its counter on for others. -/
theorem Holds.serve (h : x.Holds) {s : Server}
    (counter : x.server.store.nextId ≤ s.store.nextId) :
    (⟨s, x.desks⟩ : Registry).Holds :=
  ⟨h.counter.trans counter, fun d hd => (h.desks d hd).mono counter, h.apart⟩

/-- Each step keeps the invariant. -/
theorem Holds.step (h : x.Holds) (hs : Step x y) : y.Holds := by
  cases hs with
  | opens batch =>
      refine ⟨h.counter, fun d hd => ?_, ?_⟩
      · rcases List.mem_append.mp hd with hd | hd
        · exact h.desks d hd
        · exact List.mem_singleton.mp hd ▸ Desk.holds_opened batch h.counter
      · refine List.pairwise_append.mpr ⟨h.apart, List.pairwise_singleton _ _, ?_⟩
        intro d _ fresh hf id _ owns
        rw [List.mem_singleton.mp hf] at owns
        rcases owns with issued | ⟨low, high⟩ | ⟨_, _, hc, -⟩
        · exact List.not_mem_nil issued
        · exact absurd (low.trans_lt high) (lt_irrefl _)
        · exact List.not_mem_nil hc
  | @turn before later d d' s desks turn =>
      have moves := (h.desks d (by simp [desks])).turn turn
      have others : ∀ e ∈ before ++ later, e.Holds x.server.store.nextId := by
        intro e he
        refine h.desks e ?_
        rw [desks]
        exact List.mem_append.mpr ((List.mem_append.mp he).imp_right (List.mem_cons_of_mem _))
      have symm : ∀ {d d' : Desk}, (∀ id, d.Owns id → ¬ d'.Owns id) →
          ∀ id, d'.Owns id → ¬ d.Owns id := fun apart id owns' owns => apart id owns owns'
      refine ⟨h.counter.trans moves.counter, fun e he => ?_, ?_⟩
      · rcases List.mem_append.mp he with he | he
        · exact (others e (List.mem_append_left _ he)).mono moves.counter
        · rcases List.mem_cons.mp he with rfl | he
          · exact moves.holds
          · exact (others e (List.mem_append_right _ he)).mono moves.counter
      · have apart := h.apart
        rw [desks, List.pairwise_middle symm, List.pairwise_cons] at apart
        rw [List.pairwise_middle symm, List.pairwise_cons]
        refine ⟨fun e he id owns owns' => ?_, apart.2⟩
        -- What d gains was reserved in this turn, so it lies above all that others have.
        rcases moves.owns id owns with owns | gained
        · exact apart.1 e he id owns owns'
        · exact absurd ((others e he).lt_of_owns owns') (not_lt.mpr gained)
  | reserve count => exact h.serve (Server.nextId_le_reserve count x.server)
  | respond endpoint patch =>
      exact h.serve (Server.nextId_respond x.server endpoint patch).ge
  | restart => exact h.serve le_rfl

theorem Reachable.holds {digest : Bytes → Bytes} (h : Reachable digest x) : x.Holds := by
  induction h with
  | refl => exact Holds.start digest
  | tail _ hs ih => exact ih.step hs

/-- Whatever calls are under way at whatever desks, and in whatever order they go on: no
id is issued twice, each desk issues its ids in increasing order, a call that was granted
a range gets the first id of it, and a call fails only with the failure of the server. -/
theorem Reachable.ids_unique {digest : Bytes → Bytes} (h : Reachable digest x) :
    (x.desks.flatMap Desk.issued).Nodup ∧
    ∀ d ∈ x.desks, d.issued.Pairwise (· < ·) ∧
      (∀ start stop, .granted start stop ∈ d.calls →
        (d.pool.refill start stop).1 = .ok start) ∧
      ∀ e ∈ d.failed, ∃ reason, e = .source reason := by
  have holds := h.holds
  refine ⟨List.nodup_flatMap.mpr ⟨fun d hd => ?_, ?_⟩,
    fun d hd => ⟨?_, fun start stop hc => ?_, ?_⟩⟩
  · exact (holds.desks d hd).increasing.imp ne_of_lt
  · exact holds.apart.imp
      (fun apart id issued issued' => apart id (.inl issued) (.inl issued'))
  · exact (holds.desks d hd).increasing
  · obtain ⟨above, inhabited, -⟩ := (holds.desks d hd).granted start stop hc
    rw [IdPool.refill_of_above above inhabited]
  · exact (holds.desks d hd).failed

/-- What happens at one desk happens with the others beside it. -/
theorem steps_of_turns (before later : List Desk) {s s' : Server} {d d' : Desk}
    (turns : Relation.ReflTransGen Desk.Turn (s, d) (s', d')) :
    Relation.ReflTransGen Step ⟨s, before ++ d :: later⟩ ⟨s', before ++ d' :: later⟩ :=
  turns.lift (fun (x : Server × Desk) => (⟨x.1, before ++ x.2 :: later⟩ : Registry))
    (fun _ _ turn => .turn _ rfl turn)

/-- A server with an empty store that gives out numbers from one on. -/
def serving (counter : Int) : Server :=
  ⟨⟨fun b => b, [], [], counter⟩, 0, false, false, []⟩

/-- Two calls find a pool empty, and one refills it while the other waits for its turn;
then the client starts anew and takes an id from another desk. -/
theorem ids_unique_of_overlapping_calls :
    ∃ x : Registry, Reachable (fun b => b) x ∧ x.desks.map Desk.issued = [[1, 2], [3]] ∧
      (x.desks.flatMap Desk.issued).Nodup := by
  have waiting : Relation.ReflTransGen Desk.Turn (serving 1, .opened 2)
      (serving 1, ⟨.empty, 2, [.queued, .queued], [], []⟩) :=
    (((Relation.ReflTransGen.single (.arrive _ _)).tail (.arrive _ _)).tail
      (@Desk.Turn.look _ _ [] [.arrived] rfl)).tail (@Desk.Turn.look _ _ [.queued] [] rfl)
  have asking : Relation.ReflTransGen Desk.Turn (serving 1, .opened 2)
      (serving 1, ⟨.empty, 2, [.asking, .queued], [], []⟩) :=
    (waiting.tail (@Desk.Turn.enter _ _ [] [.queued] rfl (by decide))).tail
      (@Desk.Turn.lookAgain _ _ [] [.queued] rfl)
  have refilled : Relation.ReflTransGen Desk.Turn (serving 1, .opened 2)
      (serving 3, ⟨⟨2, 3, 3⟩, 2, [.queued], [1], []⟩) :=
    (asking.tail (@Desk.Turn.ask _ _ [] [.queued] 1 3 (serving 3) rfl rfl)).tail
      (@Desk.Turn.refill _ _ [] [.queued] 1 3 rfl)
  have shared : Relation.ReflTransGen Desk.Turn (serving 1, .opened 2)
      (serving 3, ⟨⟨3, 3, 3⟩, 2, [], [1, 2], []⟩) :=
    (refilled.tail (@Desk.Turn.enter _ _ [] [] rfl (by decide))).tail
      (@Desk.Turn.lookAgain _ _ [] [] rfl)
  have alone : Relation.ReflTransGen Desk.Turn (serving 3, .opened 1)
      (serving 4, ⟨⟨4, 4, 4⟩, 1, [], [3], []⟩) :=
    Desk.allocates (serving 3) (.opened 1) (fun _ hc => absurd hc List.not_mem_nil)
  have reached : Reachable (fun b => b)
      ⟨serving 4, [⟨⟨3, 3, 3⟩, 2, [], [1, 2], []⟩, ⟨⟨4, 4, 4⟩, 1, [], [3], []⟩]⟩ :=
    (((Relation.ReflTransGen.single (.opens ⟨serving 1, []⟩ 2)).trans
      (steps_of_turns [] [] shared)).tail (.opens _ 1)).trans
      (steps_of_turns [⟨⟨3, 3, 3⟩, 2, [], [1, 2], []⟩] [] alone)
  exact ⟨_, reached, rfl, reached.ids_unique.1⟩

end Registry

end RecordSync
