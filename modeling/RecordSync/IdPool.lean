/-!
# Pools of ids

A client takes new ids from a pool, which it refills by reserving a range from a source
when it is empty.  A range is taken only if it is not empty and starts at or above
everything that was ever taken, so that no id is handed out twice whatever the source
answers.

A second kind of source derives ranges from the clock: each starts at the present moment
or behind the last one.

**Results.**  `IdPool.take` and `IdPool.allocate` hand out ids; `IdError.message` is the
wording of each failure.
-/

namespace RecordSync

/-- Why no id could be handed out. -/
inductive IdError
  | emptyRange
  /-- A range holds ids below those that were already taken. -/
  | overlap (start stop : Int)
  /-- The source failed for this reason. -/
  | source (reason : String)
deriving DecidableEq, Repr

def IdError.message : IdError → String
  | emptyRange => "id source returned an empty range"
  | overlap start stop => s!"id range {start}..{stop} overlaps ids already handed out"
  | source reason => s!"id source failed: {reason}"

/-- The ids that a client has reserved and not handed out. -/
structure IdPool where
  next : Int
  /-- The id behind the last one. -/
  stop : Int
  /-- The id behind all that were ever reserved. -/
  highWater : Int
deriving DecidableEq, Repr

namespace IdPool

def empty : IdPool := ⟨0, 0, 0⟩

def available (p : IdPool) : Nat := (p.stop - p.next).toNat

def take (p : IdPool) : Option (Int × IdPool) :=
  if p.next < p.stop then some (p.next, { p with next := p.next + 1 }) else none

/-- Takes over a reserved range. -/
def install (p : IdPool) (start stop : Int) : Except IdError IdPool :=
  if stop ≤ start then .error .emptyRange
  else if start < p.highWater then .error (.overlap start stop)
  else .ok ⟨start, stop, stop⟩

/-- Hands out an id, after a reservation of `batch` ids from the source if none is left.
Gives the answer, the pool and the source. -/
def allocate {σ : Type} (reserve : Nat → σ → Except IdError (Int × Int) × σ) (batch : Nat)
    (p : IdPool) (source : σ) : Except IdError Int × IdPool × σ :=
  match p.take with
  | some (id, p) => (.ok id, p, source)
  | none =>
    match reserve (max batch 1) source with
    | (.error e, source) => (.error e, p, source)
    | (.ok (start, stop), source) =>
      match p.install start stop with
      | .error e => (.error e, p, source)
      | .ok filled =>
        match filled.take with
        | some (id, filled) => (.ok id, filled, source)
        | none => (.error .emptyRange, filled, source)

end IdPool

/-- A source of ids that follows the clock. -/
structure ClockIds where
  /-- The id behind all that were given. -/
  last : Int
deriving DecidableEq, Repr

/-- Reserves a number of ids at a moment, whose number is given. -/
def ClockIds.reserve (moment : Int) (count : Nat) (s : ClockIds) :
    Except IdError (Int × Int) × ClockIds :=
  if count = 0 then (.error .emptyRange, s)
  else
    let start := max moment s.last
    (.ok (start, start + count), ⟨start + count⟩)

end RecordSync
