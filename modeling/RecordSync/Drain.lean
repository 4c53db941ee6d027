import RecordSync.Controller

/-!
# Waiting for a record to be saved

`Drain` is a call that waits until every change of a record is saved.  It answers true
then, and false if saves are suppressed or if an attempt of its own, after a failed one,
fails as well.

A call is polled: it looks at the controller, and either answers or waits, for the latch
to be settled or just for its next turn.  A call that waits for the latch looks at it only
when it is polled again.
-/

namespace RecordSync

/-- What a call finds when it looks at a controller. -/
inductive DrainStep
  /-- All is saved, or it will not be. -/
  | done (synchronized : Bool)
  /-- A loop runs; wait for its end. -/
  | wait
  /-- A batch is open; try again. -/
  | again
  /-- The record is dirty and no loop runs. -/
  | retry
deriving DecidableEq, Repr

/-- Looks at a controller on behalf of a call.  Suppressed changes that were taken back
need not be sent. -/
def Controller.drainStep {τ : Type} (c : Controller τ) : Controller τ × DrainStep :=
  if c.running then (c, .wait)
  else if 0 < c.batchDepth then (c, .again)
  else
    let clean := c.record.dirty == 0
    let c := if c.suppressed && clean then { c with pending := false } else c
    if !c.hasPending && clean then (c, .done true)
    else if c.suppressed then (c, .done false)
    else (c, .retry)

/-- A call that waits for a record to be saved. -/
structure Drain where
  /-- The call has started an attempt of its own. -/
  retried : Bool
  /-- The call waits for the latch. -/
  waiting : Bool
deriving DecidableEq, Repr

/-- Where a call stands after a poll. -/
inductive Poll
  | finished (synchronized : Bool)
  /-- It waits for the latch. -/
  | suspended (call : Drain)
  /-- It is to be polled again. -/
  | ready (call : Drain)
deriving DecidableEq, Repr

namespace Drain

variable {τ : Type}

def fresh : Drain := ⟨false, false⟩

/-- Waits for the latch, which may be settled already. -/
def await (retried : Bool) (c : Controller τ) : Controller τ × Poll :=
  (c, if c.latch.isSettled then .ready ⟨retried, false⟩ else .suspended ⟨retried, true⟩)

def poll (runtime : Bool) (call : Drain) (c : Controller τ) : Controller τ × Poll :=
  if call.waiting && !c.latch.isSettled then (c, .suspended call)
  else
    match c.drainStep with
    | (c, .done synchronized) => (c, .finished synchronized)
    | (c, .wait) => await call.retried c
    | (c, .again) => (c, .ready ⟨call.retried, false⟩)
    | (c, .retry) =>
      if call.retried then (c, .finished false)
      else
        match c.kick runtime with
        | (c, true) => await true c
        | (c, false) => (c, .finished false)

end Drain
end RecordSync
