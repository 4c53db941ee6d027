/-!
# Latches

A latch tells those who wait for an outcome what it was.  It is clear until it is settled,
once, as resolved or rejected; clearing arms it again.

A waiter looks at the latch when it is its turn, and goes on if the latch is settled at
that moment.
-/

namespace RecordSync

/-- The state of a latch. -/
inductive Latch
  | clear
  | resolved
  | rejected
deriving DecidableEq, Repr

/-- Why a latch was not settled. -/
inductive LatchError
  | alreadySettled
deriving DecidableEq, Repr

def LatchError.message : LatchError → String
  | alreadySettled => "latch already settled"

namespace Latch

/-- The latch holds an outcome. -/
def isSettled (l : Latch) : Bool := decide (l ≠ clear)

def settle (l outcome : Latch) : Except LatchError Latch :=
  match l with
  | clear => .ok outcome
  | _ => .error .alreadySettled

/-- Settles a latch if it is clear, and leaves it alone otherwise. -/
def settleIfClear (l outcome : Latch) : Latch :=
  match l with
  | clear => outcome
  | settled => settled

/-- What a waiter learns when it looks at the latch. -/
def look : Latch → Option Latch
  | clear => none
  | settled => some settled

/-- The waiters after each that still waits has had its turn. -/
def wake (l : Latch) (waiters : List (Option Latch)) : List (Option Latch) :=
  waiters.map (fun w => w <|> l.look)

end Latch
end RecordSync
