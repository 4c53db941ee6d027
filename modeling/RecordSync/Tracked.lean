/-!
# Tracked values

A tracked value is seen against a baseline: what the server is known to hold, and what the
user sees.  It is dirty exactly when the two differ.  A write moves the current value, a
commit moves the baseline, and each reports how the value moved between clean and dirty.

**Results.**  `isDirty_write` and `isDirty_commit` say when a value is dirty after each.
-/

namespace RecordSync

/-- How a write or a commit moved a value relative to its baseline. -/
inductive Transition
  /-- Nothing that can be seen happened. -/
  | unchanged
  /-- Clean before, dirty after. -/
  | entered
  /-- Dirty before and after. -/
  | updated
  /-- Dirty before, clean after. -/
  | left
deriving DecidableEq, Repr

namespace Transition

def between (was is : Bool) : Transition :=
  match was, is with
  | false, false => unchanged
  | false, true => entered
  | true, false => left
  | true, true => updated

/-- How a transition moves the count of dirty values. -/
def change : Transition → Int
  | entered => 1
  | left => -1
  | unchanged | updated => 0

end Transition

/-- A value and its baseline. -/
structure Tracked (α : Type) where
  /-- The value that the server is known to hold. -/
  remote : α
  /-- The value that the user sees. -/
  current : α
deriving DecidableEq, Repr

namespace Tracked

variable {α : Type}

/-- A value equal to its baseline. -/
def clean (x : α) : Tracked α := ⟨x, x⟩

variable [DecidableEq α]

def isDirty (t : Tracked α) : Bool := decide (t.current ≠ t.remote)

/-- The current value, if it differs from the baseline. -/
def delta? (t : Tracked α) : Option α := if t.isDirty then some t.current else none

/-- Gives the user's value another content. -/
def write (t : Tracked α) (x : α) : Tracked α := { t with current := x }

/-- How writing a content moves a value; writing the current content is no change. -/
def writeTransition (t : Tracked α) (x : α) : Transition :=
  if t.current = x then .unchanged else .between t.isDirty (t.write x).isDirty

/-- Moves the baseline to a content that the server took. -/
def commit (t : Tracked α) (x : α) : Tracked α := { t with remote := x }

def commit? (t : Tracked α) : Option α → Tracked α
  | some x => t.commit x
  | none => t

/-- How a commit moves a value; one that stays dirty is not changed for the user. -/
def commitTransition (t : Tracked α) (x : α) : Transition :=
  match Transition.between t.isDirty (t.commit x).isDirty with
  | .updated => .unchanged
  | other => other

theorem isDirty_clean (x : α) : (clean x).isDirty = false := by simp [isDirty, clean]

theorem isDirty_write (t : Tracked α) (x : α) :
    (t.write x).isDirty = decide (x ≠ t.remote) := rfl

theorem isDirty_commit (t : Tracked α) (x : α) :
    (t.commit x).isDirty = decide (t.current ≠ x) := rfl

end Tracked
end RecordSync
