import RecordSync.Tracked

/-!
# Notices of change

Whoever watches a record is told of each change by a notice: how many parts of the record
are dirty now, and by how much that number moved.  A field tells of itself; a set tells
its record, which counts the whole set as one part.

**Results.**  `Transition.notice?` is the notice of one field, `Notice.enclose` turns the
notice of a set into the notice of the record that holds it.
-/

namespace RecordSync

/-- A change of the number of dirty parts. -/
structure Notice where
  dirty : Nat
  change : Int
deriving DecidableEq, Repr

/-- The notice of a field that made a transition, given the number of dirty parts before
it. -/
def Transition.notice? (dirty : Nat) : Transition → Option Notice
  | .unchanged => none
  | .entered => some ⟨dirty + 1, 1⟩
  | .updated => some ⟨dirty, 0⟩
  | .left => some ⟨dirty - 1, -1⟩

namespace Notice

/-- The notice of a record with the given number of dirty parts, one of whose sets told of
a change: the set becomes dirty when its own number leaves zero and clean when it is back
at zero. -/
def enclose (parent : Nat) (inner : Notice) : Notice :=
  if inner.dirty = 0 ∧ inner.change < 0 then ⟨parent - 1, -1⟩
  else if 0 < inner.change ∧ (inner.dirty : Int) = inner.change then ⟨parent + 1, 1⟩
  else ⟨parent, 0⟩

/-- The notice of a move from one number of dirty parts to another. -/
def ofMove (before after : Nat) : Notice := ⟨after, (after : Int) - before⟩

end Notice

/-- The number of dirty parts that a notice, if any, leaves. -/
def dirtyAfter (before : Nat) : Option Notice → Nat
  | some notice => notice.dirty
  | none => before

end RecordSync
