import RecordSync.Blake3
import RecordSync.Message

/-!
# The table of records

The server keeps every record that it was ever told of as a row of one table.  A row
belongs to a set of the row that holds it, and the roots belong to the families of roots,
as sets of the row with number zero, which does not exist.  A removed record leaves its
row behind as a tombstone; what the row then still holds cannot be seen.

Strings of bytes are kept apart from the rows, once for each content, under their digest.

**Results.**  `StoreError.message` is the wording of every reason why the store refuses a
request.
-/

namespace RecordSync

/-- Why the store refused a request. -/
inductive StoreError
  | unavailable
  | missingElement (set : String) (id : Int)
  | missingRoot (kind : String) (id : Int)
  | missingContent (field : String)
  /-- An element was to take a position below zero. -/
  | negativePosition (position id : Int)
  | emptyReservation
  /-- An element is not at the position from which it was to be moved. -/
  | positionConflict (id found expected : Int)
  /-- Two live elements of a set have one position. -/
  | duplicatePosition (set : String) (position : Int)
deriving DecidableEq, Repr

namespace StoreError

def message : StoreError → String
  | unavailable => "the store cannot be opened"
  | missingElement set id => s!"not found: {set} element {id}"
  | missingRoot kind id => s!"not found: {kind} {id}"
  | missingContent field => s!"not found: blob of field {field}"
  | negativePosition position id =>
    s!"constraint violation: negative position {position} for element {id}"
  | emptyReservation => "constraint violation: cannot reserve an empty id range"
  | positionConflict id found expected =>
    s!"element {id} is at position {found}, patch expected {expected}"
  | duplicatePosition set position =>
      s!"two live elements of {set} share position {position}"

end StoreError

/-- What a row holds for a field. -/
inductive Content
  /-- A value other than bytes. -/
  | inline (value : Value)
  /-- Bytes that are kept under this digest. -/
  | stored (digest : Bytes)
deriving DecidableEq, Repr

/-- A record in the table. -/
structure Row where
  number : Nat
  /-- The number of the row that holds this one; zero for a root. -/
  parent : Nat
  /-- The set of the parent to which the row belongs; the family of a root. -/
  set : String
  id : Int
  position : Option Int
  deleted : Bool
  fields : List (String × Content)
deriving DecidableEq, Repr

/-- The server's store. -/
structure Store where
  /-- The function that names a string of bytes. -/
  digest : Bytes → Bytes
  /-- The rows in the order of their numbers, which count from one. -/
  rows : List Row
  /-- The strings of bytes with their digests. -/
  contents : List (Bytes × Bytes)
  /-- The first id that has not been reserved. -/
  nextId : Int

namespace Store

/-- The first id that a new store reserves. -/
def firstId : Int := 1

def empty (digest : Bytes → Bytes) : Store := ⟨digest, [], [], firstId⟩

/-- The row of a record, live or not. -/
def find? (s : Store) (parent : Nat) (set : String) (id : Int) : Option Row :=
  s.rows.find? (fun row => row.parent = parent ∧ row.set = set ∧ row.id = id)

def live? (s : Store) (parent : Nat) (set : String) (id : Int) : Option Row :=
  (s.find? parent set id).filter (fun row => !row.deleted)

/-- Changes the rows that a condition selects. -/
def update (s : Store) (select : Row → Bool) (change : Row → Row) : Store :=
  { s with rows := s.rows.map (fun row => if select row then change row else row) }

def updateRow (s : Store) (number : Nat) (change : Row → Row) : Store :=
  s.update (fun row => row.number == number) change

def liveElements (s : Store) (parent : Nat) (set : String) : List Row :=
  s.rows.filter (fun row => row.parent == parent && row.set == set && !row.deleted)

def bytes? (s : Store) (digest : Bytes) : Option Bytes :=
  (s.contents.find? (fun entry => entry.1 = digest)).map Prod.snd

def contentCount (s : Store) : Nat := s.contents.length

/-- Sets aside a number of ids that no one else is given: the first, and the one behind
the last. -/
def reserve (s : Store) (count : Nat) : Except StoreError ((Int × Int) × Store) :=
  if count = 0 then .error .emptyReservation
  else .ok ((s.nextId, s.nextId + count), { s with nextId := s.nextId + count })

end Store
end RecordSync
