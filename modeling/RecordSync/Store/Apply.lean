import RecordSync.Store.Basic

/-!
# Applying a patch

A patch is applied from the root down: the record's row is found or made, its fields are
written, then the elements of its sets follow in the order of the message.  After the
elements of a set no two live ones may share a position.  A patch that is refused changes
nothing.

**Moving.**  A message with a new position says where it takes the element to be; if it is
elsewhere the patch is refused.  A new position of `absentPosition` removes the element.

**Creating.**  Only a root, an element that is not marked as deleted on purpose, or one
that is given a position is made when it is missing.  A tombstone that comes back starts
without fields or elements.
-/

namespace RecordSync
namespace Store

/-- Buries a row: the record is removed and has no position. -/
def bury (row : Row) : Row := { row with deleted := true, position := none }

/-- Makes a new row at the end of the table; gives its number. -/
def create (s : Store) (parent : Nat) (set : String) (id : Int) : Store × Nat :=
  let number := s.rows.length + 1
  ({ s with rows := s.rows ++ [⟨number, parent, set, id, none, false, []⟩] }, number)

/-- Brings a tombstone back without fields, and buries the elements that it held. -/
def revive (s : Store) (number : Nat) : Store :=
  (s.updateRow number (fun row => { row with deleted := false, fields := [] })).update
    (fun row => row.parent == number) bury

/-- The row of a record, made or brought back if it is not live. -/
def ensure (s : Store) (parent : Nat) (set : String) (id : Int) : Store × Nat :=
  match s.find? parent set id with
  | some row => if row.deleted then (s.revive row.number, row.number) else (s, row.number)
  | none => s.create parent set id

/-- Finds the row for a message and brings it to its place; nothing if the message removes
the record.  `mayCreate` says that a missing record is made even if the message does not
ask for it. -/
def place (s : Store) (parent : Nat) (set : String) (mayCreate : Bool) (id : Int)
    (position swapPosition : Option Int) (deleted : Option Bool) :
    Except StoreError (Store × Option Nat) :=
  let live := s.live? parent set id
  match swapPosition with
  | some target =>
    let expected := position.getD absentPosition
    let found := (live.bind (·.position)).getD absentPosition
    if found ≠ expected then .error (.positionConflict id found expected)
    else if target = absentPosition then
      match live with
      | some row => .ok (s.updateRow row.number bury, none)
      | none => .ok (s, none)
    else if target < 0 then .error (.negativePosition target id)
    else
      let (s, number) := s.ensure parent set id
      .ok (s.updateRow number (fun row => { row with position := some target }), some number)
  | none =>
    match deleted, live with
    | some true, some row => .ok (s.updateRow row.number bury, none)
    | some true, none => .error (.missingElement set id)
    | some false, _ =>
      let (s, number) := s.ensure parent set id
      .ok (s, some number)
    | none, some row => .ok (s, some row.number)
    | none, none =>
      if mayCreate then
        let (s, number) := s.ensure parent set id
        .ok (s, some number)
      else .error (.missingElement set id)

/-- Keeps a string of bytes, once for each digest. -/
def keep (s : Store) (content : Bytes) : Store :=
  let digest := s.digest content
  if (s.bytes? digest).isSome then s
  else { s with contents := s.contents ++ [(digest, content)] }

def writeField (s : Store) (number : Nat) (field : String) (value : Value) : Store :=
  let write (content : Content) (row : Row) : Row :=
    { row with fields := SortedList.insert Prod.fst (field, content) row.fields }
  match value with
  | .bytes content =>
      (s.keep content).updateRow number (write (.stored (s.digest content)))
  | other => s.updateRow number (write (.inline other))

def writeFields (s : Store) (number : Nat) (fields : List (String × Value)) : Store :=
  fields.foldl (fun s (field, value) => s.writeField number field value) s

/-- The smallest position that two of some rows share. -/
def sharedPosition? (rows : List Row) : Option Int :=
  let positions := SortedList.sortOn id (rows.filterMap (·.position))
  ((positions.zip positions.tail).find? (fun (p, q) => p = q)).map Prod.fst

/-- Refuses a set in which two live elements share a position. -/
def checkPositions (s : Store) (parent : Nat) (set : String) : Except StoreError Unit :=
  match sharedPosition? (s.liveElements parent set) with
  | some position => .error (.duplicatePosition set position)
  | none => .ok ()

mutual

/-- Applies the message of a record of a set. -/
def applyRecord (s : Store) (parent : Nat) (set : String) (mayCreate : Bool) :
    Message → Except StoreError Store
  | ⟨id, fields, children, position, swapPosition, deleted⟩ => do
    let (s, found) ← s.place parent set mayCreate id position swapPosition deleted
    match found with
    | none => .ok s
    | some number => applyGroups (s.writeFields number fields) number children

def applyGroups (s : Store) (number : Nat) : List Group → Except StoreError Store
  | [] => .ok s
  | ⟨set, members⟩ :: rest => do
    let s ← applyMembers s number set members
    s.checkPositions number set
    applyGroups s number rest

def applyMembers (s : Store) (number : Nat) (set : String) :
    List Message → Except StoreError Store
  | [] => .ok s
  | message :: rest => do
    let s ← applyRecord s number set false message
    applyMembers s number set rest

end

/-- Applies a patch of a root of a family; the store afterwards, or why the patch was
refused. -/
def apply (s : Store) (kind : String) (patch : Message) : Except StoreError Store :=
  s.applyRecord 0 kind true patch

end Store
end RecordSync
