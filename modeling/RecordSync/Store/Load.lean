import RecordSync.Store.Basic

/-!
# Loading a record

A live root is loaded as a message of the whole record: its fields, and in each set its
live elements, those without a position first and then by position, elements of one
position by id.

A string of bytes can also be asked for by its digest alone.  It is checked before it is
handed out.
-/

namespace RecordSync

/-- Why a string of bytes is not handed out. -/
inductive ContentError
  /-- It does not have the digest under which it is kept. -/
  | altered
deriving DecidableEq, Repr

def ContentError.message : ContentError → String
  | altered => "serialization error: blob contents do not match their hash"

namespace Store

/-- The string of bytes that is kept under a digest. -/
def fetch (s : Store) (digest : Bytes) : Except ContentError (Option Bytes) :=
  match s.bytes? digest with
  | some content =>
      if s.digest content = digest then .ok (some content) else .error .altered
  | none => .ok none

/-- The value of a field of a row. -/
def readContent (s : Store) (field : String) :
    Content → Except StoreError (String × Value)
  | .inline value => .ok (field, value)
  | .stored digest =>
    match s.bytes? digest with
    | some content => .ok (field, .bytes content)
    | none => .error (.missingContent field)

/-- The live rows that a row holds, in the order in which they are listed. -/
def childRows (s : Store) (number : Nat) : List Row :=
  SortedList.sortOn (fun row => row.position.getD absentPosition)
    (SortedList.sortOn Row.id
      (s.rows.filter (fun row => row.parent == number && !row.deleted)))

/-- The message of a row with all that it holds, down to a number of levels. -/
def readRow (s : Store) : Nat → Row → Except StoreError Message
  | 0, row => .ok (.blank row.id)
  | levels + 1, row => do
    let fields ← row.fields.mapM (fun (field, content) => s.readContent field content)
    let children ← (s.childRows row.number).mapM (fun child => do
      let message ← s.readRow levels child
      .ok (child.set, { message with position := child.position }))
    .ok (children.foldl (fun m (set, child) => m.withChild set child)
      ⟨row.id, fields, [], none, none, none⟩)

/-- The live root of a family, as a message; each row stands below fewer rows than there
are. -/
def load (s : Store) (kind : String) (id : Int) : Except StoreError Message :=
  match s.live? 0 kind id with
  | some row => s.readRow s.rows.length row
  | none => .error (.missingRoot kind id)

end Store
end RecordSync
