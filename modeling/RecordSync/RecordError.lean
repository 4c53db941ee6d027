/-!
# Failures of record operations

What can go wrong when a record is decoded from a message, when a set of it is edited, or
when an accepted change is committed.  `RecordError.message` is the wording of each.
-/

namespace RecordSync

/-- Why a record operation was refused. -/
inductive RecordError
  /-- A byte string is not the packed form of a value or message. -/
  | unreadable
  /-- A field holds a value of another kind than the declared one. -/
  | fieldKind (field found expected : String)
  /-- A set holds no present element of this id. -/
  | unknownElement (id : Int)
  /-- A set already holds an element of this id. -/
  | duplicateElement (id : Int)
  /-- Two elements of a set without an order were to be exchanged. -/
  | swapUnordered
  /-- An element of an ordered set came without a usable position. -/
  | unplaced (id : Int)
  /-- Two elements of an ordered set came with one position. -/
  | sharedPosition (position : Int)
deriving DecidableEq, Repr

namespace RecordError

def message : RecordError → String
  | unreadable => "serialization error: the bytes hold no packed message"
  | fieldKind field found expected => s!"field {field} holds {found}, expected {expected}"
  | unknownElement id => s!"unknown set element: {id}"
  | duplicateElement id => s!"duplicate set element: {id}"
  | swapUnordered => "invalid operation: swap on an unordered set"
  | unplaced id => s!"invalid data: ordered element {id} has no position"
  | sharedPosition position => s!"invalid data: two elements share position {position}"

end RecordError
end RecordSync
