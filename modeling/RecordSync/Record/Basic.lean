import RecordSync.Catalog
import RecordSync.Delta
import RecordSync.Message
import RecordSync.Notice

/-!
# Records

A record has an id and the fields and sets that its type declares.  Every field is tracked
against a baseline, and so is the presence of every element of a set, so that the record
knows at any time what the server has not been told.

**Presence.**  In an ordered set an element is present while its position is not
`absentPosition`; in an unordered set while it is not deleted.  An element that was added
here has no remote presence.  `sent` says that its creation has left for the server, so
that it cannot be dropped without a word.

**Counting.**  A record counts its dirty parts: the dirty fields, and each set with a
dirty element as one.  A set counts its dirty elements.  An element that is absent has
only its presence to tell, an element that is present also its own dirty parts.  The
counts are kept with the record and moved by each edit; `Record.dirtyParts` and
`ElementSet.dirtyElements` are what they are to be.
-/

namespace RecordSync

structure Field where
  decl : FieldDecl
  value : Tracked Value
deriving DecidableEq, Repr

mutual

structure Record (τ : Type) where
  type : τ
  id : Int
  dirty : Nat
  fields : List Field
  sets : List (ElementSet τ)

structure ElementSet (τ : Type) where
  decl : SetDecl τ
  /-- The elements in the order of their ids, the absent ones that are still of interest
  included. -/
  elements : List (Element τ)
  dirty : Nat
  /-- The position that the next new element takes. -/
  nextPosition : Int

structure Element (τ : Type) where
  record : Record τ
  position : Tracked Int
  deleted : Tracked Bool
  /-- The creation of the element has left for the server at least once. -/
  sent : Bool

end

namespace Field

def name (f : Field) : String := f.decl.name

def clean (decl : FieldDecl) (content : Value) : Field := ⟨decl, .clean content⟩

def isDirty (f : Field) : Bool := f.value.isDirty

end Field

variable {τ : Type}

namespace Element

/-- The id of an element is that of its record. -/
def id (e : Element τ) : Int := e.record.id

/-- A clean element that the server holds. -/
def loaded (record : Record τ) (position : Int) : Element τ :=
  ⟨record, .clean position, .clean false, false⟩

/-- A new element that the server does not hold; `position` is its place in an ordered
set. -/
def fresh (kind : SetKind) (record : Record τ) (position : Int) : Element τ :=
  match kind with
  | .ordered => ⟨record, ⟨absentPosition, position⟩, .clean false, false⟩
  | .unordered => ⟨record, .clean 0, ⟨true, false⟩, false⟩

/-- The user sees the element. -/
def isPresent (kind : SetKind) (e : Element τ) : Bool :=
  match kind with
  | .ordered => decide (e.position.current ≠ absentPosition)
  | .unordered => !e.deleted.current

/-- The baseline has the element. -/
def isRemotePresent (kind : SetKind) (e : Element τ) : Bool :=
  match kind with
  | .ordered => decide (e.position.remote ≠ absentPosition)
  | .unordered => !e.deleted.remote

/-- The presence of the element differs from the baseline. -/
def isPresenceDirty (e : Element τ) : Bool := e.position.isDirty || e.deleted.isDirty

/-- The number of dirty parts: the presence, and of a present element its own. -/
def dirtyParts (kind : SetKind) (e : Element τ) : Nat :=
  (if e.isPresent kind then e.record.dirty else 0) + e.isPresenceDirty.toNat

/-- The element has something to tell. -/
def isDirty (kind : SetKind) (e : Element τ) : Bool := decide (0 < e.dirtyParts kind)

/-- Neither the user nor the baseline has the element, and it has nothing to tell. -/
def isDead (kind : SetKind) (e : Element τ) : Bool :=
  !e.isPresent kind && !e.isRemotePresent kind && !e.isDirty kind

/-- Takes the element from the user's sight. -/
def markAbsent (kind : SetKind) (e : Element τ) : Element τ :=
  match kind with
  | .ordered => { e with position := e.position.write absentPosition }
  | .unordered => { e with deleted := e.deleted.write true }

/-- Brings the element back: in an ordered set at its baseline position, or at the given
one if it has none. -/
def reinstate (kind : SetKind) (position : Int) (e : Element τ) : Element τ :=
  match kind with
  | .ordered =>
    { e with position :=
        e.position.write (if e.isRemotePresent kind then e.position.remote else position) }
  | .unordered => { e with deleted := e.deleted.write false }

end Element

namespace ElementSet

def name (s : ElementSet τ) : String := s.decl.name

def blank (decl : SetDecl τ) : ElementSet τ := ⟨decl, [], 0, 0⟩

/-- The element of an id, present or not. -/
def find? (s : ElementSet τ) (id : Int) : Option (Element τ) :=
  SortedList.find? Element.id id s.elements

/-- The element of an id, if the user sees it. -/
def present? (s : ElementSet τ) (id : Int) : Option (Element τ) :=
  (s.find? id).filter (·.isPresent s.decl.kind)

/-- Inserts an element in its place, in the stead of one with the same id. -/
def insert (s : ElementSet τ) (e : Element τ) : ElementSet τ :=
  { s with elements := SortedList.insert Element.id e s.elements }

def erase (s : ElementSet τ) (id : Int) : ElementSet τ :=
  { s with elements := SortedList.erase Element.id id s.elements }

/-- Inserts an element, or forgets it when it is dead. -/
def settle (s : ElementSet τ) (e : Element τ) : ElementSet τ :=
  if e.isDead s.decl.kind then s.erase e.id else s.insert e

/-- The elements that the user sees, in the order of their ids. -/
def presentElements (s : ElementSet τ) : List (Element τ) :=
  s.elements.filter (·.isPresent s.decl.kind)

/-- The elements that the user sees, in the order of the set: by position if it has one,
else by id. -/
def listed (s : ElementSet τ) : List (Element τ) :=
  match s.decl.kind with
  | .ordered => SortedList.sortOn (·.position.current) s.presentElements
  | .unordered => s.presentElements

/-- The ids of the elements that the user sees, in the order of the set. -/
def ids (s : ElementSet τ) : List Int := s.listed.map Element.id

/-- The number of elements that the user sees. -/
def length (s : ElementSet τ) : Nat := s.presentElements.length

def position? (s : ElementSet τ) (id : Int) : Option Int :=
  match s.decl.kind with
  | .ordered => (s.present? id).map (·.position.current)
  | .unordered => none

/-- The number of elements with something to tell. -/
def dirtyElements (s : ElementSet τ) : Nat :=
  s.elements.countP (·.isDirty s.decl.kind)

/-- The set has an element with something to tell. -/
def isDirty (s : ElementSet τ) : Bool := decide (0 < s.dirty)

/-- Counts the dirty elements anew. -/
def recount (s : ElementSet τ) : ElementSet τ := { s with dirty := s.dirtyElements }

end ElementSet

namespace Record

/-- The number of dirty fields and of dirty sets. -/
def dirtyParts (r : Record τ) : Nat :=
  r.fields.countP Field.isDirty + r.sets.countP ElementSet.isDirty

/-- Counts the dirty parts anew. -/
def recount (r : Record τ) : Record τ := { r with dirty := r.dirtyParts }

/-- The value that the user sees in a field. -/
def value? (r : Record τ) (field : String) : Option Value :=
  (SortedList.find? Field.name field r.fields).map (·.value.current)

def set? (r : Record τ) (set : String) : Option (ElementSet τ) :=
  SortedList.find? ElementSet.name set r.sets

/-- Gives one of the record's sets another content. -/
def withSet (r : Record τ) (s : ElementSet τ) : Record τ :=
  { r with sets := SortedList.modify ElementSet.name s.name (fun _ => s) r.sets }

/-- A clean record with the default of each field and no elements. -/
def blank [Catalog τ] (type : τ) (id : Int) : Record τ where
  type := type
  id := id
  dirty := 0
  fields := (Catalog.fields type).map (fun decl => .clean decl decl.kind.default)
  sets := (Catalog.sets type).map .blank

end Record
end RecordSync
