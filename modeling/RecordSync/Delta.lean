import RecordSync.SortedList
import RecordSync.Value

/-!
# Deltas

A delta is a sparse snapshot of what a record holds beyond its baseline: the changed
fields with their values, and for each changed set the changed elements, ordered by id.
What is not named has not changed.
-/

namespace RecordSync

mutual

/-- The changes of a record. -/
structure Delta where
  fields : List (String × Value)
  sets : List SetDelta

structure SetDelta where
  name : String
  elements : List ElementDelta

/-- The change of an element of a set. -/
structure ElementDelta where
  id : Int
  record : Delta
  /-- The position that the element is to take. -/
  position : Option Int
  deleted : Option Bool

end

namespace Delta

def empty : Delta := ⟨[], []⟩

instance : Inhabited Delta := ⟨empty⟩

def size (d : Delta) : Nat := d.fields.length + d.sets.length

def field? (d : Delta) (name : String) : Option Value :=
  (SortedList.find? Prod.fst name d.fields).map Prod.snd

def set? (d : Delta) (name : String) : Option SetDelta :=
  SortedList.find? SetDelta.name name d.sets

end Delta

/-- The same changed fields with values that are equal as numbers. -/
def sameFields : List (String × Value) → List (String × Value) → Bool
  | [], [] => true
  | (name, value) :: rest, (name', value') :: rest' =>
    name == name' && value.numEq value' && sameFields rest rest'
  | _, _ => false

mutual

/-- Whether two deltas name the same changes, where floating-point values are compared as
numbers. -/
def Delta.same : Delta → Delta → Bool
  | ⟨fields, sets⟩, ⟨fields', sets'⟩ => sameFields fields fields' && sameSets sets sets'

/-- Whether two lists name the same changes of sets. -/
def sameSets : List SetDelta → List SetDelta → Bool
  | [], [] => true
  | ⟨name, elements⟩ :: rest, ⟨name', elements'⟩ :: rest' =>
    name == name' && sameElements elements elements' && sameSets rest rest'
  | _, _ => false

/-- Whether two lists name the same changes of elements. -/
def sameElements : List ElementDelta → List ElementDelta → Bool
  | [], [] => true
  | ⟨id, record, position, deleted⟩ :: rest,
      ⟨id', record', position', deleted'⟩ :: rest' =>
    id == id' && record.same record' && position == position' && deleted == deleted' &&
      sameElements rest rest'
  | _, _ => false

end

end RecordSync
