import RecordSync.Record.Decode

/-!
# Local edits

The user changes a record by edits: a field is written, or an element of a set is added,
edited, removed, or exchanged with another.  An edit of an element may hold edits of the
element's own parts; the set tells of all of them at once.

**Adding.**  Adding an id whose removal is still to be told brings the old element back
and keeps its record.  **Removing.**  An element whose creation never left for the server
goes without a trace.

**Answers.**  `Record.edit` gives the record afterwards, the notice that the edit fires,
if any, and an outcome.  An edit that is refused changes nothing and fires nothing, and so
does one that names no part of the record or a value of another kind than the field's.
-/

namespace RecordSync

/-- What a new element is made from. -/
inductive Seed
  /-- An id; every field has its default. -/
  | blank (id : Int)
  /-- A message of the whole element. -/
  | message (content : Message)

mutual

/-- A change of a record by the user. -/
inductive Edit
  | write (field : String) (value : Value)
  | within (set : String) (edit : SetEdit)

/-- A change of a set by the user. -/
inductive SetEdit
  | add (seed : Seed) (edits : List Edit)
  | update (id : Int) (edits : List Edit)
  | remove (id : Int)
  /-- Exchanges the positions of two elements. -/
  | swap (first second : Int)

end

mutual

/-- What came of an edit of a record. -/
inductive Outcome
  /-- The record has no such part, or the value is not one of the field's kind. -/
  | ignored
  /-- The field holds the value, and the record has so many dirty parts. -/
  | wrote (value : Value) (dirty : Nat)
  /-- What came of the edit of a set, with the set's dirty elements and length
  afterwards. -/
  | within (result : SetOutcome) (dirty length : Nat)

/-- What came of an edit of a set. -/
inductive SetOutcome
  /-- The element was added or edited; it has so many dirty parts. -/
  | edited (id : Int) (dirty : Nat) (inner : List Outcome)
  | done
  | refused (error : RecordError)

end

variable {τ : Type}

/-- A count after one of the counted things went from one state of dirtiness to
another. -/
def adjust (count : Nat) (was is : Bool) : Nat :=
  match was, is with
  | false, true => count + 1
  | true, false => count - 1
  | _, _ => count

namespace ElementSet

/-- Puts back an element that was edited, and tells of it if asked to or if the number of
dirty elements changed. -/
def close (s : ElementSet τ) (was : Bool) (announce : Bool) (e : Element τ) :
    ElementSet τ × Option Notice :=
  let dirty := adjust s.dirty was (e.isDirty s.decl.kind)
  ({ s.insert e with dirty := dirty },
    if announce || dirty != s.dirty then some (.ofMove s.dirty dirty) else none)

/-- The set with an element for a record, and whether that element had something to tell
before.  A new element takes the next position; an absent one comes back with its own
record. -/
def open? (s : ElementSet τ) (record : Record τ) :
    Except RecordError (ElementSet τ × Element τ × Bool) :=
  match s.find? record.id with
  | none =>
    .ok (match s.decl.kind with
      | .ordered =>
        ({ s with nextPosition := s.nextPosition + 1 },
          .fresh .ordered record s.nextPosition, false)
      | .unordered => (s, .fresh .unordered record 0, false))
  | some e =>
    if e.isPresent s.decl.kind then .error (.duplicateElement record.id)
    else
      let needsPosition := s.decl.kind == .ordered && !e.isRemotePresent s.decl.kind
      .ok ({ s with
          nextPosition := if needsPosition then s.nextPosition + 1 else s.nextPosition },
        e.reinstate s.decl.kind s.nextPosition, e.isDirty s.decl.kind)

/-- Removes an element that the user sees. -/
def removeElement (s : ElementSet τ) (id : Int) :
    ElementSet τ × Option Notice × SetOutcome :=
  match s.present? id with
  | none => (s, none, .refused (.unknownElement id))
  | some e =>
    let kind := s.decl.kind
    let gone := e.markAbsent kind
    let (after, is) :=
      if !e.isRemotePresent kind && !e.sent then (s.erase id, false)
      else (s.insert gone, gone.isDirty kind)
    let dirty := adjust s.dirty (e.isDirty kind) is
    ({ after with dirty := dirty }, some (.ofMove s.dirty dirty), .done)

def move (s : ElementSet τ) (e : Element τ) (position : Int) : ElementSet τ :=
  let moved := { e with position := e.position.write position }
  { s.insert moved with
    dirty := adjust s.dirty (e.isDirty s.decl.kind) (moved.isDirty s.decl.kind) }

/-- Exchanges the positions of two elements that the user sees. -/
def swapElements (s : ElementSet τ) (first second : Int) :
    ElementSet τ × Option Notice × SetOutcome :=
  if s.decl.kind ≠ .ordered then (s, none, .refused .swapUnordered)
  else
    match s.present? first, s.present? second with
    | none, _ => (s, none, .refused (.unknownElement first))
    | _, none => (s, none, .refused (.unknownElement second))
    | some a, some b =>
      if first = second then (s, none, .done)
      else
        let after := (s.move a b.position.current).move b a.position.current
        (after, some (.ofMove s.dirty after.dirty), .done)

end ElementSet

namespace Record

def writeField (r : Record τ) (field : String) (value : Value) :
    Record τ × Option Notice × Outcome :=
  match SortedList.find? Field.name field r.fields with
  | none => (r, none, .ignored)
  | some f =>
    if f.decl.kind.Holds value then
      let notice := (f.value.writeTransition value).notice? r.dirty
      let dirty := dirtyAfter r.dirty notice
      let written := { f with value := f.value.write value }
      let fields := SortedList.modify Field.name field (fun _ => written) r.fields
      ({ r with dirty := dirty, fields := fields }, notice, .wrote value dirty)
    else (r, none, .ignored)

/-- The record after an edit of one of its sets, with the notice that the record passes
on. -/
def afterSetEdit (r : Record τ) (s : ElementSet τ) (notice : Option Notice)
    (result : SetOutcome) : Record τ × Option Notice × Outcome :=
  let told := notice.map (Notice.enclose r.dirty)
  ({ r.withSet s with dirty := dirtyAfter r.dirty told }, told,
    .within result s.dirty s.length)

end Record

variable [Catalog τ]

/-- The clean record that a seed gives. -/
def Seed.record (type : τ) : Seed → Except RecordError (Record τ)
  | .blank id => .ok (.blank type id)
  | .message content => Record.ofMessage type content

mutual

def Record.edit (r : Record τ) : Edit → Record τ × Option Notice × Outcome
  | .write field value => r.writeField field value
  | .within set edit =>
    match r.set? set with
    | none => (r, none, .ignored)
    | some s =>
      let (after, notice, result) := s.edit edit
      r.afterSetEdit after notice result

/-- Changes a record by edits one after another; gives the notice and the outcome of
each. -/
def Record.editAll (r : Record τ) : List Edit → Record τ × List (Option Notice × Outcome)
  | [] => (r, [])
  | edit :: rest =>
    let (r, notice, outcome) := r.edit edit
    let (r, others) := r.editAll rest
    (r, (notice, outcome) :: others)

def ElementSet.edit (s : ElementSet τ) :
    SetEdit → ElementSet τ × Option Notice × SetOutcome
  | .add seed edits =>
    match (seed.record s.decl.element).bind s.open? with
    | .error e => (s, none, .refused e)
    | .ok (opened, e, was) =>
      let (record, inner) := e.record.editAll edits
      let (after, notice) := opened.close was true { e with record := record }
      (after, notice, .edited record.id record.dirty (inner.map (·.2)))
  | .update id edits =>
    match s.present? id with
    | none => (s, none, .refused (.unknownElement id))
    | some e =>
      let (record, inner) := e.record.editAll edits
      let (after, notice) := s.close (e.isDirty s.decl.kind) (inner.any (·.1.isSome))
        { e with record := record }
      (after, notice, .edited record.id record.dirty (inner.map (·.2)))
  | .remove id => s.removeElement id
  | .swap first second => s.swapElements first second

end

/-- The notices that a run of edits fires. -/
def firedNotices (steps : List (Option Notice × Outcome)) : List Notice :=
  steps.filterMap (·.1)

end RecordSync
