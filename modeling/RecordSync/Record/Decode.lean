import RecordSync.Record.Basic

/-!
# Records from messages

A message of a whole record is decoded into a clean record of a given type.  Fields that
the message does not name take their defaults, and parts that the type does not declare
are ignored.

**Elements.**  An element that is marked as deleted is passed over.  In an ordered set
each other element needs a position that is not negative and that no earlier one has, and
in any set an id that no earlier one has.
-/

namespace RecordSync

variable {τ : Type}

/-- The clean field that the fields of a message give. -/
def Field.ofFields (fields : List (String × Value)) (decl : FieldDecl) :
    Except RecordError Field :=
  (decl.kind.read decl.name ((SortedList.find? Prod.fst decl.name fields).map Prod.snd)).map
    (Field.clean decl)

/-- The position at which an element with this message is loaded into a set: an unordered
set has none, in an ordered set it must be given and free. -/
def ElementSet.placeFor (s : ElementSet τ) (id : Int) (position : Option Int) :
    Except RecordError Int :=
  match s.decl.kind with
  | .unordered => .ok 0
  | .ordered =>
    match position with
    | some p =>
      if p < 0 then .error (.unplaced id)
      else if s.elements.any (fun e => e.position.current == p) then .error
        (.sharedPosition p)
      else .ok p
    | none => .error (.unplaced id)

/-- Adds a loaded element to a set that has none of its id. -/
def ElementSet.addLoaded (s : ElementSet τ) (record : Record τ) (position : Int) :
    Except RecordError (ElementSet τ) :=
  if (s.find? record.id).isSome then .error (.duplicateElement record.id)
  else .ok { s.insert (.loaded record position) with
    nextPosition := max s.nextPosition (position + 1) }

variable [Catalog τ]

mutual

/-- The clean record of a type that a message describes. -/
def Record.ofMessage (type : τ) : Message → Except RecordError (Record τ)
  | ⟨id, fields, children, _, _, _⟩ => do
    let own ← (Catalog.fields type).mapM (Field.ofFields fields)
    let sets ← (Catalog.sets type).mapM (fun decl => ElementSet.ofGroups decl children)
    .ok ⟨type, id, 0, own, sets⟩

/-- The clean set whose elements the group of its name describes. -/
def ElementSet.ofGroups (decl : SetDecl τ) :
    List Group → Except RecordError (ElementSet τ)
  | [] => .ok (.blank decl)
  | ⟨name, members⟩ :: rest =>
    if name = decl.name then ElementSet.load (.blank decl) members
    else ElementSet.ofGroups decl rest

/-- Loads elements into a set, one message after another. -/
def ElementSet.load (s : ElementSet τ) : List Message → Except RecordError (ElementSet τ)
  | [] => .ok s
  | message :: rest =>
    if message.deleted = some true then ElementSet.load s rest
    else do
      let position ← s.placeFor message.id message.position
      let record ← Record.ofMessage s.decl.element message
      let s ← s.addLoaded record position
      ElementSet.load s rest

end

def ElementSet.ofMessages (decl : SetDecl τ) (messages : List Message) :
    Except RecordError (ElementSet τ) :=
  ElementSet.load (.blank decl) messages

end RecordSync
