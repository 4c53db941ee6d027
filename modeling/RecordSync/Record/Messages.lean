import RecordSync.Record.Basic

/-!
# What a record tells

The views of a record that leave it: the delta and the patch of what the server has not
been told, and whole messages of what the user sees and of the baseline.

**Delta and patch.**  Both name the same changes.  The delta is kept until the server has
answered; the patch is the message that is sent.  For an element whose position changed
the patch says from where to where.  An absent element tells its removal and nothing of
its own parts.

**Whole messages.**  They name every field.  Elements of an ordered set stand in the order
of their positions and carry them.
-/

namespace RecordSync

variable {τ : Type}

def fieldDeltas (fields : List Field) : List (String × Value) :=
  fields.filterMap (fun f => f.value.delta?.map (fun value => (f.name, value)))

mutual

/-- What the record holds beyond its baseline. -/
def Record.delta : Record τ → Delta
  | ⟨_, _, _, fields, sets⟩ => ⟨fieldDeltas fields, setDeltas sets⟩

def setDeltas : List (ElementSet τ) → List SetDelta
  | [] => []
  | ⟨decl, elements, _, _⟩ :: rest =>
    match elementDeltas decl.kind elements with
    | [] => setDeltas rest
    | changed => ⟨decl.name, changed⟩ :: setDeltas rest

def elementDeltas (kind : SetKind) : List (Element τ) → List ElementDelta
  | [] => []
  | ⟨record, position, deleted, sent⟩ :: rest =>
    let e : Element τ := ⟨record, position, deleted, sent⟩
    if e.isDirty kind then
      ⟨record.id, if e.isPresent kind then record.delta else .empty, position.delta?,
        deleted.delta?⟩ :: elementDeltas kind rest
    else elementDeltas kind rest

end

/-- The fields of a message from the fields that are named in order of declaration. -/
def messageFields (fields : List (String × Value)) : List (String × Value) :=
  SortedList.ofList Prod.fst fields

/-- The groups of a message from the groups in order of declaration; an empty group is
left out. -/
def messageGroups (groups : List Group) : List Group :=
  SortedList.ofList Group.name (groups.filter (fun g => !g.members.isEmpty))

/-- Marks the message of an element with the change of its presence. -/
def Message.withPresence (m : Message) (position : Tracked Int) (deleted : Tracked Bool) :
    Message :=
  { m with
    position := if position.isDirty then some position.remote else none
    swapPosition := position.delta?
    deleted := deleted.delta? }

mutual

/-- The message that tells the server of the record's changes. -/
def Record.patch : Record τ → Message
  | ⟨_, id, _, fields, sets⟩ =>
    ⟨id, messageFields (fieldDeltas fields), messageGroups (setPatches sets), none, none, none⟩

def setPatches : List (ElementSet τ) → List Group
  | [] => []
  | ⟨decl, elements, _, _⟩ :: rest =>
    ⟨decl.name, elementPatches decl.kind elements⟩ :: setPatches rest

def elementPatches (kind : SetKind) : List (Element τ) → List Message
  | [] => []
  | ⟨record, position, deleted, sent⟩ :: rest =>
    let e : Element τ := ⟨record, position, deleted, sent⟩
    if e.isDirty kind then
      (if e.isPresent kind then record.patch else .blank record.id).withPresence
        position deleted :: elementPatches kind rest
    else elementPatches kind rest

end

/-- The messages of elements in the order of their positions; an ordered set shows the
positions. -/
def placedMessages (kind : SetKind) (messages : List (Int × Message)) : List Message :=
  (SortedList.sortOn Prod.fst messages).map (fun (position, message) =>
    match kind with
    | .ordered => message.withPosition position
    | .unordered => message)

mutual

/-- The whole record as the baseline has it. -/
def Record.remoteMessage : Record τ → Message
  | ⟨_, id, _, fields, sets⟩ =>
    ⟨id, messageFields (fields.map (fun f => (f.name, f.value.remote))),
      messageGroups (setRemoteGroups sets), none, none, none⟩

/-- The baseline elements of sets, by the sets' names. -/
def setRemoteGroups : List (ElementSet τ) → List Group
  | [] => []
  | ⟨decl, elements, _, _⟩ :: rest =>
    ⟨decl.name, placedMessages decl.kind (remoteElements decl.kind elements)⟩ ::
      setRemoteGroups rest

/-- The messages of the baseline elements, with their baseline positions. -/
def remoteElements (kind : SetKind) : List (Element τ) → List (Int × Message)
  | [] => []
  | ⟨record, position, deleted, sent⟩ :: rest =>
    let e : Element τ := ⟨record, position, deleted, sent⟩
    if e.isRemotePresent kind then
      (position.remote, record.remoteMessage) :: remoteElements kind rest
    else remoteElements kind rest

end

/-- The sort key of an element that the user sees: its position in an ordered set, none in
another. -/
def seenPosition (kind : SetKind) (position : Tracked Int) : Int :=
  match kind with
  | .ordered => position.current
  | .unordered => 0

mutual

/-- The whole record as the user sees it. -/
def Record.localMessage : Record τ → Message
  | ⟨_, id, _, fields, sets⟩ =>
    ⟨id, messageFields (fields.map (fun f => (f.name, f.value.current))),
      messageGroups (setLocalGroups sets), none, none, none⟩

/-- The elements that the user sees in sets, by the sets' names. -/
def setLocalGroups : List (ElementSet τ) → List Group
  | [] => []
  | ⟨decl, elements, _, _⟩ :: rest =>
    ⟨decl.name, placedMessages decl.kind
      (localElements decl.kind elements)⟩ :: setLocalGroups rest

/-- The messages of the elements that the user sees, with their positions. -/
def localElements (kind : SetKind) : List (Element τ) → List (Int × Message)
  | [] => []
  | ⟨record, position, deleted, sent⟩ :: rest =>
    let e : Element τ := ⟨record, position, deleted, sent⟩
    if e.isPresent kind then
      (seenPosition kind position, record.localMessage) :: localElements kind rest
    else localElements kind rest

end

namespace ElementSet

def delta (s : ElementSet τ) : List ElementDelta := elementDeltas s.decl.kind s.elements

def patches (s : ElementSet τ) : List Message := elementPatches s.decl.kind s.elements

def remoteMessages (s : ElementSet τ) : List Message :=
  placedMessages s.decl.kind (remoteElements s.decl.kind s.elements)

def localMessages (s : ElementSet τ) : List Message :=
  placedMessages s.decl.kind (localElements s.decl.kind s.elements)

end ElementSet
end RecordSync
