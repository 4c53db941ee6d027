import RecordSync.RecordError
import RecordSync.SortedList
import RecordSync.Value

/-!
# Messages

A message carries a record between a client and the server.  The same shape serves a whole
record and a sparse patch: a patch names only the changed fields and the changed elements.

For an element that moved in an ordered set, `position` is the place the server is thought
to hold and `swapPosition` the new one; a `swapPosition` of `absentPosition` removes the
element.  In a set without an order `deleted` says whether the element goes or stays.

Fields and groups of children are kept in the order of their names.
-/

namespace RecordSync

/-- The position of an element that is not in its ordered set. -/
def absentPosition : Int := -1

mutual

/-- A record, or a change of one, in transit. -/
structure Message where
  id : Int
  fields : List (String × Value)
  /-- The messages of elements, grouped by set. -/
  children : List Group
  /-- The place in the ordered set that holds the record. -/
  position : Option Int
  /-- The place to move to. -/
  swapPosition : Option Int
  /-- The record leaves its set, or is to be in it. -/
  deleted : Option Bool

structure Group where
  name : String
  /-- The messages, in the order in which they were added. -/
  members : List Message

end

namespace Message

/-- A message that carries nothing beyond an id. -/
def blank (id : Int) : Message :=
  ⟨id, [], [], none, none, none⟩

instance : Inhabited Message := ⟨blank 0⟩

/-- The message carries nothing beyond its id. -/
def isBare (m : Message) : Bool :=
  m.fields.isEmpty && m.children.isEmpty && m.position.isNone && m.swapPosition.isNone &&
    m.deleted.isNone

def withField (m : Message) (name : String) (value : Value) : Message :=
  { m with fields := SortedList.insert Prod.fst (name, value) m.fields }

def field? (m : Message) (name : String) : Option Value :=
  (SortedList.find? Prod.fst name m.fields).map Prod.snd

def childrenOf (m : Message) (set : String) : List Message :=
  match SortedList.find? Group.name set m.children with
  | some group => group.members
  | none => []

/-- Adds the message of an element at the end of its group. -/
def withChild (m : Message) (set : String) (child : Message) : Message :=
  { m with children := SortedList.insert Group.name ⟨set,
    m.childrenOf set ++ [child]⟩ m.children }

/-- Adds the messages of elements of one set; none leave the message as it is. -/
def withChildren (m : Message) (set : String) (children : List Message) : Message :=
  children.foldl (fun m child => m.withChild set child) m

def withPosition (m : Message) (position : Int) : Message :=
  { m with position := some position }

mutual

/-- Decides whether two messages are equal. -/
def decEq : (a b : Message) → Decidable (a = b)
  | ⟨i, f, c, p, s, d⟩, ⟨i', f', c', p', s', d'⟩ =>
    if own : i = i' ∧ f = f' ∧ p = p' ∧ s = s' ∧ d = d' then
      match groupsDecEq c c' with
      | isTrue same => isTrue (by simp [own, same])
      | isFalse differ => isFalse (fun e => differ (Message.mk.inj e).2.2.1)
    else isFalse (fun e => own (by simp_all))

def groupsDecEq : (a b : List Group) → Decidable (a = b)
  | [], [] => isTrue rfl
  | [], _ :: _ => isFalse (by simp)
  | _ :: _, [] => isFalse (by simp)
  | ⟨n, ms⟩ :: r, ⟨n', ms'⟩ :: r' =>
    if name : n = n' then
      match messagesDecEq ms ms', groupsDecEq r r' with
      | isTrue same, isTrue rest => isTrue (by simp [name, same, rest])
      | isFalse differ, _ => isFalse (by simp [differ])
      | _, isFalse differ => isFalse (by simp [differ])
    else isFalse (by simp [name])

def messagesDecEq : (a b : List Message) → Decidable (a = b)
  | [], [] => isTrue rfl
  | [], _ :: _ => isFalse (by simp)
  | _ :: _, [] => isFalse (by simp)
  | m :: r, m' :: r' =>
    match decEq m m', messagesDecEq r r' with
    | isTrue same, isTrue rest => isTrue (by simp [same, rest])
    | isFalse differ, _ => isFalse (by simp [differ])
    | _, isFalse differ => isFalse (by simp [differ])

end

instance : DecidableEq Message := decEq

end Message

namespace FieldKind

/-- The content of a field read from a message: an absent or null value gives the default
of the kind, and a value of another kind is refused. -/
def read (kind : FieldKind) (field : String) : Option Value → Except RecordError Value
  | none | some .null => .ok kind.default
  | some value =>
    match kind.coerce? value with
    | some content => .ok content
    | none => .error (.fieldKind field value.kindName kind.name)

theorem read_none (kind : FieldKind) (field : String) :
    kind.read field none = .ok kind.default := rfl

theorem read_of_holds {kind : FieldKind} {value : Value} (field : String)
    (h : kind.Holds value = true) : kind.read field (some value) = .ok value := by
  cases value with
  | null => cases kind <;> simp [Holds] at h
  | _ => simp [read, coerce?_of_holds h]

end FieldKind
end RecordSync
