import RecordSync.Proofs.SortedList
import RecordSync.Store.Load

/-!
# The plain store

The plain store keeps records as trees.  A node has an id, a position, fields, and
children under the names of sets; removing a child removes its whole subtree, and making
one starts it empty.  The roots are the children of one further node, under the names of
their families.

A patch is applied from the root down, child by child in the order of the message, with
the checks of the table: positions from which an element is moved, positions below zero,
missing elements, and two elements of a set on one position.

**Results.**
* `Node.child?_withChild`: the children after one is put in or dropped.
* `Node.applyRecord`, `Node.applyGroups`, `Node.applyMembers`: the application of a patch.
* `Node.message`: the message of a whole node.
-/

namespace RecordSync

/-- A record in the plain store. -/
structure Node where
  id : Int
  /-- The place in the set that holds the node. -/
  position : Option Int
  /-- The values of the fields, by name. -/
  fields : List (String × Value)
  /-- The children with the names of their sets. -/
  children : List (String × Node)

namespace Node

def blank (id : Int) : Node := ⟨id, none, [], []⟩

/-- The node at another position. -/
def moveTo (n : Node) (position : Option Int) : Node :=
  ⟨n.id, position, n.fields, n.children⟩

theorem moveTo_self (n : Node) : n.moveTo n.position = n := by
  cases n
  rfl

/-- What tells a child from its siblings: its set and its id. -/
def childKey (c : String × Node) : String × Int := (c.1, c.2.id)

def child? (n : Node) (set : String) (id : Int) : Option Node :=
  (SortedList.find? childKey (set, id) n.children).map Prod.snd

/-- Drops the child of an id, or puts one in its stead. -/
def withChild (n : Node) (set : String) (id : Int) : Option Node → Node
  | none => { n with children := SortedList.erase childKey (set, id) n.children }
  | some child =>
    { n with children := SortedList.erase childKey (set, id) n.children ++ [(set, child)] }

/-- The children in a set. -/
def members (n : Node) (set : String) : List Node :=
  (n.children.filter (fun c => c.1 = set)).map Prod.snd

def writeFields (n : Node) (fields : List (String × Value)) : Node :=
  { n with fields := fields.foldl (fun acc x => SortedList.insert Prod.fst x acc) n.fields }

def field? (n : Node) (name : String) : Option Value :=
  (SortedList.find? Prod.fst name n.fields).map Prod.snd

/-- What a message makes of the element of its id before it is written to: nothing if the
message removes it. -/
def place (set : String) (mayCreate : Bool) (id : Int) (old : Option Node)
    (position swapPosition : Option Int) (deleted : Option Bool) :
    Except StoreError (Option Node) :=
  match swapPosition with
  | some target =>
    let expected := position.getD absentPosition
    let found := (old.bind (·.position)).getD absentPosition
    if found ≠ expected then .error (.positionConflict id found expected)
    else if target = absentPosition then .ok none
    else if target < 0 then .error (.negativePosition target id)
    else .ok (some ((old.getD (.blank id)).moveTo (some target)))
  | none =>
    match deleted, old with
    | some true, some _ => .ok none
    | some true, none => .error (.missingElement set id)
    | some false, _ => .ok (some (old.getD (.blank id)))
    | none, some node => .ok (some node)
    | none, none =>
      if mayCreate then .ok (some (.blank id)) else .error (.missingElement set id)

/-- The smallest position that two of some nodes share. -/
def sharedPosition? (nodes : List Node) : Option Int :=
  let positions := SortedList.sortOn (fun p => p) (nodes.filterMap Node.position)
  ((positions.zip positions.tail).find? (fun (p, q) => p = q)).map Prod.fst

def checkPositions (n : Node) (set : String) : Except StoreError Unit :=
  match sharedPosition? (n.members set) with
  | some position => .error (.duplicatePosition set position)
  | none => .ok ()

mutual

/-- Applies the message of an element to the element of its id, if there is one. -/
def applyRecord (set : String) (mayCreate : Bool) (old : Option Node) :
    Message → Except StoreError (Option Node)
  | ⟨id, fields, children, position, swapPosition, deleted⟩ => do
    match ← place set mayCreate id old position swapPosition deleted with
    | none => .ok none
    | some node => (applyGroups (node.writeFields fields) children).map some

def applyGroups (n : Node) : List Group → Except StoreError Node
  | [] => .ok n
  | ⟨set, members⟩ :: rest => do
    let n ← applyMembers n set members
    n.checkPositions set
    applyGroups n rest

def applyMembers (n : Node) (set : String) : List Message → Except StoreError Node
  | [] => .ok n
  | message :: rest => do
    let child ← applyRecord set false (n.child? set message.id) message
    applyMembers (n.withChild set message.id child) set rest

end

/-- Applies a patch of a root of a family to the node that holds all roots. -/
def apply (forest : Node) (kind : String) (patch : Message) : Except StoreError Node :=
  (applyRecord kind true (forest.child? kind patch.id) patch).map
    (forest.withChild kind patch.id)

/-- A message with the messages of children added, those without a position first, then by
position, those of one position by id. -/
def withMembers (m : Message) (children : List (String × Message)) : Message :=
  (SortedList.sortOn (fun c : String × Message => c.2.position.getD absentPosition)
    (SortedList.sortOn (fun c : String × Message => c.2.id) children)).foldl
      (fun m c => m.withChild c.1 c.2) m

mutual

/-- The message of a whole node. -/
def message : Node → Message
  | ⟨id, _, fields, children⟩ =>
      withMembers ⟨id, fields, [], none, none, none⟩ (messages children)

/-- The messages of children, each with its position. -/
def messages : List (String × Node) → List (String × Message)
  | [] => []
  | (set, node) :: rest =>
      (set, { node.message with position := node.position }) :: messages rest

end

/-- The root of a family as a message. -/
def load (forest : Node) (kind : String) (id : Int) : Except StoreError Message :=
  match forest.child? kind id with
  | some node => .ok node.message
  | none => .error (.missingRoot kind id)

end Node

end RecordSync
