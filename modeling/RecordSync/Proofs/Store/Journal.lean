import RecordSync.Proofs.Store.Paths

/-!
# The journal of patches

A journal lists what accepted patches did, the newest deed first: a record was named, so
that it is there from then on; a record was removed with all below it; a value was written
to a field.  It is read off the patches alone.  A message that removes its record does
nothing else, whatever fields and elements it carries.

A journal says of every place whether a record is there, and which value was written last
to each of its fields since it was made or brought back.  The plain store holds exactly
that.

**Results.**
* `Journal.at?_named`, `Journal.at?_removed`, `Journal.at?_wrote`: what one deed changes.
* `Message.journal_frame`: a message does nothing to places that are not below its record.
* `Journal.Below.apply`: the plain store follows the journal.
* `Node.below?_message`: what a loaded message tells of the records below it.
-/

namespace RecordSync

/-- Something that an accepted patch did to the record at the end of a path. -/
inductive Deed
  /-- It was made or brought back, unless it was there. -/
  | named (place : Path)
  /-- It was removed, with all below it. -/
  | removed (place : Path)
  | wrote (place : Path) (field : String) (value : Value)
deriving DecidableEq, Repr

/-- What accepted patches did, the newest deed first. -/
abbrev Journal : Type := List Deed

namespace Journal

/-- A record is there: it was named, and since then neither it nor one that holds it was
removed. -/
def stands (place : Path) : Journal → Bool
  | [] => false
  | .named p :: earlier => p == place || stands place earlier
  | .removed p :: earlier => !p.isPrefixOf place && stands place earlier
  | .wrote _ _ _ :: earlier => stands place earlier

/-- The value that was written last to a field of a record since the record was made or
brought back last. -/
def last? (place : Path) (field : String) : Journal → Option Value
  | [] => none
  | .named p :: earlier =>
    if p = place ∧ stands place earlier = false then none else last? place field earlier
  | .removed _ :: earlier => last? place field earlier
  | .wrote p name value :: earlier =>
    if p = place ∧ name = field then some value else last? place field earlier

/-- The values of the fields of a record that is there. -/
def at? (place : Path) (j : Journal) : Option (String → Option Value) :=
  if j.stands place then some (fun field => j.last? place field) else none

/-- The journal after fields of a record were written. -/
def write (place : Path) (fields : List (String × Value)) (j : Journal) : Journal :=
  fields.foldl (fun j x => .wrote place x.1 x.2 :: j) j

end Journal

/-- The message removes its record. -/
def Message.removes (m : Message) : Bool :=
  match m.swapPosition with
  | some target => target == absentPosition
  | none => m.deleted == some true

theorem Message.removes_iff {m : Message} :
    m.removes = true ↔
      m.swapPosition = some absentPosition ∨
      m.swapPosition = none ∧ m.deleted = some true := by
  rw [Message.removes]
  cases m.swapPosition <;> simp

mutual

/-- The journal after the message of the record at a place was accepted. -/
def Message.journal (place : Path) (j : Journal) : Message → Journal
  | ⟨id, fields, children, position, swapPosition, deleted⟩ =>
    if Message.removes ⟨id, fields, children, position, swapPosition, deleted⟩ then
      .removed place :: j
    else journalGroups place (Journal.write place fields (.named place :: j)) children

def journalGroups (place : Path) (j : Journal) : List Group → Journal
  | [] => j
  | ⟨set, members⟩ :: rest =>
      journalGroups place (journalMembers place set j members) rest

def journalMembers (place : Path) (set : String) (j : Journal) : List Message → Journal
  | [] => j
  | message :: rest =>
    journalMembers place set (message.journal (place ++ [(set, message.id)]) j) rest

end

/-- The journal after the patches of a history were accepted. -/
def Journal.after (j : Journal) (history : List (String × Message)) : Journal :=
  history.foldl (fun j x => x.2.journal [(x.1, x.2.id)] j) j

namespace Journal

variable {j j' : Journal} {p place : Path} {set : String} {id : Int}

section Deeds

theorem at?_named (p place : Path) (j : Journal) :
    Journal.at? p (.named place :: j) =
      if place = p then some ((j.at? p).getD (fun _ => none)) else j.at? p := by
  by_cases here : place = p
  · subst here
    cases there : j.stands place <;> simp [at?, stands, last?, there]
  · have other : (place == p) = false := beq_false_of_ne here
    simp [at?, stands, last?, here, other]

theorem at?_removed (p place : Path) (j : Journal) :
    Journal.at? p (.removed place :: j) = if place <+: p then none else j.at? p := by
  by_cases below : place <+: p
  · have gone : place.isPrefixOf p = true := List.isPrefixOf_iff_prefix.mpr below
    simp [at?, stands, below, gone]
  · have kept : place.isPrefixOf p = false := by
      rwa [← Bool.not_eq_true, List.isPrefixOf_iff_prefix]
    simp [at?, stands, last?, below, kept]

theorem at?_wrote (p place : Path) (field : String) (value : Value) (j : Journal) :
    Journal.at? p (.wrote place field value :: j) =
      if place = p then
        (j.at? p).map (fun values name => if field = name then some value else values name)
      else j.at? p := by
  by_cases here : place = p
  · subst here
    cases there : j.stands place <;> simp [at?, stands, last?, there]
  · simp [at?, stands, last?, here]

theorem at?_write_of_ne {fields : List (String × Value)} (other : place ≠ p) :
    Journal.at? p (j.write place fields) = j.at? p := by
  induction fields generalizing j with
  | nil => rfl
  | cons x fields ih =>
      show Journal.at? p (Journal.write place fields (.wrote place x.1 x.2 :: j)) = _
      rw [ih, at?_wrote, if_neg other]

end Deeds

section Frame

theorem not_prefix_of_append {step : String × Int} (outside : ¬ place <+: p) :
    ¬ place ++ [step] <+: p :=
  fun below => outside ((List.prefix_append place [step]).trans below)

/-- What is below one element of a record is not below another one, nor is the record
itself. -/
theorem not_prefix_of_ne {step step' : String × Int} {path : Path}
    (other : step' ≠ step) : ¬ place ++ [step] <+: place ++ step' :: path := by
  rw [List.prefix_append_right_inj, List.cons_prefix_cons]
  exact fun below => other below.1.symm

theorem not_prefix_self {step : String × Int} : ¬ place ++ [step] <+: place :=
  fun below => by simpa using below.length_le

end Frame

end Journal

section Frame

variable {p : Path}

mutual

/-- A message does nothing to places that are not below its record. -/
theorem Message.journal_frame (m : Message) {place : Path} {j : Journal}
    (outside : ¬ place <+: p) : (m.journal place j).at? p = j.at? p := by
  obtain ⟨id, fields, children, position, swapPosition, deleted⟩ := m
  have other : place ≠ p := fun e => outside (e ▸ List.prefix_rfl)
  rw [Message.journal]
  split
  · rw [Journal.at?_removed, if_neg outside]
  · rw [journalGroups_frame children (fun _ _ => Journal.not_prefix_of_append outside),
      Journal.at?_write_of_ne other, Journal.at?_named, if_neg other]

theorem journalGroups_frame (groups : List Group) {place : Path} {j : Journal}
    (outside : ∀ set id, ¬ place ++ [(set, id)] <+: p) :
    (journalGroups place j groups).at? p = j.at? p := by
  match groups with
  | [] => rw [journalGroups]
  | ⟨set, members⟩ :: rest =>
      rw [journalGroups, journalGroups_frame rest outside,
        journalMembers_frame members (outside set)]

theorem journalMembers_frame (members : List Message) {place : Path} {set : String}
    {j : Journal} (outside : ∀ id, ¬ place ++ [(set, id)] <+: p) :
    (journalMembers place set j members).at? p = j.at? p := by
  match members with
  | [] => rw [journalMembers]
  | m :: rest =>
      rw [journalMembers, journalMembers_frame rest outside, m.journal_frame (outside m.id)]

end

end Frame

namespace Node

/-- The values of the fields of the node at the end of a path. -/
def values (n : Node) (path : Path) : Option (String → Option Value) :=
  (n.view path).map (fun x field => (SortedList.find? Prod.fst field x.2).map Prod.snd)

theorem values_nil (n : Node) : n.values [] = some n.field? := rfl

theorem values_cons (n : Node) (set : String) (id : Int) (path : Path) :
    n.values ((set, id) :: path) = (n.child? set id).bind (fun c => c.values path) := by
  rw [values, view_cons, Option.map_bind]
  rfl

end Node

namespace Journal

variable {j j' : Journal} {place : Path} {set : String} {id : Int} {n n' : Node}
  {old new : Option Node}

/-- The journal says of a place and of all below it what a node is, if there is one. -/
def Tells (j : Journal) (place : Path) (old : Option Node) : Prop :=
  ∀ path, j.at? (place ++ path) = old.bind (fun n => n.values path)

/-- The journal says below a place what is below a node. -/
def Below (j : Journal) (place : Path) (n : Node) : Prop :=
  ∀ set id, j.Tells (place ++ [(set, id)]) (n.child? set id)

section Follow

theorem tells_some_iff :
    j.Tells place (some n) ↔ j.at? place = some n.field? ∧ j.Below place n := by
  constructor
  · intro h
    refine ⟨?_, fun set id path => ?_⟩
    · have own := h []
      rwa [List.append_nil] at own
    · have inner := h ((set, id) :: path)
      rwa [Option.bind_some, Node.values_cons, ← List.singleton_append, ← List.append_assoc]
        at inner
  · rintro ⟨own, below⟩ path
    cases path with
    | nil => rwa [List.append_nil]
    | cons step path =>
        obtain ⟨set, id⟩ := step
        have inner := below set id path
        rwa [List.append_assoc, List.singleton_append, ← Node.values_cons] at inner

/-- A record that a message finds or makes is named. -/
theorem Tells.named {mayCreate : Bool} {position swapPosition : Option Int}
    {deleted : Option Bool} (h : j.Tells place old)
    (placed : Node.place set mayCreate id old position swapPosition deleted = .ok (some n)) :
    Journal.Tells (.named place :: j) place (some n) := by
  obtain ⟨q, rfl, -⟩ := Node.place_eq_ok placed
  intro path
  have same : ((old.getD (.blank id)).moveTo q).values path =
      (old.getD (.blank id)).values path := by
    cases path <;> rfl
  rw [at?_named, Option.bind_some, same, h path]
  cases old with
  | some n =>
      cases path with
      | nil => rw [List.append_nil, if_pos rfl]; rfl
      | cons step path => rw [if_neg (by simp)]; rfl
  | none =>
      cases path with
      | nil => rw [List.append_nil, if_pos rfl]; rfl
      | cons step path => rw [if_neg (by simp)]; rfl

theorem Tells.removed (j : Journal) (place : Path) :
    Journal.Tells (.removed place :: j) place none := by
  intro path
  rw [at?_removed, if_pos (List.prefix_append place path)]
  rfl

theorem Tells.writeFields {fields : List (String × Value)} (h : j.Tells place (some n)) :
    (j.write place fields).Tells place (some (n.writeFields fields)) := by
  induction fields generalizing j n with
  | nil =>
      cases n
      exact h
  | cons x fields ih =>
      refine ih (j := .wrote place x.1 x.2 :: j) (n := n.writeFields [x]) ?_
      obtain ⟨own, below⟩ := tells_some_iff.mp h
      refine tells_some_iff.mpr ⟨?_, fun set id path => ?_⟩
      · rw [at?_wrote, if_pos rfl, own, Option.map_some]
        refine congrArg some (funext fun field => ?_)
        show _ = (SortedList.find? Prod.fst field
            (SortedList.insert Prod.fst x n.fields)).map _
        rw [SortedList.find?_insert]
        by_cases same : x.1 = field
        · rw [if_pos same, if_pos same, Option.map_some]
        · rw [if_neg same, if_neg same]
          rfl
      · rw [at?_wrote, if_neg (by simp), below set id path]
        rfl

/-- A child that is put in or dropped, while the journal changed below its place only. -/
theorem Below.withChild (h : j.Below place n) (own : ∀ c, new = some c → c.id = id)
    (told : j'.Tells (place ++ [(set, id)]) new)
    (frame : ∀ p, ¬ place ++ [(set, id)] <+: p → j'.at? p = j.at? p) :
    j'.Below place (n.withChild set id new) := by
  intro set' id'
  rw [Node.child?_withChild own]
  split
  next same =>
    obtain ⟨rfl, rfl⟩ := same
    exact told
  next other =>
    intro path
    rw [frame, h set' id' path]
    rw [List.append_assoc]
    exact not_prefix_of_ne (fun e => other (Prod.mk.inj e))

end Follow

section Apply

theorem place_removes {mayCreate : Bool} {m : Message}
    (placed : Node.place set mayCreate id old m.position m.swapPosition m.deleted = .ok new) :
    m.removes = new.isNone := by
  rw [Bool.eq_iff_iff, Message.removes_iff, Option.isNone_iff_eq_none]
  rcases Node.place_cases placed with ⟨gone, removal⟩ | ⟨target, moved, swap, here, -⟩ |
    ⟨stays, swap, unmarked, -⟩
  · simp [gone, removal]
  · simp [moved, swap, here]
  · simp [stays, swap, unmarked]

mutual

/-- A message that is accepted does what its journal says. -/
theorem Tells.applyRecord {m : Message} {j : Journal} {place : Path} {set : String}
    {mayCreate : Bool} {old new : Option Node} (h : j.Tells place old)
    (proper : ∀ n, old = some n → n.Proper ∧ n.id = m.id)
    (ha : Node.applyRecord set mayCreate old m = .ok new) :
    (m.journal place j).Tells place new := by
  obtain ⟨id, fields, children, position, swapPosition, deleted⟩ := m
  obtain ⟨node, placed, ha⟩ := Node.applyRecord_eq_ok ha
  rw [Message.journal, place_removes placed]
  cases node with
  | none =>
      obtain rfl := ha
      exact Tells.removed j place
  | some node =>
      obtain ⟨n', written, rfl⟩ := ha
      have start : (Journal.write place fields (.named place :: j)).Tells place
          (some (node.writeFields fields)) := (h.named placed).writeFields
      obtain ⟨own, below⟩ := tells_some_iff.mp start
      obtain ⟨hp, -⟩ := Node.place_proper proper placed
      have inner := Below.applyGroups children below (hp.writeFields fields) written
      obtain ⟨-, -, -, same⟩ :=
        Node.applyGroups_proper children (hp.writeFields fields) written
      refine tells_some_iff.mpr ⟨?_, inner⟩
      refine (journalGroups_frame children (fun _ _ => not_prefix_self)).trans
        (own.trans ?_)
      exact congrArg some (funext fun field => by rw [Node.field?, Node.field?, same])

theorem Below.applyGroups {j : Journal} {place : Path} {n n' : Node} (groups : List Group)
    (h : j.Below place n) (proper : n.Proper) (ha : Node.applyGroups n groups = .ok n') :
    (journalGroups place j groups).Below place n' := by
  match groups with
  | [] =>
      cases ha
      rwa [journalGroups]
  | ⟨set, members⟩ :: rest =>
      obtain ⟨n₁, inner, checked, ha⟩ := Node.applyGroups_cons ha
      obtain ⟨branches, others, -, hp, -⟩ :=
        Node.applyMembers_branches set members proper.branches inner
      rw [journalGroups]
      exact Below.applyGroups rest (Below.applyMembers members h proper.branches inner)
        (proper.checked branches others hp checked) ha

theorem Below.applyMembers {j : Journal} {place : Path} {n n' : Node} {set : String}
    (members : List Message) (h : j.Below place n) (branches : n.Branches)
    (ha : Node.applyMembers n set members = .ok n') :
    (journalMembers place set j members).Below place n' := by
  match members with
  | [] =>
      cases ha
      rwa [journalMembers]
  | m :: rest =>
      obtain ⟨new, inner, ha⟩ := Node.applyMembers_cons ha
      have proper := branches.child_proper inner
      rw [journalMembers]
      refine Below.applyMembers rest (h.withChild (fun c e => (proper c e).2) ?_ ?_)
        (branches.withChild proper) ha
      · exact Tells.applyRecord (h set m.id)
          (fun c found => ⟨branches.child? found, Node.id_of_child? found⟩) inner
      · exact fun p outside => m.journal_frame outside

end

/-- The forest follows the journal. -/
theorem Below.apply {forest forest' : Node} {kind : String} {patch : Message}
    (h : j.Below [] forest) (branches : forest.Branches)
    (ha : forest.apply kind patch = .ok forest') :
    (patch.journal [(kind, patch.id)] j).Below [] forest' := by
  obtain ⟨new, made, rfl⟩ := Node.apply_eq_ok ha
  have proper := branches.child_proper made
  refine h.withChild (fun c e => (proper c e).2) ?_ ?_
  · exact (h kind patch.id).applyRecord
      (fun c found => ⟨branches.child? found, Node.id_of_child? found⟩) made
  · exact fun p outside => patch.journal_frame outside

end Apply

end Journal

section Loading

/-- The message of the record at the end of a path below a record. -/
def Message.below? (m : Message) : Path → Option Message
  | [] => some m
  | (set, id) :: path => (m.child? set id).bind (fun c => c.below? path)

/-- The message of a node tells the fields of all nodes below it. -/
theorem Node.below?_message {n : Node} (branches : n.Branches) (path : Path) :
    (n.message.below? path).map Message.field? = n.values path := by
  induction path generalizing n with
  | nil =>
      rw [Message.below?, Option.map_some, Node.values_nil]
      refine congrArg some (funext fun field => ?_)
      rw [Message.field?, message_fields, Node.field?]
  | cons step path ih =>
      obtain ⟨set, id⟩ := step
      rw [Message.below?, child?_message branches.keys, Node.values_cons]
      cases found : n.child? set id with
      | none => rfl
      | some c =>
          rw [Option.map_some, Option.bind_some, Option.bind_some,
            ← ih (branches.child? found).branches]
          cases path <;> rfl

end Loading

end RecordSync
