import RecordSync.Proofs.Convergence.Carrying
import RecordSync.Proofs.Store.Contents

/-!
# Nodes by their paths

A path of sets and ids leads from a node to one below it.  A node is decided by what
stands at the end of each path, up to the order of its children, which its message does
not tell: the message sorts them.

The fields of a node are a list in the order of their names, since they are put in one by
one.  This needs a proof along all patches, for a patch may change any node.

**Results.**
* `Node.message_eq_of_view`: nodes that hold the same at the end of each path have one
  message.
* `Node.value?_message`: the message of a node tells the value of each field at its path.
* `Node.Grown.ordered`: the fields of all nodes are in order, whatever patches were given.
-/

namespace RecordSync

/-- The way from a record to one below it: in each step a set and an id. -/
abbrev Path : Type := List (String × Int)

/-- The value that a message tells for a field at the end of a path. -/
def Message.value? (m : Message) (field : String) : Path → Option Value
  | [] => m.field? field
  | (set, id) :: path => (m.child? set id).bind (fun c => c.value? field path)

namespace Node

variable {n n' : Node} {set : String} {id : Int}

/-- The position and the fields of the node at the end of a path. -/
def view (n : Node) : Path → Option (Option Int × List (String × Value))
  | [] => some (n.position, n.fields)
  | (set, id) :: path => (n.child? set id).bind (fun c => c.view path)

section Message

theorem view_cons (n : Node) (set : String) (id : Int) (path : Path) :
    n.view ((set, id) :: path) = (n.child? set id).bind (fun c => c.view path) := rfl

/-- A child is there iff something stands at the end of the path to it. -/
theorem isSome_view_child (n : Node) (set : String) (id : Int) :
    (n.view [(set, id)]).isSome = (n.child? set id).isSome := by
  rw [view_cons]
  cases n.child? set id <;> rfl

/-- What is found below two nodes with the same views has the same views. -/
theorem child?_of_view (views : ∀ path, n.view path = n'.view path) {c : Node}
    (found : n.child? set id = some c) :
    ∃ c', n'.child? set id = some c' ∧ ∀ path, c.view path = c'.view path := by
  have there := n.isSome_view_child set id
  rw [views, n'.isSome_view_child, found] at there
  obtain ⟨c', found'⟩ := Option.isSome_iff_exists.mp there
  refine ⟨c', found', fun path => ?_⟩
  have same := views ((set, id) :: path)
  rwa [view_cons, view_cons, found, found'] at same

theorem mem_entries (keys : (n.children.map childKey).Nodup) {x : String × Message} :
    x ∈ (n.children.filter (fun c => c.1 = set)).map entry ↔
      ∃ id, (n.child? set id).map (fun c => (set, c.placedMessage)) = some x := by
  simp only [List.mem_map, Option.map_eq_some_iff]
  constructor
  · rintro ⟨⟨set', c⟩, there, rfl⟩
    obtain ⟨mem, chosen⟩ := List.mem_filter.mp there
    obtain rfl : set' = set := by simpa using chosen
    exact ⟨c.id, c, (child?_eq_some keys).mpr ⟨mem, rfl⟩, rfl⟩
  · rintro ⟨id, c, found, rfl⟩
    exact ⟨(set, c), List.mem_filter.mpr ⟨((child?_eq_some keys).mp found).1, by simp⟩, rfl⟩

theorem nodup_entry_ids (keys : (n.children.map childKey).Nodup) (set : String) :
    (((n.children.filter (fun c => c.1 = set)).map entry).map (fun c => c.2.id)).Nodup := by
  have ids : ((n.children.filter (fun c => c.1 = set)).map entry).map (fun c => c.2.id) =
      (n.members set).map Node.id := by
    rw [members, List.map_map, List.map_map]
    exact List.map_congr_left (fun c _ => c.2.message_id)
  rw [ids]
  exact nodup_member_ids keys set

/-- The message of a node is decided by its fields and by the messages of its children,
whatever their order. -/
theorem message_congr (keys : (n.children.map childKey).Nodup)
    (keys' : (n'.children.map childKey).Nodup) (id : n.id = n'.id)
    (fields : n.fields = n'.fields)
    (told : ∀ set id, (n.child? set id).map placedMessage =
      (n'.child? set id).map placedMessage) :
    n.message = n'.message := by
  have children : ∀ set, n.message.childrenOf set = n'.message.childrenOf set := by
    intro set
    have perm : ((n.children.filter (fun c => c.1 = set)).map entry).Perm
        ((n'.children.filter (fun c => c.1 = set)).map entry) := by
      refine (List.perm_ext_iff_of_nodup (.of_map _ (nodup_entry_ids keys set))
        (.of_map _ (nodup_entry_ids keys' set))).mpr (fun x => ?_)
      have same : ∀ id, (n.child? set id).map (fun c => (set, c.placedMessage)) =
          (n'.child? set id).map (fun c => (set, c.placedMessage)) := by
        intro id
        have there := congrArg (Option.map (Prod.mk set)) (told set id)
        rwa [Option.map_map, Option.map_map] at there
      simp only [mem_entries keys, mem_entries keys', same]
    rw [childrenOf_message, childrenOf_message, inOrder, inOrder,
      SortedList.sortOn_eq_of_perm perm (List.inj_on_of_nodup_map (nodup_entry_ids keys set))]
  rw [message_eq, message_eq] at children ⊢
  obtain ⟨grouped, id₁, fields₁, position₁, swap₁, deleted₁, -⟩ :=
    Message.foldl_withChild n.bare_grouped (inOrder (n.children.map entry))
  obtain ⟨grouped', id₂, fields₂, position₂, swap₂, deleted₂, -⟩ :=
    Message.foldl_withChild n'.bare_grouped (inOrder (n'.children.map entry))
  exact grouped.ext grouped' (id₁.trans (id.trans id₂.symm))
    (fields₁.trans (fields.trans fields₂.symm)) (position₁.trans position₂.symm)
    (swap₁.trans swap₂.symm) (deleted₁.trans deleted₂.symm) children

/-- Nodes that hold the same at the end of each path have one message, whatever the order
of their children; by induction on the node. -/
theorem message_eq_of_view (branches : n.Branches) (branches' : n'.Branches)
    (id : n.id = n'.id) (views : ∀ path, n.view path = n'.view path) :
    n.message = n'.message := by
  induction n using Node.induction generalizing n' with
  | step n ih =>
      have fields := congrArg Prod.snd (Option.some.inj (views []))
      refine message_congr branches.keys branches'.keys id fields (fun set id => ?_)
      cases found : n.child? set id with
      | none =>
          have gone := n'.isSome_view_child set id
          rw [← views, n.isSome_view_child, found] at gone
          rw [Option.isNone_iff_eq_none.mp (Option.isSome_eq_false_iff.mp gone.symm)]
      | some c =>
          obtain ⟨c', found', same⟩ := child?_of_view views found
          have position : c.position = c'.position :=
            congrArg Prod.fst (Option.some.inj (same []))
          have inner : c.message = c'.message :=
            ih (set, c) ((child?_eq_some branches.keys).mp found).1
              (branches.child? found).branches (branches'.child? found').branches
              ((id_of_child? found).trans (id_of_child? found').symm) same
          rw [found', Option.map_some, Option.map_some, placedMessage, placedMessage,
            inner, position]

/-- The message of a node tells the value of each field at its path. -/
theorem value?_message (branches : n.Branches) (field : String) (path : Path) :
    n.message.value? field path =
      (n.view path).bind (fun x => (SortedList.find? Prod.fst field x.2).map Prod.snd) := by
  induction path generalizing n with
  | nil =>
      show n.message.field? field = _
      rw [Message.field?, message_fields]
      rfl
  | cons step path ih =>
      obtain ⟨set, id⟩ := step
      show (n.message.child? set id).bind _ = _
      rw [child?_message branches.keys, view_cons]
      cases found : n.child? set id with
      | none => rfl
      | some c =>
          have told : c.placedMessage.value? field path =
              c.message.value? field path := by
            cases path <;> rfl
          exact told.trans (ih (branches.child? found).branches)

end Message

section Ordered

/-- The fields of a node and of all nodes below it stand in the order of their names. -/
inductive Ordered : Node → Prop
  | intro {n : Node} :
      SortedList.Sorted Prod.fst n.fields → (∀ c ∈ n.children, Ordered c.2) → Ordered n

theorem Ordered.blank (id : Int) : (Node.blank id).Ordered :=
  .intro List.Pairwise.nil (fun _ hc => absurd hc List.not_mem_nil)

theorem Ordered.sorted (h : n.Ordered) : SortedList.Sorted Prod.fst n.fields := by
  cases h
  assumption

theorem Ordered.congr (h : n.Ordered) (fields : n'.fields = n.fields)
    (children : n'.children = n.children) : n'.Ordered := by
  obtain ⟨sorted, inner⟩ := h
  exact .intro (fields ▸ sorted) (children ▸ inner)

theorem Ordered.child? (h : n.Ordered) {c : Node} (found : n.child? set id = some c) :
    c.Ordered := by
  obtain ⟨x, there, rfl⟩ := Option.map_eq_some_iff.mp found
  cases h with
  | intro _ inner => exact inner x (SortedList.mem_of_find? there)

theorem Ordered.writeFields (h : n.Ordered) (fields : List (String × Value)) :
    (n.writeFields fields).Ordered := by
  obtain ⟨sorted, inner⟩ := h
  exact .intro (SortedList.sorted_foldl_insert sorted fields) inner

theorem Ordered.withChild (h : n.Ordered) {new : Option Node}
    (child : ∀ c, new = some c → c.Ordered) : (n.withChild set id new).Ordered := by
  obtain ⟨sorted, inner⟩ := h
  refine .intro (by cases new <;> exact sorted) (fun c hc => ?_)
  rcases mem_withChild hc with hc | ⟨x, made, rfl⟩
  · exact inner c hc
  · exact child x made

theorem Ordered.view (h : n.Ordered) {path : Path}
    {x : Option Int × List (String × Value)} (hx : n.view path = some x) :
    SortedList.Sorted Prod.fst x.2 := by
  induction path generalizing n with
  | nil =>
      obtain rfl := Option.some.inj hx
      exact h.sorted
  | cons step path ih =>
      obtain ⟨c, found, hx⟩ := Option.bind_eq_some_iff.mp hx
      exact ih (h.child? found) hx

mutual

/-- A message that is accepted leaves the fields of its element in order, at every
depth. -/
theorem applyRecord_ordered {set : String} {mayCreate : Bool} {m : Message}
    {old : Option Node} {new : Node} (ordered : ∀ n, old = some n → n.Ordered)
    (h : applyRecord set mayCreate old m = .ok (some new)) : new.Ordered := by
  obtain ⟨id, fields, children, position, swapPosition, deleted⟩ := m
  obtain ⟨node, placed, h⟩ := applyRecord_eq_ok h
  cases node with
  | none => cases h
  | some node =>
      obtain ⟨n', written, e⟩ := h
      obtain rfl := Option.some.inj e
      have start : node.Ordered := by
        obtain ⟨q, rfl, -⟩ := place_eq_ok placed
        cases old with
        | none => exact (Ordered.blank id).congr rfl rfl
        | some n => exact (ordered n rfl).congr rfl rfl
      exact applyGroups_ordered children (start.writeFields fields) written

theorem applyGroups_ordered {n n' : Node} (groups : List Group) (h : n.Ordered)
    (ha : applyGroups n groups = .ok n') : n'.Ordered := by
  match groups with
  | [] =>
      cases ha
      exact h
  | ⟨set, members⟩ :: rest =>
      obtain ⟨n₁, inner, -, ha⟩ := applyGroups_cons ha
      exact applyGroups_ordered rest (applyMembers_ordered members h inner) ha

theorem applyMembers_ordered {n n' : Node} {set : String} (members : List Message)
    (h : n.Ordered) (ha : applyMembers n set members = .ok n') : n'.Ordered := by
  match members with
  | [] =>
      cases ha
      exact h
  | m :: rest =>
      obtain ⟨new, inner, ha⟩ := applyMembers_cons ha
      refine applyMembers_ordered rest (h.withChild ?_) ha
      rintro c rfl
      exact applyRecord_ordered (fun _ found => h.child? found) inner

end

/-- The fields of all nodes are in order, whatever patches were given. -/
theorem Grown.ordered {allowed : String → Message → Prop} {forest : Node}
    (h : forest.Grown allowed) : forest.Ordered := by
  induction h with
  | bare => exact .blank 0
  | apply _ _ applied ih =>
      obtain ⟨new, made, rfl⟩ := apply_eq_ok applied
      refine ih.withChild ?_
      rintro c rfl
      exact applyRecord_ordered (fun _ found => ih.child? found) made

end Ordered

end Node

end RecordSync
