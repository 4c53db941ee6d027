import RecordSync.Proofs.Message
import RecordSync.Proofs.Store.Refinement
import RecordSync.Store.Load

/-!
# Reading the table

A row is read as a message of all that it shows.  The order in which the table has its
rows is not seen in the message, nor is anything that a tombstone still holds; reading
ends because a row comes after the row that holds it.

**Results.**
* `Node.childrenOf_message`: the message of a node, set by set.
* `Store.Sound.readRow`: a row that shows a node is read as the message of the node.
* `Store.ShowsForest.load`: a table that shows a forest loads what the forest loads.
-/

namespace RecordSync

namespace Node

variable {n : Node} {set : String}

/-- The message of a child, with its position. -/
def placedMessage (n : Node) : Message := { n.message with position := n.position }

/-- A child as it is added to the message of the node. -/
def entry (c : String × Node) : String × Message := (c.1, c.2.placedMessage)

theorem messages_eq (children : List (String × Node)) :
    messages children = children.map entry := by
  induction children with
  | nil => rfl
  | cons c children ih =>
      obtain ⟨set, node⟩ := c
      rw [messages, ih]
      rfl

/-- Children in the order in which they are added to a message. -/
def inOrder (children : List (String × Message)) : List (String × Message) :=
  SortedList.sortOn (fun c => c.2.position.getD absentPosition)
    (SortedList.sortOn (fun c => c.2.id) children)

theorem inOrder_perm (children : List (String × Message)) :
    (inOrder children).Perm children :=
  (SortedList.sortOn_perm _).trans (SortedList.sortOn_perm _)

theorem filter_inOrder (p : String × Message → Bool)
    (children : List (String × Message)) :
    (inOrder children).filter p = inOrder (children.filter p) := by
  rw [inOrder, SortedList.filter_sortOn, SortedList.filter_sortOn, inOrder]

def bare (n : Node) : Message := ⟨n.id, n.fields, [], none, none, none⟩

theorem bare_grouped (n : Node) : n.bare.Grouped := ⟨List.Pairwise.nil, nofun⟩

theorem message_eq (n : Node) :
    n.message = (inOrder (n.children.map entry)).foldl (fun m c => m.withChild c.1 c.2)
      n.bare := by
  obtain ⟨id, position, fields, children⟩ := n
  rw [message, messages_eq]
  rfl

theorem message_id (n : Node) : n.message.id = n.id := by
  rw [message_eq]
  exact (Message.foldl_withChild n.bare_grouped _).2.1

theorem message_fields (n : Node) : n.message.fields = n.fields := by
  rw [message_eq]
  exact (Message.foldl_withChild n.bare_grouped _).2.2.1

theorem message_deleted (n : Node) : n.message.deleted = none := by
  rw [message_eq]
  exact (Message.foldl_withChild n.bare_grouped _).2.2.2.2.2.1

/-- The message of a node holds of each set its children, in order. -/
theorem childrenOf_message (n : Node) (set : String) :
    n.message.childrenOf set =
      (inOrder ((n.children.filter (fun c => c.1 = set)).map entry)).map Prod.snd := by
  have held :=
    (Message.foldl_withChild n.bare_grouped (inOrder (n.children.map entry))).2.2.2.2.2.2
  rw [message_eq, held, filter_inOrder, List.filter_map]
  rfl

/-- The elements that the message of a node has of a set are the messages of its children
there. -/
theorem childrenOf_message_perm (n : Node) (set : String) :
    (n.message.childrenOf set).Perm ((n.members set).map placedMessage) := by
  have sorted :=
    (inOrder_perm ((n.children.filter (fun c => c.1 = set)).map entry)).map Prod.snd
  rw [childrenOf_message, members, List.map_map]
  rwa [List.map_map] at sorted

theorem mem_childrenOf_message {m : Message} :
    m ∈ n.message.childrenOf set ↔ ∃ c ∈ n.members set, c.placedMessage = m := by
  rw [(childrenOf_message_perm n set).mem_iff, List.mem_map]

theorem nodup_message_ids (keys : (n.children.map childKey).Nodup) (set : String) :
    ((n.message.childrenOf set).map Message.id).Nodup := by
  rw [((childrenOf_message_perm n set).map Message.id).nodup_iff, List.map_map,
    List.map_congr_left (fun c _ => c.message_id)]
  exact nodup_member_ids keys set

/-- The message of a node has of each id the message of the child of the id. -/
theorem child?_message (keys : (n.children.map childKey).Nodup) (set : String)
    (id : Int) : n.message.child? set id = (n.child? set id).map placedMessage := by
  have ids : ((n.members set).map placedMessage).map Message.id =
      (n.members set).map Node.id := by
    rw [List.map_map]
    exact List.map_congr_left (fun c _ => c.message_id)
  rw [Message.child?, SortedList.find?_perm (childrenOf_message_perm n set)
    (nodup_message_ids keys set)]
  cases found : n.child? set id with
  | none =>
      rw [SortedList.find?_eq_none_iff.mpr]
      · rfl
      · rintro m hm same
        obtain ⟨c, hc, rfl⟩ := List.mem_map.mp hm
        have := (mem_members keys).mp hc
        rw [show c.id = id from c.message_id.symm.trans same, found] at this
        cases this
  | some c =>
      obtain rfl := id_of_child? found
      have mem : c.placedMessage ∈ (n.members set).map placedMessage :=
        List.mem_map_of_mem ((mem_members keys).mpr found)
      rw [← c.message_id]
      exact SortedList.find?_of_mem (ids ▸ nodup_member_ids keys set) mem

end Node

namespace Store

variable {U : Set Bytes} {s : Store} {row : Row} {n : Node}

section Order

/-- A live row as it is added to the message of the row that holds it, when that row shows
a node. -/
def entry (n : Node) (row : Row) : String × Message :=
  (row.set, { ((n.child? row.set row.id).getD (.blank row.id)).message with
    position := row.position })

theorem entry_id (n : Node) (row : Row) : (entry n row).2.id = row.id := by
  show ((n.child? row.set row.id).getD (.blank row.id)).message.id = row.id
  rw [Node.message_id]
  cases found : n.child? row.set row.id with
  | none => rfl
  | some c => exact Node.id_of_child? found

theorem map_entry_id (n : Node) (rows : List Row) :
    (rows.map (entry n)).map (fun c => c.2.id) = rows.map Row.id := by
  rw [List.map_map]
  exact List.map_congr_left (fun row _ => entry_id n row)

theorem childRows_eq (s : Store) (n : Node) (number : Nat) :
    (s.childRows number).map (entry n) =
      Node.inOrder ((s.rows.filter (fun row => row.parent == number && !row.deleted)).map
        (entry n)) := by
  rw [Node.inOrder, SortedList.sortOn_map (entry n),
    SortedList.sortOn_map (entry n), childRows]
  have ids : (fun row => (entry n row).2.id) = Row.id := funext (entry_id n)
  rw [ids]
  rfl

/-- The live rows of a set and the children in it are added to a message as the same
entries. -/
theorem Sound.entries_perm (h : s.Sound U) {number : Nat} (shows : s.Shows number n)
    (branches : n.Branches) (set : String) :
    ((s.liveElements number set).map (entry n)).Perm
      ((n.children.filter (fun c => c.1 = set)).map Node.entry) := by
  have slots := shows_iff.mp shows set
  have ids : ((n.children.filter (fun c => c.1 = set)).map Node.entry).map
      (fun c => c.2.id) = (n.members set).map Node.id := by
    rw [Node.members, List.map_map, List.map_map]
    exact List.map_congr_left (fun c _ => c.2.message_id)
  refine (List.perm_ext_iff_of_nodup (List.Nodup.of_map _ (map_entry_id n _ ▸
      nodup_live_ids h.tabled _ set))
    (List.Nodup.of_map _ (ids ▸ Node.nodup_member_ids branches.keys set))).mpr ?_
  have shown : ∀ row c, row.set = set → n.child? set row.id = some c → s.RowShows row c →
      entry n row = Node.entry (set, c) := by
    rintro row c rfl found data
    rw [entry, found, Node.entry, Node.placedMessage, data.position_eq]
    rfl
  intro x
  rw [List.mem_map, List.mem_map]
  constructor
  · rintro ⟨row, mem, rfl⟩
    have live := (mem_liveElements h.tabled).mp mem
    obtain ⟨c, found, data, -⟩ := (slots row.id).eq_some live
    refine ⟨(set, c), ?_,
      (shown row c (key_of_find? (live?_eq_some.mp live).1).2.2.1 found data).symm⟩
    exact List.mem_filter.mpr ⟨((Node.child?_eq_some branches.keys).mp found).1, by simp⟩
  · rintro ⟨⟨set', c⟩, there, rfl⟩
    obtain ⟨mem, chosen⟩ := List.mem_filter.mp there
    obtain rfl : set' = set := by simpa using chosen
    have found : n.child? set' c.id = some c :=
      (Node.child?_eq_some branches.keys).mpr ⟨mem, rfl⟩
    have slot := slots c.id
    rw [found] at slot
    obtain ⟨row, live, data, -⟩ := slot
    have id := data.id_eq
    refine ⟨row, (mem_liveElements h.tabled).mpr (by rwa [← id]), ?_⟩
    exact shown row c (key_of_find? (live?_eq_some.mp live).1).2.2.1 (by rwa [← id]) data

end Order

section Read

/-- The fields of a row that has the data of a node are read as those of the node. -/
theorem RowShows.readFields (h : s.RowShows row n) :
    row.fields.mapM (fun (field, content) => s.readContent field content) =
      .ok n.fields := by
  rw [h.fields_eq]
  have available := h.available
  generalize n.fields = fields at available
  induction fields with
  | nil => rfl
  | cons x fields ih =>
      have here : s.readContent x.1 (s.content x.2) = .ok x := by
        obtain ⟨field, value⟩ := x
        have there := available _ List.mem_cons_self
        cases value with
        | bytes b =>
            rw [content, readContent, there b rfl]
        | null => rfl
        | text _ => rfl
        | integer _ => rfl
        | real _ => rfl
        | boolean _ => rfl
      rw [List.map_cons, List.mapM_cons]
      show (s.readContent x.1 (s.content x.2) >>= _) = _
      rw [here, ih (fun y hy => available y (List.mem_cons_of_mem x hy))]
      rfl

theorem mapM_eq_ok_map {ε α β : Type} {f : α → Except ε β} {g : α → β} {l : List α}
    (h : ∀ x ∈ l, f x = .ok (g x)) : l.mapM f = .ok (l.map g) := by
  induction l with
  | nil => rfl
  | cons x l ih =>
      rw [List.mapM_cons, h x List.mem_cons_self,
        ih (fun y hy => h y (List.mem_cons_of_mem x hy))]
      rfl

/-- A row that shows a node is read as the message of the node. -/
theorem Sound.readRow (h : s.Sound U) {levels : Nat} (data : s.RowShows row n)
    (shows : s.Shows row.number n) (branches : n.Branches)
    (bound : row.number ≤ s.rows.length) (deep : s.rows.length < levels + row.number) :
    s.readRow levels row = .ok n.message := by
  induction levels generalizing row n with
  | zero => omega
  | succ levels ih =>
      have slots := shows_iff.mp shows
      have inner : ∀ child ∈ s.childRows row.number,
          (do let message ← s.readRow levels child
              Except.ok (child.set, { message with position := child.position })) =
            .ok (entry n child) := by
        intro child hc
        rw [childRows, (SortedList.sortOn_perm _).mem_iff, (SortedList.sortOn_perm _).mem_iff,
          List.mem_filter] at hc
        obtain ⟨mem, chosen⟩ := hc
        simp only [Bool.and_eq_true, beq_iff_eq, Bool.not_eq_true'] at chosen
        have live : s.live? row.number child.set child.id = some child := by
          rw [← chosen.1]
          exact live?_eq_some.mpr ⟨h.tabled.find?_of_mem mem, chosen.2⟩
        obtain ⟨c, found, data', shows'⟩ := (slots child.set child.id).eq_some live
        obtain ⟨above, bound'⟩ := h.tabled.bound child mem
        have read := ih data' shows' (branches.child? found).branches bound' (by omega)
        rw [read, entry, found]
        rfl
      rw [Store.readRow, data.readFields, mapM_eq_ok_map inner]
      show Except.ok (((s.childRows row.number).map (entry n)).foldl
        (fun m c => Message.withChild m c.1 c.2) ⟨row.id, n.fields, [], none, none, none⟩) = _
      rw [Node.message_eq, childRows_eq, ← data.id_eq]
      congr 1
      refine Message.foldl_withChild_congr n.bare_grouped ?_
      intro set
      rw [Node.filter_inOrder, Node.filter_inOrder, List.filter_map, List.filter_map]
      have live :
          (s.rows.filter (fun row' => row'.parent == row.number && !row'.deleted)).filter
          ((fun c : String × Message => decide (c.1 = set)) ∘ entry n) =
            s.liveElements row.number set := by
        rw [List.filter_filter, liveElements]
        apply List.filter_congr
        intro row' _
        show (decide (row'.set = set) && _) = _
        rw [beq_eq_decide row'.set set]
        cases decide (row'.set = set) <;> simp
      rw [live]
      have ids : ∀ x ∈ (s.liveElements row.number set).map (entry n),
          ∀ y ∈ (s.liveElements row.number set).map (entry n), x.2.id = y.2.id →
          x = y := by
        refine List.inj_on_of_nodup_map ?_
        rw [map_entry_id]
        exact nodup_live_ids h.tabled row.number set
      rw [Node.inOrder, SortedList.sortOn_eq_of_perm (h.entries_perm shows branches set) ids]
      rfl

/-- A table that shows a forest loads what the forest loads. -/
theorem ShowsForest.load {forest : Node} (h : s.ShowsForest U forest) (kind : String)
    (id : Int) : s.load kind id = forest.load kind id := by
  have slot := shows_iff.mp h.shows kind id
  rw [Store.load, Node.load]
  cases live : s.live? 0 kind id with
  | none => rw [slot.eq_none live]
  | some row =>
      obtain ⟨n, found, data, shows⟩ := slot.eq_some live
      obtain ⟨mem, -⟩ := key_of_find? (live?_eq_some.mp live).1
      obtain ⟨above, bound⟩ := h.sound.tabled.bound row mem
      rw [found]
      exact h.sound.readRow data shows (h.branches.child? found).branches bound (by omega)

end Read

end Store

end RecordSync
