import RecordSync.Proofs.Message
import RecordSync.Proofs.Record.Cleanness

/-!
# The two sides of a record

A record has two sides, the user's and the baseline.  Either is a message of the whole
record, from which the value of each field and the element of each id can be read back.

**Results.**
* `Record.localMessage_eq_seen`, `Record.remoteMessage_eq_seen`: the two sides as one
  view.
* `Record.Tidy.field?_seen`, `Record.Tidy.child?_seen`: what can be read back from it.
-/

namespace RecordSync

variable {τ : Type}

/-- A side of a record: what it has of a field, and of an element its sort key and
message, if it has the element. -/
structure Side (τ : Type) where
  value : Tracked Value → Value
  element? : SetKind → Element τ → Option (Int × Message)
  id_eq : ∀ kind e x, element? kind e = some x → x.2.id = e.id

def Side.user : Side τ :=
  ⟨Tracked.current, Element.local?, fun _ => Element.id_of_local?⟩

def Side.baseline : Side τ :=
  ⟨Tracked.remote, Element.remote?, fun _ => Element.id_of_remote?⟩

def ElementSet.seen (side : Side τ) (s : ElementSet τ) : List (Int × Message) :=
  s.elements.filterMap (side.element? s.decl.kind)

/-- The element of an id in a set on one side. -/
def ElementSet.seen? (side : Side τ) (s : ElementSet τ) (id : Int) :
    Option (Int × Message) :=
  (s.find? id).bind (side.element? s.decl.kind)

/-- One side of a record as a message. -/
def Record.seen (side : Side τ) (r : Record τ) : Message :=
  ⟨r.id, messageFields (r.fields.map (fun f => (f.name, side.value f.value))),
    messageGroups (r.sets.map (fun s => ⟨s.name, placedMessages s.decl.kind (s.seen side)⟩)),
    none, none, none⟩

theorem Record.localMessage_eq_seen (r : Record τ) : r.localMessage = r.seen .user := by
  rw [Record.localMessage_eq, Record.seen]
  simp only [ElementSet.localMessages_eq]
  rfl

theorem Record.remoteMessage_eq_seen (r : Record τ) :
    r.remoteMessage = r.seen .baseline := by
  rw [Record.remoteMessage_eq, Record.seen]
  simp only [ElementSet.remoteMessages_eq]
  rfl

section Set

variable {side : Side τ} {s : ElementSet τ}

/-- The elements on one side stand in the order of their ids. -/
theorem ElementSet.Tidy.sorted_seen (h : s.Tidy) (side : Side τ) :
    SortedList.Sorted (fun x : Int × Message => x.2.id) (s.seen side) :=
  h.sorted.filterMap (fun e _ x hx => side.id_eq _ e x hx)

theorem ElementSet.Tidy.find?_seen (h : s.Tidy) (id : Int) :
    SortedList.find? (fun x : Int × Message => x.2.id) id (s.seen side) =
      s.seen? side id :=
  SortedList.find?_filterMap h.sorted.nodup_keys (fun e _ x hx => side.id_eq _ e x hx)

theorem find?_map_placed (kind : SetKind) (l : List (Int × Message)) (id : Int) :
    SortedList.find? Message.id id (l.map (placed kind)) =
      (SortedList.find? (fun x : Int × Message => x.2.id) id l).map (placed kind) := by
  rw [SortedList.find?_map_comp]
  simp only [placed_id]

/-- The element of an id is found among the messages of a set on one side. -/
theorem ElementSet.Tidy.find?_placedMessages (h : s.Tidy) (id : Int) :
    SortedList.find? Message.id id (placedMessages s.decl.kind (s.seen side)) =
      (s.seen? side id).map (placed s.decl.kind) := by
  have distinct := (h.sorted_seen side).nodup_keys
  rw [placedMessages_eq, find?_map_placed,
    ← SortedList.find?_perm (SortedList.sortOn_perm (s.seen side)).symm distinct,
    h.find?_seen]

/-- What the user sees of an id is an element of the set. -/
theorem ElementSet.seen?_user_eq_some {id : Int} {x : Int × Message}
    (h : s.seen? .user id = some x) : ∃ e ∈ s.elements, e.id = id ∧
      x = (seenPosition s.decl.kind e.position, e.record.localMessage) := by
  obtain ⟨e, found, shown⟩ := Option.bind_eq_some_iff.mp h
  change e.local? s.decl.kind = some x at shown
  rw [Element.local?] at shown
  split_ifs at shown
  exact ⟨e, SortedList.mem_of_find? found, SortedList.key_of_find? found,
    (Option.some.inj shown).symm⟩

end Set

section Groups

theorem mem_of_mem_messageGroups {g : Group} {groups : List Group}
    (h : g ∈ messageGroups groups) : g ∈ groups ∧ g.members ≠ [] := by
  have given := SortedList.mem_of_mem_ofList h
  exact ⟨(List.mem_filter.mp given).1, by simpa using (List.mem_filter.mp given).2⟩

theorem grouped_messageGroups {m : Message} {groups : List Group}
    (hm : m.children = messageGroups groups) : m.Grouped where
  sorted := hm ▸ SortedList.sorted_ofList _
  nonempty := fun _ hg => (mem_of_mem_messageGroups (hm ▸ hg)).2

/-- The elements that a message has of a set are those that are given for its name. -/
theorem childrenOf_messageGroups {β : Type} {l : List β} {name : β → String}
    {members : β → List Message} (hl : (l.map name).Nodup) {m : Message}
    (hm : m.children = messageGroups (l.map (fun x => ⟨name x, members x⟩)))
    (set : String) :
    m.childrenOf set = ((SortedList.find? name set l).map members).getD [] := by
  have keys : ((l.map (fun x => (⟨name x, members x⟩ : Group))).map Group.name).Nodup := by
    rw [List.map_map]
    exact hl
  rw [Message.childrenOf_eq, hm, messageGroups,
    SortedList.find?_ofList (keys.sublist (List.filter_sublist.map _)),
    SortedList.find?_filter keys, SortedList.find?_map_comp]
  cases SortedList.find? name set l with
  | none => rfl
  | some x => cases h : members x <;> simp [Option.filter, h]

end Groups

theorem Record.seen_grouped (side : Side τ) (r : Record τ) : (r.seen side).Grouped :=
  grouped_messageGroups rfl

section Tidy

variable [Catalog τ] {r : Record τ} {s : ElementSet τ}

/-- The value of a field can be read back. -/
theorem Record.Tidy.field?_seen (h : r.Tidy) (side : Side τ) {f : Field}
    (hf : f ∈ r.fields) : (r.seen side).field? f.name = some (side.value f.value) := by
  have keys : ((r.fields.map (fun f => (f.name, side.value f.value))).map Prod.fst).Nodup := by
    rw [List.map_map]
    exact h.field_names
  have found : SortedList.find? Prod.fst f.name
      (r.fields.map (fun f => (f.name, side.value f.value))) =
        some (f.name, side.value f.value) :=
    SortedList.find?_of_mem (x := (f.name, side.value f.value)) keys (List.mem_map_of_mem hf)
  rw [Message.field?, Record.seen, messageFields, SortedList.find?_ofList keys, found]
  rfl

theorem Record.Tidy.childrenOf_seen (h : r.Tidy) (side : Side τ) (set : String) :
    (r.seen side).childrenOf set =
      ((r.set? set).map (fun s => placedMessages s.decl.kind (s.seen side))).getD [] :=
  childrenOf_messageGroups h.set_names rfl set

/-- The element of an id in a set can be read back. -/
theorem Record.Tidy.child?_seen (h : r.Tidy) (side : Side τ) (hs : s ∈ r.sets)
    (id : Int) :
    (r.seen side).child? s.name id = (s.seen? side id).map (placed s.decl.kind) := by
  rw [Message.child?, h.childrenOf_seen, h.set?_of_mem hs]
  exact (h.sets_tidy s hs).find?_placedMessages id

end Tidy

end RecordSync
