import RecordSync.Proofs.Store.Writing

/-!
# The table refines the plain store

A patch that is applied to the table and to the plain store is accepted by both or refused
by both, for the same reason; when it is accepted, the table shows the plain store
afterwards.  So whatever a tombstone still holds is never seen again.

**Results.**
* `Store.Sound.checkPositions`: both find the same position shared.
* `Store.Sound.applyRecord`, `Store.Sound.applyGroups`, `Store.Sound.applyMembers`: one
  patch.
* `Store.Built.shows`: a table that was built by patches shows a forest of proper trees.
-/

namespace RecordSync

/-- The strings of bytes that a message carries, at any depth, are of a class. -/
inductive Message.BytesIn (U : Set Bytes) : Message → Prop
  | intro {m : Message} :
      (∀ x ∈ m.fields, ∀ b, x.2 = .bytes b → b ∈ U) →
      (∀ g ∈ m.children, ∀ c ∈ g.members, BytesIn U c) → BytesIn U m

namespace Store

section Positions

variable {U : Set Bytes} {s : Store} {p number : Nat} {set : String}
    {row : Row} {n : Node}

theorem mem_liveElements (h : s.Tabled) :
    row ∈ s.liveElements p set ↔ s.live? p set row.id = some row := by
  rw [liveElements, List.mem_filter, live?_eq_some]
  constructor
  · rintro ⟨mem, chosen⟩
    simp only [Bool.and_eq_true, beq_iff_eq, Bool.not_eq_true'] at chosen
    obtain ⟨⟨rfl, rfl⟩, there⟩ := chosen
    exact ⟨h.find?_of_mem mem, there⟩
  · rintro ⟨found, there⟩
    obtain ⟨mem, rfl, rfl, -⟩ := key_of_find? found
    exact ⟨mem, by simp [there]⟩

theorem nodup_live_ids (h : s.Tabled) (p : Nat) (set : String) :
    ((s.liveElements p set).map Row.id).Nodup := by
  refine List.Nodup.map_on ?_ ((List.Nodup.of_map _ h.keys).filter _)
  intro row hr row' hr' same
  have found := (live?_eq_some.mp ((mem_liveElements h).mp hr)).1
  have found' := (live?_eq_some.mp ((mem_liveElements h).mp hr')).1
  rw [same, found'] at found
  exact (Option.some.inj found).symm

/-- The live rows of a set and the children in it are the same ids with the same
positions. -/
theorem Sound.members_perm (h : s.Sound U) (shows : s.Shows number n)
    (branches : n.Branches) (set : String) :
    ((s.liveElements number set).map (fun row => (row.id, row.position))).Perm
      ((n.members set).map (fun c => (c.id, c.position))) := by
  have slots := shows_iff.mp shows set
  refine (List.perm_ext_iff_of_nodup ?_ ?_).mpr ?_
  · refine List.Nodup.of_map Prod.fst ?_
    rw [List.map_map]
    exact nodup_live_ids h.tabled number set
  · refine List.Nodup.of_map Prod.fst ?_
    rw [List.map_map]
    exact Node.nodup_member_ids branches.keys set
  · rintro ⟨i, q⟩
    rw [List.mem_map, List.mem_map]
    constructor
    · rintro ⟨row, mem, e⟩
      obtain ⟨rfl, rfl⟩ := Prod.mk.inj e
      obtain ⟨c, found, data, -⟩ :=
        (slots row.id).eq_some ((mem_liveElements h.tabled).mp mem)
      refine ⟨c, (Node.mem_members branches.keys).mpr (by rwa [data.id_eq]), ?_⟩
      rw [data.id_eq, data.position_eq]
    · rintro ⟨c, mem, e⟩
      obtain ⟨rfl, rfl⟩ := Prod.mk.inj e
      have slot := slots c.id
      rw [(Node.mem_members branches.keys).mp mem] at slot
      obtain ⟨row, live, data, -⟩ := slot
      refine ⟨row, (mem_liveElements h.tabled).mpr (by rwa [← data.id_eq]), ?_⟩
      rw [data.id_eq, data.position_eq]

/-- The table finds a position shared if the plain store does. -/
theorem Sound.checkPositions (h : s.Sound U) (shows : s.Shows number n)
    (branches : n.Branches) (set : String) :
    s.checkPositions number set = n.checkPositions set := by
  have perm : ((s.liveElements number set).filterMap Row.position).Perm
      ((n.members set).filterMap Node.position) := by
    have both := (h.members_perm shows branches set).filterMap Prod.snd
    rwa [List.filterMap_map, List.filterMap_map] at both
  have same : sharedPosition? (s.liveElements number set) =
      Node.sharedPosition? (n.members set) := by
    have sorted : SortedList.sortOn (fun p => p) _ = SortedList.sortOn (fun p => p) _ :=
      SortedList.sortOn_eq_of_perm perm (fun _ _ _ _ e => e)
    rw [Node.sharedPosition?, ← sorted]
    rfl
  rw [Store.checkPositions, same]
  rfl

end Positions

section Apply

variable {U : Set Bytes} {s s' : Store} {p number : Nat} {set : String}
    {id : Int} {row : Row}
  {n n' : Node}

/-- Writes below a row: the table stays in shape, nothing changes elsewhere, and the row
shows the node that was written. -/
structure WritesBelow (U : Set Bytes) (s s' : Store) (number : Nat) (n' : Node) :
    Prop where
  sound : s'.Sound U
  grows : s.Grows s'
  frame : s.FrameBelow s' number
  shows : s'.Shows number n'

/-- A write at one address of a row is one below the row, and the other addresses show
what they showed. -/
theorem Writes.below {new : Option Node} (h : Writes U s s' number set id new)
    (shows : s.Shows number n) (hid : ∀ c, new = some c → c.id = id) :
    WritesBelow U s s' number (n.withChild set id new) := by
  refine ⟨h.sound, h.grows, h.frame.frameBelow, shows_iff.mpr ?_⟩
  intro set' id'
  rw [Node.child?_withChild hid]
  split
  next same =>
    obtain ⟨rfl, rfl⟩ := same
    exact h.slot
  next other =>
    refine (shows_iff.mp shows set' id').sibling h.sound.tabled h.grows h.frame ?_
    intro e
    exact other (Prod.mk.inj e)

theorem WritesBelow.trans {s'' : Store} {n'' : Node} (h : WritesBelow U s s' number n')
    (h' : WritesBelow U s' s'' number n'') : WritesBelow U s s'' number n'' :=
  ⟨h'.sound, h.grows.trans h'.grows, h.frame.trans h'.grows h'.frame, h'.shows⟩

/-- Writes below a live row are a write at its address. -/
theorem WritesBelow.at (h : WritesBelow U s s' number n') (tabled : s'.Tabled)
    (live : s.live? p set id = some row) (same : row.number = number)
    (data : s.RowShows row n) (hid : n'.id = n.id) (hp : n'.position = n.position)
    (hf : n'.fields = n.fields) : Writes U s s' p set id (some n') := by
  subst same
  obtain ⟨found, there⟩ := live?_eq_some.mp live
  obtain ⟨mem, rfl, rfl, rfl⟩ := key_of_find? found
  obtain ⟨row', found', same⟩ := h.grows.rows _ _ _ _ found
  have less : row.parent < row.number := by
    obtain ⟨mem', parent, -⟩ := key_of_find? found'
    have := (tabled.bound row' mem').1
    rwa [parent, same] at this
  have kept : s'.find? row.parent row.set row.id = some row := by
    refine (h.frame _ less.ne ?_ _ _).trans found
    intro t i inside
    exact absurd (inside.lt tabled) less.not_gt
  refine ⟨h.sound, h.grows, FrameBelow.frame kept h.frame, row,
    live?_eq_some.mpr ⟨kept, there⟩, ?_, h.shows⟩
  have data' := data.grows h.grows
  exact ⟨hid.trans data'.id_eq, hp.trans data'.position_eq, hf ▸ data'.fields_eq,
    hf ▸ data'.available⟩

/-- The results agree when both check the same. -/
theorem Agree.check {α β : Type} {R : α → β → Prop} {x y : Except StoreError Unit}
    {a : Except StoreError α} {b : Except StoreError β} (same : x = y)
    (next : y = .ok () → Agree R a b) :
    Agree R (x >>= fun _ => a) (y >>= fun _ => b) := by
  subst same
  cases x with
  | error e => exact rfl
  | ok => exact next rfl

end Apply

section Refinement

variable {U : Set Bytes}

mutual

/-- A message does at its address of the table what it does in the plain store. -/
theorem Sound.applyRecord {s : Store} {p : Nat} {set : String} {old : Option Node}
    {m : Message} (h : s.Sound U) (hp : p ≤ s.rows.length)
    (slot : s.SlotShows p set m.id old)
    (proper : ∀ n, old = some n → n.Proper ∧ n.id = m.id) (mayCreate : Bool)
    (known : m.BytesIn U) :
    Agree (fun s' new => Writes U s s' p set m.id new) (s.applyRecord p set mayCreate m)
      (Node.applyRecord set mayCreate old m) := by
  obtain ⟨id, fields, children, position, swapPosition, deleted⟩ := m
  obtain ⟨strings, inner⟩ := known
  rw [Store.applyRecord, Node.applyRecord]
  refine (h.place hp slot mayCreate position swapPosition deleted).bind ?_
  rintro ⟨s₁, found⟩ new placed ⟨write, number⟩
  dsimp only at write number
  obtain rfl := number
  cases new with
  | none =>
      have gone : s₁.live? p set id = none := write.slot
      dsimp only
      rw [gone]
      exact write
  | some n =>
      obtain ⟨row, live, data, shows⟩ := write.slot
      obtain ⟨hn, -⟩ := Node.place_proper proper placed
      dsimp only
      rw [live]
      -- The fields are written first, then whatever is below the row.
      have fielded := write.sound.writeFields live data shows strings
      obtain ⟨row', live', data', shows'⟩ := fielded.slot
      have number := fielded.number live live'
      have bound : row'.number ≤ (s₁.writeFields row.number fields).rows.length :=
        (fielded.sound.tabled.bound row' (key_of_find? (live?_eq_some.mp live').1).1).2
      have below :=
        Sound.applyGroups fielded.sound bound shows' (hn.writeFields fields) inner
      rw [number] at below
      refine below.map ?_
      intro s₂ n' applied below
      obtain ⟨-, hid, hp', hf⟩ :=
        Node.applyGroups_proper children (hn.writeFields fields) applied
      exact (write.trans fielded).trans
        (below.at below.sound.tabled live' number data' hid hp' hf)

/-- Messages of elements do below their row what they do in the plain store. -/
theorem Sound.applyGroups {s : Store} {number : Nat} {n : Node} {groups : List Group}
    (h : s.Sound U) (hp : number ≤ s.rows.length) (shows : s.Shows number n)
    (proper : n.Proper) (known : ∀ g ∈ groups, ∀ m ∈ g.members, m.BytesIn U) :
    Agree (fun s' n' => WritesBelow U s s' number n') (s.applyGroups number groups)
      (Node.applyGroups n groups) := by
  match groups with
  | [] => exact ⟨h, .refl s, .refl s number, shows⟩
  | ⟨set, members⟩ :: rest =>
      rw [Store.applyGroups, Node.applyGroups]
      refine (Sound.applyMembers h hp shows proper.branches
        (known _ List.mem_cons_self)).bind ?_
      intro s₁ n₁ applied write
      obtain ⟨branches, others, -, hp₁, -⟩ :=
        Node.applyMembers_branches set members proper.branches applied
      refine Agree.check (write.sound.checkPositions write.shows branches set) ?_
      intro checked
      have proper₁ := proper.checked branches others hp₁ checked
      have rest := Sound.applyGroups write.sound (hp.trans write.grows.length_le)
        write.shows proper₁ (fun g hg => known g (List.mem_cons_of_mem _ hg))
      exact rest.imp (fun s₂ n₂ write' => write.trans write')

/-- Messages of elements of one set do below their row what they do in the plain store. -/
theorem Sound.applyMembers {s : Store} {number : Nat} {n : Node} {set : String}
    {members : List Message} (h : s.Sound U) (hp : number ≤ s.rows.length)
    (shows : s.Shows number n) (branches : n.Branches)
    (known : ∀ m ∈ members, m.BytesIn U) :
    Agree (fun s' n' => WritesBelow U s s' number n') (s.applyMembers number set members)
      (Node.applyMembers n set members) := by
  match members with
  | [] => exact ⟨h, .refl s, .refl s number, shows⟩
  | m :: rest =>
      rw [Store.applyMembers, Node.applyMembers]
      have proper : ∀ c, n.child? set m.id = some c → c.Proper ∧ c.id = m.id :=
        fun c found => ⟨branches.child? found, Node.id_of_child? found⟩
      refine (Sound.applyRecord h hp (shows_iff.mp shows set m.id) proper false
        (known m List.mem_cons_self)).bind ?_
      intro s₁ new applied write
      have proper' := branches.child_proper applied
      have below := write.below shows (fun c e => (proper' c e).2)
      refine (Sound.applyMembers below.sound (hp.trans below.grows.length_le) below.shows
        (branches.withChild proper') (fun m hm => known m (List.mem_cons_of_mem _ hm))).imp ?_
      exact fun s₂ n₂ write' => below.trans write'

end

end Refinement

section Run

variable {U : Set Bytes} {s : Store}

/-- A table that was built by patches, which carry strings of bytes of a class. -/
inductive Built (U : Set Bytes) (digest : Bytes → Bytes) : Store → Prop
  | empty : Built U digest (.empty digest)
  | apply {s s' : Store} {kind : String} {patch : Message} :
      Built U digest s → patch.BytesIn U → s.apply kind patch = .ok s' → Built U digest s'
  | reserve {s s' : Store} {count : Nat} {range : Int × Int} :
      Built U digest s → s.reserve count = .ok (range, s') → Built U digest s'

/-- A table shows a forest of proper trees. -/
structure ShowsForest (U : Set Bytes) (s : Store) (forest : Node) : Prop where
  sound : s.Sound U
  shows : s.Shows 0 forest
  branches : forest.Branches

/-- A new table shows a forest without roots. -/
theorem showsForest_empty {digest : Bytes → Bytes} (named : Set.InjOn digest U) :
    (empty digest).ShowsForest U (.blank 0) where
  sound := .empty named
  shows := shows_blank (fun _ _ => rfl) 0
  branches := ⟨List.nodup_nil, fun _ hc => absurd hc List.not_mem_nil⟩

/-- A patch of a root does to the table what it does to the forest. -/
theorem ShowsForest.apply {forest : Node} (h : s.ShowsForest U forest) (kind : String)
    {patch : Message} (known : patch.BytesIn U) :
    Agree (fun s' forest' => s'.ShowsForest U forest') (s.apply kind patch)
      (forest.apply kind patch) := by
  have proper : ∀ c, forest.child? kind patch.id = some c → c.Proper ∧ c.id = patch.id :=
    fun c found => ⟨h.branches.child? found, Node.id_of_child? found⟩
  refine (h.sound.applyRecord (Nat.zero_le _) (shows_iff.mp h.shows kind patch.id) proper true
    known).map ?_
  intro s' new applied write
  have proper' := h.branches.child_proper applied
  exact ⟨write.sound, (write.below h.shows (fun c e => (proper' c e).2)).shows,
    h.branches.withChild proper'⟩

/-- A patch that is applied to the table makes of its root what it makes of it in the
forest. -/
theorem ShowsForest.applied {forest : Node} (h : s.ShowsForest U forest) {k : String}
    {patch : Message} (known : patch.BytesIn U) {s' : Store}
    (ha : s.apply k patch = .ok s') : ∃ forest' new, s'.ShowsForest U forest' ∧
      Node.applyRecord k true (forest.child? k patch.id) patch = .ok new ∧
      ∀ set id, forest'.child? set id =
        if set = k ∧ id = patch.id then new else forest.child? set id := by
  obtain ⟨forest', applied, shows⟩ := (h.apply k known).of_ok ha
  obtain ⟨new, made, rfl⟩ := Node.apply_eq_ok applied
  exact ⟨_, new, shows, made,
    Node.child?_withChild (fun c e => (h.branches.child_proper made c e).2)⟩

/-- The ids that are set aside have no part in what the table shows. -/
theorem ShowsForest.reserve {forest : Node} (h : s.ShowsForest U forest) {count : Nat}
    {range : Int × Int} {s' : Store} (reserved : s.reserve count = .ok (range, s')) :
    s'.ShowsForest U forest := by
  rw [Store.reserve] at reserved
  split_ifs at reserved
  obtain ⟨-, rfl⟩ := Prod.mk.inj (Except.ok.inj reserved)
  have tabled := h.sound.tabled
  refine ⟨⟨⟨tabled.numbers, tabled.keys, tabled.bound, tabled.buried⟩, h.sound.named,
    h.sound.entries⟩, ?_, h.branches⟩
  have grows : s.Grows { s with nextId := s.nextId + count } :=
    ⟨rfl, le_rfl, fun _ _ _ row found => ⟨row, found, rfl⟩, fun _ _ kept => kept⟩
  exact h.shows.beneath tabled grows (fun _ _ _ _ => rfl)

/-- A table that was built by patches shows a forest of proper trees. -/
theorem Built.shows {digest : Bytes → Bytes} (named : Set.InjOn digest U)
    (h : Built U digest s) : ∃ forest, s.ShowsForest U forest := by
  induction h with
  | empty => exact ⟨.blank 0, showsForest_empty named⟩
  | @apply s s' kind patch _ known applied ih =>
      obtain ⟨forest, shows⟩ := ih
      obtain ⟨forest', -, shows'⟩ := (shows.apply kind known).of_ok applied
      exact ⟨forest', shows'⟩
  | reserve _ reserved ih =>
      obtain ⟨forest, shows⟩ := ih
      exact ⟨forest, shows.reserve reserved⟩

end Run

end Store

end RecordSync
