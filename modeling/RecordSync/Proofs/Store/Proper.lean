import RecordSync.Proofs.Store.Tree

/-!
# Proper trees

What every tree of the plain store keeps to, whatever patches it is given: a node tells
its children apart by set and id, no two children of a set share a position, and no
position is below zero.

The node that holds all roots is checked for less, for two roots of a family may have one
position; `Node.Branches` says what holds of every node while its children are written to.

**Results.**
* `Node.child?_withChild`: the children after one is put in or dropped.
* `Node.place_cases`: all that a message can make of its element before it is written to.
* `Node.applyRecord_proper`: a patch that is accepted leaves a proper tree.
-/

namespace RecordSync

namespace Node

/-- Positions are not below zero, and siblings differ in their keys and in their
positions. -/
inductive Proper : Node → Prop
  | intro {n : Node} :
      (∀ p, n.position = some p → 0 ≤ p) → (n.children.map childKey).Nodup →
      (∀ set, ((n.members set).filterMap Node.position).Nodup) →
      (∀ c ∈ n.children, Proper c.2) → Proper n

/-- Siblings differ in their keys, and what is below a node is proper. -/
structure Branches (n : Node) : Prop where
  keys : (n.children.map childKey).Nodup
  proper : ∀ c ∈ n.children, c.2.Proper

section Proper

variable {n n' : Node} {set : String} {id : Int}

theorem Proper.nonneg (h : n.Proper) {p : Int} (hp : n.position = some p) : 0 ≤ p := by
  cases h with
  | intro nonneg => exact nonneg p hp

theorem Proper.branches (h : n.Proper) : n.Branches := by
  cases h with
  | intro _ keys _ inner => exact ⟨keys, inner⟩

theorem Proper.spread (h : n.Proper) (set : String) :
    ((n.members set).filterMap Node.position).Nodup := by
  cases h with
  | intro _ _ spread _ => exact spread set

theorem Branches.toProper (h : n.Branches) (nonneg : ∀ p, n.position = some p → 0 ≤ p)
    (spread : ∀ set, ((n.members set).filterMap Node.position).Nodup) : n.Proper :=
  .intro nonneg h.keys spread h.proper

theorem Proper.blank (id : Int) : (Node.blank id).Proper :=
  .intro nofun List.nodup_nil (fun _ => List.nodup_nil) nofun

theorem Proper.congr (h : n.Proper) (children : n'.children = n.children)
    (nonneg : ∀ p, n'.position = some p → 0 ≤ p) : n'.Proper := by
  refine .intro nonneg ?_ ?_ ?_
  · rw [children]
    exact h.branches.keys
  · intro set
    rw [members, children]
    exact h.spread set
  · rw [children]
    exact h.branches.proper

theorem Proper.writeFields (h : n.Proper) (fields : List (String × Value)) :
    (n.writeFields fields).Proper :=
  h.congr rfl (fun _ => h.nonneg)

end Proper

section Children

variable {n : Node} {set : String} {id : Int}

theorem child?_eq_some (keys : (n.children.map childKey).Nodup) {child : Node} :
    n.child? set id = some child ↔ (set, child) ∈ n.children ∧ child.id = id := by
  rw [child?, Option.map_eq_some_iff]
  constructor
  · rintro ⟨c, found, rfl⟩
    have key : childKey c = (set, id) := SortedList.key_of_find? found
    obtain ⟨rfl, rfl⟩ := Prod.mk.inj key
    exact ⟨SortedList.mem_of_find? found, rfl⟩
  · rintro ⟨mem, rfl⟩
    exact ⟨(set, child), SortedList.find?_of_mem keys mem, rfl⟩

theorem id_of_child? {child : Node} (h : n.child? set id = some child) :
    child.id = id := by
  obtain ⟨c, found, rfl⟩ := Option.map_eq_some_iff.mp h
  have key : childKey c = (set, id) := SortedList.key_of_find? found
  exact (Prod.mk.inj key).2

theorem Branches.child? (h : n.Branches) {child : Node}
    (hc : n.child? set id = some child) : child.Proper :=
  h.proper _ ((child?_eq_some h.keys).mp hc).1

theorem mem_members (keys : (n.children.map childKey).Nodup) {child : Node} :
    child ∈ n.members set ↔ n.child? set child.id = some child := by
  rw [child?_eq_some keys, members, List.mem_map]
  simp only [List.mem_filter, decide_eq_true_eq, and_true]
  constructor
  · rintro ⟨c, ⟨mem, rfl⟩, rfl⟩
    exact mem
  · exact fun mem => ⟨_, ⟨mem, rfl⟩, rfl⟩

theorem nodup_member_ids (keys : (n.children.map childKey).Nodup) (set : String) :
    ((n.members set).map Node.id).Nodup := by
  rw [members, List.map_map]
  refine List.Nodup.map_on ?_ ((List.Nodup.of_map _ keys).filter _)
  intro c hc d hd same
  have hset : ∀ c ∈ n.children.filter (fun c => c.1 = set), c ∈ n.children ∧
      c.1 = set := by
    intro c hc
    simpa using hc
  obtain ⟨hc, hcs⟩ := hset c hc
  obtain ⟨hd, hds⟩ := hset d hd
  exact List.inj_on_of_nodup_map keys hc hd (Prod.ext (hcs.trans hds.symm) same)

/-- The children of a set have distinct positions iff no two of them share one. -/
theorem Branches.spread_iff (h : n.Branches) (set : String) :
    ((n.members set).filterMap Node.position).Nodup ↔
      ∀ c d p, n.child? set c.id = some c → n.child? set d.id = some d →
        c.position = some p → d.position = some p → c.id = d.id := by
  rw [SortedList.nodup_filterMap_iff (nodup_member_ids h.keys set)]
  simp only [mem_members h.keys]
  exact ⟨fun same c d p hc hd => same c hc d hd p, fun same c hc d hd p => same c d p hc hd⟩

/-- The children after one is put in or dropped. -/
theorem child?_withChild {new : Option Node} (hid : ∀ c, new = some c → c.id = id)
    (set' : String) (id' : Int) :
    (n.withChild set id new).child? set' id' =
      if set' = set ∧ id' = id then new else n.child? set' id' := by
  have gone : (SortedList.find? childKey (set', id')
      (SortedList.erase childKey (set, id) n.children)).map Prod.snd =
        if set' = set ∧ id' = id then none else n.child? set' id' := by
    simp only [SortedList.find?_erase, Prod.mk.injEq]
    split <;> rfl
  cases new with
  | none => exact gone
  | some child =>
      obtain rfl := hid child rfl
      rw [child?, withChild, SortedList.find?, List.find?_append]
      show ((SortedList.find? childKey (set', id') _).or _).map Prod.snd = _
      rw [Option.map_or, gone]
      by_cases same : set' = set ∧ id' = child.id
      · obtain ⟨rfl, rfl⟩ := same
        simp [childKey]
      · rw [if_neg same, if_neg same]
        have other : childKey (set, child) ≠ (set', id') := by
          intro e
          obtain ⟨rfl, rfl⟩ := Prod.mk.inj e
          exact same ⟨rfl, rfl⟩
        simp [other]

theorem mem_withChild {new : Option Node} {c : String × Node}
    (hc : c ∈ (n.withChild set id new).children) :
    c ∈ n.children ∨ ∃ child, new = some child ∧ c = (set, child) := by
  cases new with
  | none => exact .inl (SortedList.mem_erase.mp hc).1
  | some child =>
      rcases List.mem_append.mp hc with hc | hc
      · exact .inl (SortedList.mem_erase.mp hc).1
      · exact .inr ⟨child, rfl, List.mem_singleton.mp hc⟩

theorem Branches.withChild (h : n.Branches) {new : Option Node}
    (proper : ∀ c, new = some c → c.Proper ∧ c.id = id) :
    (n.withChild set id new).Branches := by
  have kept : ((SortedList.erase childKey (set, id) n.children).map childKey).Nodup :=
    h.keys.sublist (List.filter_sublist.map _)
  cases new with
  | none => exact ⟨kept, fun c hc => h.proper c (SortedList.mem_erase.mp hc).1⟩
  | some child =>
      obtain ⟨hc, rfl⟩ := proper child rfl
      constructor
      · show ((SortedList.erase childKey (set, child.id) n.children ++ [(set, child)]).map
          childKey).Nodup
        rw [List.map_append, List.nodup_append]
        refine ⟨kept, List.nodup_singleton _, ?_⟩
        intro k hk k' hk' e
        obtain ⟨c, hc, rfl⟩ := List.mem_map.mp hk
        obtain rfl := List.mem_singleton.mp hk'
        exact (SortedList.mem_erase.mp hc).2 e
      · intro c hc'
        rcases List.mem_append.mp hc' with hc' | hc'
        · exact h.proper c (SortedList.mem_erase.mp hc').1
        · obtain rfl := List.mem_singleton.mp hc'
          exact hc

/-- The members of other sets stay what they are. -/
theorem members_withChild {new : Option Node} {set' : String} (other : set' ≠ set) :
    (n.withChild set id new).members set' = n.members set' := by
  have kept : (SortedList.erase childKey (set, id) n.children).filter
      (fun c => c.1 = set') = n.children.filter (fun c => c.1 = set') := by
    rw [SortedList.erase, List.filter_filter]
    apply List.filter_congr
    intro c _
    by_cases hc : c.1 = set'
    · have : childKey c ≠ (set, id) := by
        intro e
        exact other (hc.symm.trans (Prod.mk.inj e).1)
      simp [hc, this]
    · simp [hc]
  cases new with
  | none => rw [members, withChild, kept, members]
  | some child =>
      rw [members, withChild, List.filter_append, kept, members]
      simp [other.symm]

end Children

section Positions

/-- A list in order has no two equal neighbours iff its entries are distinct. -/
theorem no_equal_neighbours {l : List Int} (sorted : l.Pairwise (· ≤ ·)) :
    (l.zip l.tail).find? (fun (p, q) => p = q) = none ↔ l.Nodup := by
  induction l with
  | nil => simp
  | cons x l ih =>
      obtain ⟨above, rest⟩ := List.pairwise_cons.mp sorted
      cases l with
      | nil => simp
      | cons y l =>
          have head : x ∉ y :: l ↔ x ≠ y := by
            constructor
            · intro out e
              exact out (e ▸ List.mem_cons_self)
            · intro differ mem
              rcases List.mem_cons.mp mem with e | mem
              · exact differ e
              · have less := (List.pairwise_cons.mp rest).1 x mem
                exact differ (le_antisymm (above y List.mem_cons_self) less)
          rw [List.nodup_cons, head, ← ih rest]
          show List.find? _ ((x, y) :: (y :: l).zip l) = none ↔ _
          rw [List.find?_cons]
          by_cases e : x = y <;> simp [e]

/-- No two neighbours of a list that was put in order are equal iff its entries are
distinct. -/
theorem shared_eq_none {l : List Int} :
    ((SortedList.sortOn (fun p => p) l).zip (SortedList.sortOn (fun p => p) l).tail).find?
      (fun (p, q) => p = q) = none ↔ l.Nodup := by
  rw [no_equal_neighbours (SortedList.pairwise_sortOn _)]
  exact (SortedList.sortOn_perm _).nodup_iff

theorem sharedPosition?_eq_none {nodes : List Node} :
    sharedPosition? nodes = none ↔ (nodes.filterMap Node.position).Nodup := by
  rw [sharedPosition?, Option.map_eq_none_iff]
  exact shared_eq_none

theorem checkPositions_eq_ok {n : Node} {set : String} :
    n.checkPositions set = .ok () ↔ ((n.members set).filterMap Node.position).Nodup := by
  rw [checkPositions, ← sharedPosition?_eq_none]
  split <;> simp_all

/-- A proper node whose children in one set were written to is proper again if the check
of the set passes. -/
theorem Proper.checked {n n' : Node} {set : String} (h : n.Proper)
    (branches : n'.Branches)
    (others : ∀ set', set' ≠ set → n'.members set' = n.members set')
    (position : n'.position = n.position) (passed : n'.checkPositions set = .ok ()) :
    n'.Proper := by
  refine branches.toProper (fun p e => h.nonneg (position.symm.trans e)) ?_
  intro set'
  by_cases same : set' = set
  · rw [same]
    exact checkPositions_eq_ok.mp passed
  · rw [others set' same]
    exact h.spread set'

end Positions

section Apply

variable {set : String} {mayCreate : Bool} {id : Int} {old : Option Node}

/-- A message that is accepted removes its element, moves it to a position that is not
below zero, or leaves it where it is.  A missing element is a blank node before. -/
theorem place_cases {position swapPosition : Option Int} {deleted : Option Bool}
    {new : Option Node}
    (h : place set mayCreate id old position swapPosition deleted = .ok new) :
    (new = none ∧ (swapPosition = some absentPosition ∨
      swapPosition = none ∧ deleted = some true)) ∨
      (∃ target, new = some ((old.getD (.blank id)).moveTo (some target)) ∧
        swapPosition = some target ∧ target ≠ absentPosition ∧ 0 ≤ target) ∨
      new = some (old.getD (.blank id)) ∧ swapPosition = none ∧ deleted ≠ some true ∧
        (old = none → mayCreate = true ∨ deleted = some false) := by
  rw [place.eq_def] at h
  cases swapPosition with
  | some target =>
      dsimp only at h
      split_ifs at h with differ gone below <;> obtain rfl := Except.ok.inj h
      · exact .inl ⟨rfl, .inl (congrArg some gone)⟩
      · exact .inr (.inl ⟨target, rfl, rfl, gone, not_lt.mp below⟩)
  | none =>
      dsimp only at h
      split at h
      · obtain rfl := Except.ok.inj h
        exact .inl ⟨rfl, .inr ⟨rfl, rfl⟩⟩
      · cases h
      · obtain rfl := Except.ok.inj h
        exact .inr (.inr ⟨rfl, rfl, by decide, fun _ => .inr rfl⟩)
      · obtain rfl := Except.ok.inj h
        exact .inr (.inr ⟨rfl, rfl, by decide, fun none => by cases none⟩)
      · split_ifs at h with create
        obtain rfl := Except.ok.inj h
        exact .inr (.inr ⟨rfl, rfl, by decide, fun _ => .inl create⟩)

/-- A message that does not remove its element starts from what is there, or from a blank
node, at the old position or a new one that is not below zero. -/
theorem place_eq_ok {position swapPosition : Option Int} {deleted : Option Bool}
    {node : Node}
    (h : place set mayCreate id old position swapPosition deleted = .ok (some node)) :
    ∃ q, node = (old.getD (.blank id)).moveTo q ∧
      (q = (old.getD (.blank id)).position ∨ ∃ target, q = some target ∧ 0 ≤ target) := by
  rcases place_cases h with ⟨gone, -⟩ | ⟨target, moved, -, -, nonneg⟩ | ⟨stays, -⟩
  · cases gone
  · exact ⟨some target, Option.some.inj moved, .inr ⟨target, rfl, nonneg⟩⟩
  · exact ⟨_, (Option.some.inj stays).trans (moveTo_self _).symm, .inl rfl⟩

/-- The node from which a message starts is proper, and has the id of the message. -/
theorem place_proper (proper : ∀ n, old = some n → n.Proper ∧ n.id = id)
    {position swapPosition : Option Int} {deleted : Option Bool} {node : Node}
    (h : place set mayCreate id old position swapPosition deleted = .ok (some node)) :
    node.Proper ∧ node.id = id := by
  obtain ⟨q, rfl, hq⟩ := place_eq_ok h
  have start : (old.getD (.blank id)).Proper ∧ (old.getD (.blank id)).id = id := by
    cases old with
    | none => exact ⟨.blank id, rfl⟩
    | some n => exact proper n rfl
  refine ⟨start.1.congr rfl ?_, start.2⟩
  rintro p (hp : q = some p)
  rcases hq with rfl | ⟨target, rfl, nonneg⟩
  · exact start.1.nonneg hp
  · obtain rfl := Option.some.inj hp
    exact nonneg

theorem applyMembers_cons {n n' : Node} {m : Message} {ms : List Message}
    (h : applyMembers n set (m :: ms) = .ok n') :
    ∃ new, applyRecord set false (n.child? set m.id) m = .ok new ∧
      applyMembers (n.withChild set m.id new) set ms = .ok n' := by
  rw [applyMembers] at h
  cases applied : applyRecord set false (n.child? set m.id) m with
  | error e =>
      rw [applied] at h
      cases h
  | ok new =>
      rw [applied] at h
      exact ⟨new, rfl, h⟩

theorem applyGroups_cons {n n' : Node} {members : List Message} {groups : List Group}
    (h : applyGroups n (⟨set, members⟩ :: groups) = .ok n') :
    ∃ n₁, applyMembers n set members = .ok n₁ ∧ n₁.checkPositions set = .ok () ∧
      applyGroups n₁ groups = .ok n' := by
  rw [applyGroups] at h
  cases applied : applyMembers n set members with
  | error e =>
      rw [applied] at h
      cases h
  | ok n₁ =>
      rw [applied] at h
      change (n₁.checkPositions set >>= fun _ => applyGroups n₁ groups) = .ok n' at h
      cases checked : n₁.checkPositions set with
      | error e =>
          rw [checked] at h
          cases h
      | ok =>
          rw [checked] at h
          exact ⟨n₁, rfl, checked, h⟩

/-- What a message that leaves its element does to it. -/
theorem applyRecord_eq_ok {m : Message} {new : Option Node}
    (h : applyRecord set mayCreate old m = .ok new) :
    ∃ placed, place set mayCreate m.id old m.position m.swapPosition m.deleted = .ok placed ∧
      match placed with
      | none => new = none
      | some node => ∃ n', applyGroups (node.writeFields m.fields) m.children = .ok n' ∧
          new = some n' := by
  obtain ⟨id, fields, children, position, swapPosition, deleted⟩ := m
  rw [applyRecord] at h
  cases placed : place set mayCreate id old position swapPosition deleted with
  | error e =>
      rw [placed] at h
      cases h
  | ok node =>
      rw [placed] at h
      refine ⟨node, rfl, ?_⟩
      cases node with
      | none => exact (Except.ok.inj h).symm
      | some node =>
          change (applyGroups (node.writeFields fields) children).map some = .ok new at h
          cases written : applyGroups (node.writeFields fields) children with
          | error e =>
              rw [written] at h
              cases h
          | ok n' =>
              rw [written] at h
              exact ⟨n', written, (Except.ok.inj h).symm⟩

mutual

/-- A message that is accepted leaves a proper element, which has the id of the
message. -/
theorem applyRecord_proper {m : Message} {new : Node} (set : String) (mayCreate : Bool)
    (old : Option Node) (proper : ∀ n, old = some n → n.Proper ∧ n.id = m.id)
    (h : applyRecord set mayCreate old m = .ok (some new)) :
    new.Proper ∧ new.id = m.id := by
  obtain ⟨id, fields, children, position, swapPosition, deleted⟩ := m
  obtain ⟨node, placed, h⟩ := applyRecord_eq_ok h
  cases node with
  | none => cases h
  | some node =>
      obtain ⟨n', written, e⟩ := h
      obtain rfl := Option.some.inj e
      obtain ⟨hp, hid⟩ := place_proper proper placed
      obtain ⟨hp', hid', -⟩ := applyGroups_proper children (hp.writeFields fields) written
      exact ⟨hp', hid'.trans hid⟩

theorem applyGroups_proper {n n' : Node} (groups : List Group) (h : n.Proper)
    (ha : applyGroups n groups = .ok n') :
    n'.Proper ∧ n'.id = n.id ∧ n'.position = n.position ∧ n'.fields = n.fields := by
  match groups with
  | [] =>
      cases ha
      exact ⟨h, rfl, rfl, rfl⟩
  | ⟨set, members⟩ :: rest =>
      obtain ⟨n₁, inner, checked, ha⟩ := applyGroups_cons ha
      obtain ⟨branches, others, hid, hp, hf⟩ :=
        applyMembers_branches set members h.branches inner
      have proper := h.checked branches others hp checked
      obtain ⟨proper', hid', hp', hf'⟩ := applyGroups_proper rest proper ha
      exact ⟨proper', hid'.trans hid, hp'.trans hp, hf'.trans hf⟩

/-- Messages of children in one set leave the data of the node and its other sets
alone. -/
theorem applyMembers_branches {n n' : Node} (set : String) (members : List Message)
    (h : n.Branches) (ha : applyMembers n set members = .ok n') :
    n'.Branches ∧ (∀ set', set' ≠ set → n'.members set' = n.members set') ∧
      n'.id = n.id ∧ n'.position = n.position ∧ n'.fields = n.fields := by
  match members with
  | [] =>
      cases ha
      exact ⟨h, fun _ _ => rfl, rfl, rfl, rfl⟩
  | m :: rest =>
      obtain ⟨new, inner, ha⟩ := applyMembers_cons ha
      have proper : ∀ c, new = some c → c.Proper ∧ c.id = m.id := by
        rintro c rfl
        exact applyRecord_proper set false
          _ (fun n₀ found => ⟨h.child? found, id_of_child? found⟩) inner
      obtain ⟨branches, others, hid, hp, hf⟩ :=
        applyMembers_branches set rest (h.withChild proper) ha
      refine ⟨branches, ?_, ?_, ?_, ?_⟩
      · intro set' other
        rw [others set' other, members_withChild other]
      · rw [hid]
        cases new <;> rfl
      · rw [hp]
        cases new <;> rfl
      · rw [hf]
        cases new <;> rfl

end

/-- What a message that is accepted makes of a child is proper, and has the id of the
message. -/
theorem Branches.child_proper {n : Node} (h : n.Branches) {m : Message}
    {new : Option Node} (ha : applyRecord set mayCreate (n.child? set m.id) m = .ok new) :
    ∀ c, new = some c → c.Proper ∧ c.id = m.id := by
  rintro c rfl
  exact applyRecord_proper set mayCreate _
    (fun n₀ found => ⟨h.child? found, id_of_child? found⟩) ha

/-- The roots after a patch of one of them. -/
theorem apply_eq_ok {forest forest' : Node} {k : String} {patch : Message}
    (h : forest.apply k patch = .ok forest') :
    ∃ new, applyRecord k true (forest.child? k patch.id) patch = .ok new ∧
      forest' = forest.withChild k patch.id new := by
  rw [apply] at h
  cases applied : applyRecord k true (forest.child? k patch.id) patch with
  | error e =>
      rw [applied] at h
      cases h
  | ok new =>
      rw [applied] at h
      exact ⟨new, rfl, (Except.ok.inj h).symm⟩

end Apply

end Node

end RecordSync
