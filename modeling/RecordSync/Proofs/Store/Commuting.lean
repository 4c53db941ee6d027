import RecordSync.Proofs.Store.History
import RecordSync.Proofs.Store.Paths

/-!
# Patches that commute

A patch that moves nothing and removes nothing changes fields only: it finds the records
that it names, and makes none but a missing root.  Whether it is refused is decided by
which records there are, and not by what they hold, so two such patches do not come in
each other's way.  If besides no field of a record is written by both, it does not matter
in which order they arrive.

**Writes.**  `Message.writes` are the fields that a message writes at the end of a path;
an element that is named more than once is written to more than once, and the last write
of a field stays.

**Results.**
* `Node.tell_writes`: what a quiet message does to the views of a node.
* `Node.tell_agree`: a quiet message is refused or accepted by nodes with the same records
  below them alike.
* `Node.tell_comm`: two quiet messages that write no field both leave the same in either
  order.
* `Store.Fed.quiet_patches_commute`: two quiet patches of one root commute, and both
  survive.
-/

namespace RecordSync

namespace Message

/-- A message that moves nothing and removes nothing, at any depth. -/
inductive Quiet : Message → Prop
  | intro {m : Message} :
      m.swapPosition = none → m.deleted = none →
      (∀ g ∈ m.children, ∀ c ∈ g.members, Quiet c) → Quiet m

/-- The fields that a message writes at the end of a path, in the order in which it
does. -/
def writes (m : Message) : Path → List (String × Value)
  | [] => m.fields
  | (set, id) :: path =>
    (m.children.filter (fun g => g.name = set)).flatMap (fun g =>
      (g.members.filter (fun c => c.id = id)).flatMap (fun c => c.writes path))

/-- The value that a message leaves in a field at the end of a path, if it writes it. -/
def lastWrite (m : Message) (field : String) (path : Path) : Option Value :=
  (SortedList.find? Prod.fst field (m.writes path).reverse).map Prod.snd

/-- What messages of elements of one set write below the record that holds the set. -/
def memberWrites (set : String) (members : List Message) : Path → List (String × Value)
  | [] => []
  | (set', id) :: path =>
    if set = set' then (members.filter (fun c => c.id = id)).flatMap
      (fun c => c.writes path) else []

/-- What groups of messages write below their record. -/
def groupWrites (groups : List Group) (path : Path) : List (String × Value) :=
  groups.flatMap (fun g => memberWrites g.name g.members path)

/-- What fields of a message write: they are written at its own record. -/
def ownWrites (fields : List (String × Value)) : Path → List (String × Value)
  | [] => fields
  | _ :: _ => []

theorem memberWrites_cons (set : String) (m : Message) (ms : List Message) (path : Path) :
    memberWrites set (m :: ms) path = memberWrites set [m] path ++
      memberWrites set ms path := by
  cases path with
  | nil => rfl
  | cons step path =>
      obtain ⟨set', id⟩ := step
      simp only [memberWrites]
      split_ifs
      · rw [← List.singleton_append, List.filter_append, List.flatMap_append]
      · rfl

theorem groupWrites_cons (g : Group) (groups : List Group) (path : Path) :
    groupWrites (g :: groups) path =
      memberWrites g.name g.members path ++ groupWrites groups path :=
  List.flatMap_cons

theorem writes_eq (m : Message) (path : Path) :
    m.writes path = ownWrites m.fields path ++ groupWrites m.children path := by
  cases path with
  | nil =>
      have none : ∀ groups : List Group, groupWrites groups [] = [] := by
        intro groups
        rw [groupWrites, List.flatMap_eq_nil_iff]
        exact fun _ _ => rfl
      rw [none, List.append_nil]
      rfl
  | cons step path =>
      obtain ⟨set, id⟩ := step
      show List.flatMap _ (m.children.filter _) = _
      rw [ownWrites, List.nil_append, groupWrites]
      induction m.children with
      | nil => rfl
      | cons g groups ih =>
          rw [List.flatMap_cons, ← ih, List.filter_cons]
          simp only [memberWrites]
          by_cases here : g.name = set <;> simp [here]

/-- Nowhere does a message write a field. -/
inductive Spares (field : String) : Message → Prop
  | intro {m : Message} :
      (∀ x ∈ m.fields, x.1 ≠ field) →
      (∀ g ∈ m.children, ∀ c ∈ g.members, Spares field c) →
      Spares field m

theorem Spares.lastWrite {m : Message} {field : String} (h : m.Spares field)
    (path : Path) : m.lastWrite field path = none := by
  have none : ∀ x ∈ m.writes path, x.1 ≠ field := by
    induction path generalizing m with
    | nil =>
        obtain ⟨own, -⟩ := h
        exact own
    | cons step path ih =>
        obtain ⟨-, inner⟩ := h
        intro x hx
        obtain ⟨g, hg, hx⟩ := List.mem_flatMap.mp hx
        obtain ⟨c, hc, hx⟩ := List.mem_flatMap.mp hx
        exact ih (inner g (List.mem_filter.mp hg).1 c (List.mem_filter.mp hc).1) x hx
  rw [Message.lastWrite, Option.map_eq_none_iff, SortedList.find?_eq_none_iff]
  exact fun x hx => none x (List.mem_reverse.mp hx)

end Message

namespace Node

open Message (memberWrites groupWrites ownWrites memberWrites_cons groupWrites_cons writes_eq)

variable {n n' n'' : Node} {set : String} {id : Int} {w w' : Path → List (String × Value)}

section Writes

/-- The position and the fields of a node after fields were written. -/
def written (fields : List (String × Value)) (x : Option Int × List (String × Value)) :
    Option Int × List (String × Value) :=
  (x.1, fields.foldl (fun acc y => SortedList.insert Prod.fst y acc) x.2)

theorem written_append (a b : List (String × Value))
    (x : Option Int × List (String × Value)) :
    written (a ++ b) x = written b (written a x) := by
  rw [written, List.foldl_append]
  rfl

/-- What is read after fields were written: the last value that was written, and else the
old one. -/
theorem find?_written (field : String) (fields : List (String × Value))
    (x : Option Int × List (String × Value)) :
    SortedList.find? Prod.fst field (written fields x).2 =
      (SortedList.find? Prod.fst field fields.reverse).or
      (SortedList.find? Prod.fst field x.2) :=
  SortedList.find?_foldl_insert_reverse fields x.2

/-- Writes of different fields commute. -/
theorem written_comm {a b : List (String × Value)}
    (apart : ∀ field, SortedList.find? Prod.fst field a.reverse = none ∨
      SortedList.find? Prod.fst field b.reverse = none)
    {x : Option Int × List (String × Value)} (sorted : SortedList.Sorted Prod.fst x.2) :
    written (a ++ b) x = written (b ++ a) x := by
  refine Prod.ext rfl (SortedList.ext_find? (SortedList.sorted_foldl_insert sorted _)
    (SortedList.sorted_foldl_insert sorted _) (fun field => ?_))
  rw [find?_written, find?_written, List.reverse_append, List.reverse_append,
    SortedList.find?_append, SortedList.find?_append]
  rcases apart field with none | none <;> simp [none]

/-- A node after fields were written at the end of paths that lead from it to nodes. -/
structure Writes (n n' : Node) (w : Path → List (String × Value)) : Prop where
  view : ∀ path, n'.view path = (n.view path).map (written (w path))
  found : ∀ path, n.view path = none → w path = []

namespace Writes

theorem isSome_view (h : n.Writes n' w) (path : Path) :
    (n'.view path).isSome = (n.view path).isSome := by
  rw [h.view, Option.isSome_map]

theorem congr (h : n.Writes n' w) (same : ∀ path, w' path = w path) : n.Writes n' w' := by
  obtain rfl : w' = w := funext same
  exact h

theorem refl (n : Node) : n.Writes n (fun _ => []) :=
  ⟨fun path => by cases n.view path <;> rfl, fun _ _ => rfl⟩

theorem trans (h : n.Writes n' w) (h' : n'.Writes n'' w') :
    n.Writes n'' (fun path => w path ++ w' path) := by
  refine ⟨fun path => ?_, fun path gone => ?_⟩
  · rw [h'.view, h.view]
    cases n.view path with
    | none => rfl
    | some x => simp only [Option.map_some, written_append]
  · rw [h.found path gone, h'.found path (by rw [h.view, gone]; rfl)]
    rfl

theorem fields (n : Node) (fields : List (String × Value)) :
    n.Writes (n.writeFields fields) (ownWrites fields) := by
  refine ⟨fun path => ?_, fun path gone => ?_⟩
  · cases path with
    | nil => rfl
    | cons step path =>
        show n.view (step :: path) = (n.view (step :: path)).map (written [])
        cases n.view (step :: path) <;> rfl
  · cases path with
    | nil => cases gone
    | cons => rfl

/-- What is written to a child is written below the node. -/
theorem child {c c' : Node} {m : Message} (found : n.child? set m.id = some c)
    (h : c.Writes c' m.writes) (own : c'.id = m.id) :
    n.Writes (n.withChild set m.id (some c')) (memberWrites set [m]) := by
  have children : ∀ set' id, (n.withChild set m.id (some c')).child? set' id =
      if set' = set ∧ id = m.id then some c' else n.child? set' id :=
    child?_withChild (fun x e => Option.some.inj e ▸ own)
  refine ⟨fun path => ?_, fun path gone => ?_⟩
  · cases path with
    | nil => rfl
    | cons step path =>
        obtain ⟨set', id⟩ := step
        rw [view_cons, view_cons, children, memberWrites]
        by_cases here : set' = set ∧ id = m.id
        · obtain ⟨rfl, rfl⟩ := here
          rw [if_pos ⟨rfl, rfl⟩, if_pos rfl, found]
          simpa using h.view path
        · have none : (if set = set' then ([m].filter (fun c => c.id = id)).flatMap
              (fun c => c.writes path) else []) = [] := by
            split_ifs with same
            · have other : m.id ≠ id := fun e => here ⟨same.symm, e.symm⟩
              simp [other]
            · rfl
          rw [if_neg here, none]
          cases (n.child? set' id).bind (fun c => c.view path) <;> rfl
  · cases path with
    | nil => rfl
    | cons step path =>
        obtain ⟨set', id⟩ := step
        rw [memberWrites]
        split_ifs with same
        · subst same
          by_cases here : m.id = id
          · subst here
            rw [view_cons, found] at gone
            simpa using h.found path gone
          · simp [here]
        · rfl

end Writes

end Writes

section Tell

/-- What a message does to a node that it neither moves nor removes. -/
def tell (n : Node) (m : Message) : Except StoreError Node :=
  applyGroups (n.writeFields m.fields) m.children

theorem applyRecord_of_quiet {m : Message} (quiet : m.Quiet) (mayCreate : Bool)
    (n : Node) : applyRecord set mayCreate (some n) m = (n.tell m).map some := by
  obtain ⟨id, fields, children, position, swapPosition, deleted⟩ := m
  obtain ⟨rfl, rfl, -⟩ := quiet
  rw [applyRecord]
  rfl

theorem applyRecord_of_missing {m : Message} (quiet : m.Quiet) :
    applyRecord set false none m = .error (.missingElement set m.id) := by
  obtain ⟨id, fields, children, position, swapPosition, deleted⟩ := m
  obtain ⟨rfl, rfl, -⟩ := quiet
  rw [applyRecord]
  rfl

/-- A root that is missing is made. -/
theorem applyRecord_of_quiet_root {m : Message} (quiet : m.Quiet) (old : Option Node) :
    applyRecord set true old m = ((old.getD (.blank m.id)).tell m).map some := by
  cases old with
  | some n => exact applyRecord_of_quiet quiet true n
  | none =>
      obtain ⟨id, fields, children, position, swapPosition, deleted⟩ := m
      obtain ⟨rfl, rfl, -⟩ := quiet
      rw [applyRecord]
      rfl

theorem map_some_eq_ok {x : Except StoreError Node} {new : Option Node}
    (h : x.map some = .ok new) : ∃ n, x = .ok n ∧ new = some n := by
  cases x with
  | error e => cases h
  | ok n => exact ⟨n, rfl, (Except.ok.inj h).symm⟩

theorem map_some_bind {x : Except StoreError Node}
    {next : Option Node → Except StoreError Node} :
    (x.map some >>= next) = (x >>= fun n => next (some n)) := by
  cases x <;> rfl

theorem Proper.tell (h : n.Proper) {m : Message} (told : n.tell m = .ok n') :
    n'.Proper ∧ n'.id = n.id := by
  obtain ⟨proper, id, -⟩ := applyGroups_proper m.children (h.writeFields m.fields) told
  exact ⟨proper, id⟩

mutual

/-- A quiet message that is accepted writes its fields to nodes that are there, and does
nothing else. -/
theorem tell_writes {n n' : Node} (m : Message) (quiet : m.Quiet) (h : n.Proper)
    (told : n.tell m = .ok n') : n.Writes n' m.writes := by
  obtain ⟨id, fields, children, position, swapPosition, deleted⟩ := m
  obtain ⟨-, -, inner⟩ := quiet
  have below := applyGroups_writes children inner (h.writeFields fields) told
  exact ((Writes.fields n fields).trans below).congr (fun path => writes_eq _ path)

theorem applyGroups_writes {n n' : Node} (groups : List Group)
    (quiet : ∀ g ∈ groups, ∀ c ∈ g.members, c.Quiet) (h : n.Proper)
    (ha : applyGroups n groups = .ok n') : n.Writes n' (groupWrites groups) := by
  match groups with
  | [] =>
      cases ha
      exact .refl n
  | ⟨set, members⟩ :: rest =>
      obtain ⟨n₁, inner, checked, ha⟩ := applyGroups_cons ha
      obtain ⟨branches, others, -, hp, -⟩ :=
        applyMembers_branches set members h.branches inner
      have first :=
        applyMembers_writes members (quiet _ List.mem_cons_self) h.branches inner
      have later := applyGroups_writes rest (fun g hg => quiet g (List.mem_cons_of_mem _ hg))
        (h.checked branches others hp checked) ha
      exact (first.trans later).congr (fun path => groupWrites_cons _ rest path)

theorem applyMembers_writes {n n' : Node} {set : String} (members : List Message)
    (quiet : ∀ c ∈ members, c.Quiet) (h : n.Branches)
    (ha : applyMembers n set members = .ok n') :
    n.Writes n' (memberWrites set members) := by
  match members with
  | [] =>
      cases ha
      refine (Writes.refl n).congr (fun path => ?_)
      cases path with
      | nil => rfl
      | cons step path => exact ite_self _
  | m :: rest =>
      obtain ⟨new, inner, ha⟩ := applyMembers_cons ha
      have own := quiet m List.mem_cons_self
      have branches : (n.withChild set m.id new).Branches :=
        h.withChild (h.child_proper inner)
      cases found : n.child? set m.id with
      | none =>
          rw [found, applyRecord_of_missing own] at inner
          cases inner
      | some c =>
          rw [found, applyRecord_of_quiet own] at inner
          obtain ⟨c', told, rfl⟩ := map_some_eq_ok inner
          have proper := h.child? found
          have first := (tell_writes m own proper told).child found
            ((proper.tell told).2.trans (id_of_child? found))
          have later := applyMembers_writes rest
            (fun c hc => quiet c (List.mem_cons_of_mem _ hc)) branches ha
          exact (first.trans later).congr (fun path => memberWrites_cons set m rest path)

end

end Tell

section Outline

/-- Two nodes with the same records below them, whatever these hold. -/
def SameOutline (n n' : Node) : Prop :=
  ∀ path, (n.view path).isSome = (n'.view path).isSome

theorem Writes.outline {m m' : Node} (same : n.SameOutline m) (h : n.Writes n' w)
    (h' : m.Writes m' w') : n'.SameOutline m' := fun path => by
  rw [h.isSome_view, h'.isSome_view, same path]

theorem SameOutline.child {c : Node} (same : n.SameOutline n')
    (found : n.child? set id = some c) :
    ∃ c', n'.child? set id = some c' ∧ c.SameOutline c' := by
  have there := same [(set, id)]
  rw [isSome_view_child, isSome_view_child, found] at there
  obtain ⟨c', found'⟩ := Option.isSome_iff_exists.mp there.symm
  refine ⟨c', found', fun path => ?_⟩
  have below := same ((set, id) :: path)
  rwa [view_cons, view_cons, found, found'] at below

theorem SameOutline.gone (same : n.SameOutline n') (gone : n.child? set id = none) :
    n'.child? set id = none := by
  have there := same [(set, id)]
  rw [isSome_view_child, isSome_view_child, gone] at there
  exact Option.isNone_iff_eq_none.mp (Option.isSome_eq_false_iff.mp there.symm)

/-- The check of a set passes after writes, which move no one. -/
theorem Proper.check_writes (h : n.Proper) (branches : n'.Branches)
    (writes : n.Writes n' w) (set : String) : n'.checkPositions set = .ok () := by
  have before : ∀ c q, n'.child? set c.id = some c → c.position = some q →
      ∃ c₀, n.child? set c.id = some c₀ ∧ c₀.position = some q := by
    intro c q found hq
    have seat := writes.view [(set, c.id)]
    rw [view_cons, view_cons, found] at seat
    obtain ⟨x, there, same⟩ := Option.map_eq_some_iff.mp seat.symm
    obtain ⟨c₀, found₀, seen⟩ := Option.bind_eq_some_iff.mp there
    obtain rfl := Option.some.inj seen
    have kept : c₀.position = c.position := congrArg Prod.fst same
    exact ⟨c₀, found₀, kept.trans hq⟩
  rw [checkPositions_eq_ok, branches.spread_iff]
  intro c d q hc hd hcq hdq
  obtain ⟨c₀, found, seat⟩ := before c q hc hcq
  obtain ⟨d₀, found', seat'⟩ := before d q hd hdq
  have ids := (h.branches.spread_iff set).mp (h.spread set) c₀ d₀ q
  rw [id_of_child? found, id_of_child? found'] at ids
  exact ids found found' seat seat'

end Outline

section Agreement

mutual

/-- A quiet message is answered alike by nodes with the same records below them. -/
theorem tell_agree {n n' : Node} (m : Message) (quiet : m.Quiet) (h : n.Proper)
    (h' : n'.Proper) (same : n.SameOutline n') :
    Agree (fun _ _ => True) (n.tell m) (n'.tell m) := by
  obtain ⟨id, fields, children, position, swapPosition, deleted⟩ := m
  obtain ⟨-, -, inner⟩ := quiet
  exact applyGroups_agree children inner (h.writeFields fields) (h'.writeFields fields)
    ((Writes.fields n fields).outline same (Writes.fields n' fields))

theorem applyGroups_agree {n n' : Node} (groups : List Group)
    (quiet : ∀ g ∈ groups, ∀ c ∈ g.members, c.Quiet) (h : n.Proper) (h' : n'.Proper)
    (same : n.SameOutline n') :
    Agree (fun _ _ => True) (applyGroups n groups) (applyGroups n' groups) := by
  match groups with
  | [] => exact trivial
  | ⟨set, members⟩ :: rest =>
      have own := quiet _ List.mem_cons_self
      rw [applyGroups, applyGroups]
      refine (applyMembers_agree members own h.branches h'.branches same).with_results.bind ?_
      rintro n₁ n₁' - ⟨ha, ha', -⟩
      have writes := applyMembers_writes members own h.branches ha
      have writes' := applyMembers_writes members own h'.branches ha'
      obtain ⟨branches, others, -, hp, -⟩ :=
        applyMembers_branches set members h.branches ha
      obtain ⟨branches', others', -, hp', -⟩ :=
        applyMembers_branches set members h'.branches ha'
      have passed := h.check_writes branches writes set
      have passed' := h'.check_writes branches' writes' set
      rw [passed, passed']
      exact applyGroups_agree rest (fun g hg => quiet g (List.mem_cons_of_mem _ hg))
        (h.checked branches others hp passed) (h'.checked branches' others' hp' passed')
        (writes.outline same writes')

theorem applyMembers_agree {n n' : Node} {set : String} (members : List Message)
    (quiet : ∀ c ∈ members, c.Quiet) (h : n.Branches) (h' : n'.Branches)
    (same : n.SameOutline n') :
    Agree (fun _ _ => True) (applyMembers n set members) (applyMembers n' set members) := by
  match members with
  | [] => exact trivial
  | m :: rest =>
      have own := quiet m List.mem_cons_self
      rw [applyMembers, applyMembers]
      cases found : n.child? set m.id with
      | none =>
          rw [same.gone found, applyRecord_of_missing own]
          exact rfl
      | some c =>
          obtain ⟨c', found', inner⟩ := same.child found
          have proper := h.child? found
          have proper' := h'.child? found'
          rw [found', applyRecord_of_quiet own, applyRecord_of_quiet own, map_some_bind,
            map_some_bind]
          refine (tell_agree m own proper proper' inner).with_results.bind ?_
          rintro b b' - ⟨told, told', -⟩
          obtain ⟨kept, id⟩ := proper.tell told
          obtain ⟨kept', id'⟩ := proper'.tell told'
          have own_id := id.trans (id_of_child? found)
          have own_id' := id'.trans (id_of_child? found')
          exact applyMembers_agree rest (fun x hx => quiet x (List.mem_cons_of_mem _ hx))
            (h.withChild (fun x e => Option.some.inj e ▸ ⟨kept, own_id⟩))
            (h'.withChild (fun x e => Option.some.inj e ▸ ⟨kept', own_id'⟩))
            (((tell_writes m own proper told).child found own_id).outline same
              ((tell_writes m own proper' told').child found' own_id'))

end

end Agreement

section Forest

variable {forest p q : Node} {k : String} {P Q : Message}

/-- A quiet message is answered after another one as it was before: the outline is the
same. -/
theorem tell_after (h : n.Proper) (quiet : P.Quiet) (quiet' : Q.Quiet)
    (hp : n.tell P = .ok p) : Agree (fun _ _ => True) (p.tell Q) (n.tell Q) :=
  tell_agree Q quiet' (h.tell hp).1 h (tell_writes P quiet h hp).isSome_view

/-- Two quiet messages that write no field both and that a node accepts are accepted after
one another, and leave the same message in either order. -/
theorem tell_comm (h : n.Proper) (ordered : n.Ordered) (quiet : P.Quiet)
    (quiet' : Q.Quiet)
    (apart : ∀ field path, P.lastWrite field path = none ∨ Q.lastWrite field path = none)
    (hp : n.tell P = .ok p) (hq : n.tell Q = .ok q) :
    ∃ pq qp, p.tell Q = .ok pq ∧ q.tell P = .ok qp ∧ pq.Branches ∧ pq.id = n.id ∧
      qp.id = n.id ∧ n.Writes pq (fun path => P.writes path ++ Q.writes path) ∧
      pq.message = qp.message := by
  obtain ⟨pq, hpq, -⟩ := (tell_after h quiet quiet' hp).of_ok_right hq
  obtain ⟨qp, hqp, -⟩ := (tell_after h quiet' quiet hq).of_ok_right hp
  obtain ⟨proper, own⟩ := h.tell hp
  obtain ⟨proper', own'⟩ := h.tell hq
  obtain ⟨proper₁, id₁⟩ := proper.tell hpq
  obtain ⟨proper₂, id₂⟩ := proper'.tell hqp
  have writes := (tell_writes P quiet h hp).trans (tell_writes Q quiet' proper hpq)
  have writes' := (tell_writes Q quiet' h hq).trans (tell_writes P quiet proper' hqp)
  refine ⟨pq, qp, hpq, hqp, proper₁.branches, id₁.trans own, id₂.trans own', writes, ?_⟩
  refine message_eq_of_view proper₁.branches proper₂.branches
    ((id₁.trans own).trans (id₂.trans own').symm) (fun path => ?_)
  rw [writes.view, writes'.view]
  cases seen : n.view path with
  | none => rfl
  | some x =>
      refine congrArg some (written_comm (fun field => ?_) (ordered.view seen))
      simpa only [Message.lastWrite, Option.map_eq_none_iff] using apart field path

theorem withChild_withChild {c : Node} (own : c.id = id) (new : Option Node) :
    (n.withChild set id (some c)).withChild set id new = n.withChild set id new := by
  have erased : SortedList.erase childKey (set, id)
      (SortedList.erase childKey (set, id) n.children ++ [(set, c)]) =
        SortedList.erase childKey (set, id) n.children := by
    simp [SortedList.erase, childKey, own]
  cases new <;> simp only [withChild, erased]

/-- What is loaded after a root was put in. -/
theorem load_withChild {c : Node} (own : c.id = id) (k' : String) (id' : Int) :
    (forest.withChild k id (some c)).load k' id' =
      if k' = k ∧ id' = id then .ok c.message else forest.load k' id' := by
  rw [load, child?_withChild (fun x e => Option.some.inj e ▸ own)]
  split_ifs <;> rfl

/-- The root of an id, or the blank one that is made if it is missing. -/
def root (forest : Node) (k : String) (id : Int) : Node :=
  (forest.child? k id).getD (.blank id)

theorem root_withChild {c : Node} (own : c.id = id) :
    (forest.withChild k id (some c)).root k id = c := by
  rw [root, child?_withChild (fun x e => Option.some.inj e ▸ own), if_pos ⟨rfl, rfl⟩]
  rfl

theorem Branches.root (h : forest.Branches) (k : String) (id : Int) :
    (forest.root k id).Proper ∧ (forest.root k id).id = id := by
  rw [Node.root]
  cases found : forest.child? k id with
  | none => exact ⟨.blank id, rfl⟩
  | some c => exact ⟨h.child? found, id_of_child? found⟩

theorem Ordered.root (h : forest.Ordered) (k : String) (id : Int) :
    (forest.root k id).Ordered := by
  rw [Node.root]
  cases found : forest.child? k id with
  | none => exact .blank id
  | some c => exact h.child? found

theorem apply_of_quiet (quiet : P.Quiet) :
    forest.apply k P =
      ((forest.root k P.id).tell P).map (fun n => forest.withChild k P.id (some n)) := by
  rw [apply, applyRecord_of_quiet_root quiet, root]
  cases ((forest.child? k P.id).getD (.blank P.id)).tell P <;> rfl

/-- The answers to two quiet patches of one root of which the first one is accepted. -/
theorem answers_of_accepted (quiet : P.Quiet) (quiet' : Q.Quiet) (hP : P.id = id)
    (hQ : Q.id = id) (told : (forest.root k id).tell P = .ok p) (own : p.id = id) :
    forest.answers [(k, P), (k, Q)] =
      match p.tell Q with
      | .ok n => ([.ok (), .ok ()], forest.withChild k id (some n))
      | .error e => ([.ok (), .error e], forest.withChild k id (some p)) := by
  have second : (forest.withChild k id (some p)).apply k Q =
      (p.tell Q).map (fun n => forest.withChild k id (some n)) := by
    simp only [apply_of_quiet quiet', hQ, root_withChild own, withChild_withChild own]
  rw [answers, answerAll, apply_of_quiet quiet, hP, told]
  simp only [Except.map, settlePatch, answerAll, second]
  cases p.tell Q <;> rfl

/-- The answers to two quiet patches of one root of which the first one is refused. -/
theorem answers_of_refused (quiet : P.Quiet) (quiet' : Q.Quiet) (hP : P.id = id)
    (hQ : Q.id = id) {e : StoreError} (told : (forest.root k id).tell P = .error e) :
    forest.answers [(k, P), (k, Q)] =
      match (forest.root k id).tell Q with
      | .ok n => ([.error e, .ok ()], forest.withChild k id (some n))
      | .error e' => ([.error e, .error e'], forest) := by
  rw [answers, answerAll, apply_of_quiet quiet, hP, told]
  simp only [Except.map, settlePatch, answerAll, apply_of_quiet quiet', hQ]
  cases (forest.root k id).tell Q <;> rfl

/-- Two quiet patches of one root that write no field both are answered alike in either
order, and the forest then loads the same; if both are accepted, all their writes are in
it. -/
theorem quiet_answers (branches : forest.Branches) (ordered : forest.Ordered)
    (quiet : P.Quiet) (quiet' : Q.Quiet) (hP : P.id = id) (hQ : Q.id = id)
    (apart : ∀ field path, P.lastWrite field path = none ∨ Q.lastWrite field path = none) :
    ∃ a b, (forest.answers [(k, P), (k, Q)]).1 = [a, b] ∧
      (forest.answers [(k, Q), (k, P)]).1 = [b, a] ∧
      (∀ k' id', (forest.answers [(k, P), (k, Q)]).2.load k' id' =
        (forest.answers [(k, Q), (k, P)]).2.load k' id') ∧
      (a = .ok () → b = .ok () → ∃ n : Node, n.Branches ∧
        (forest.answers [(k, P), (k, Q)]).2.load k id = .ok n.message ∧
        (forest.root k id).Writes n (fun path => P.writes path ++ Q.writes path)) := by
  obtain ⟨proper, own⟩ := branches.root k id
  have kept : ∀ {m : Message} {p : Node}, (forest.root k id).tell m = .ok p → p.id = id :=
    fun told => (proper.tell told).2.trans own
  cases hp : (forest.root k id).tell P with
  | ok p =>
      have first := answers_of_accepted quiet quiet' hP hQ hp (kept hp)
      cases hq : (forest.root k id).tell Q with
      | ok q =>
          have second := answers_of_accepted quiet' quiet hQ hP hq (kept hq)
          obtain ⟨pq, qp, hpq, hqp, branches, id₁, id₂, writes, same⟩ :=
            tell_comm proper (ordered.root k id) quiet quiet' apart hp hq
          rw [hpq] at first
          rw [hqp] at second
          rw [first, second]
          refine ⟨.ok (), .ok (), rfl, rfl, fun k' id' => ?_,
            fun _ _ => ⟨pq, branches, ?_, writes⟩⟩
          · rw [load_withChild (id₁.trans own), load_withChild (id₂.trans own), same]
          · rw [load_withChild (id₁.trans own), if_pos ⟨rfl, rfl⟩]
      | error e =>
          have second := answers_of_refused quiet' quiet hQ hP hq
          rw [(tell_after proper quiet quiet' hp).of_error_right hq] at first
          rw [hp] at second
          rw [first, second]
          exact ⟨.ok (), .error e, rfl, rfl, fun _ _ => rfl, fun _ refused => by cases refused⟩
  | error e =>
      have first := answers_of_refused quiet quiet' hP hQ hp
      cases hq : (forest.root k id).tell Q with
      | ok q =>
          have second := answers_of_accepted quiet' quiet hQ hP hq (kept hq)
          rw [(tell_after proper quiet' quiet hq).of_error_right hp] at second
          rw [hq] at first
          rw [first, second]
          exact ⟨.error e, .ok (), rfl, rfl, fun _ _ => rfl, fun refused => by cases refused⟩
      | error e' =>
          have second := answers_of_refused quiet' quiet hQ hP hq
          rw [hq] at first
          rw [hp] at second
          rw [first, second]
          exact ⟨.error e, .error e', rfl, rfl, fun _ _ => rfl,
            fun refused => by cases refused⟩

end Forest

end Node

namespace Store

variable {U : Set Bytes} {digest : Bytes → Bytes} {s : Store} {forest : Node} {k : String}
  {P Q : Message}

/-- The value that is loaded for a field at the end of a path below a root, if there is
one. -/
def value? (s : Store) (k : String) (id : Int) (field : String) (path : Path) :
    Option Value :=
  match s.load k id with
  | .ok m => m.value? field path
  | .error _ => none

/-- What the table loads for a field is what the forest has there; a missing root is as
good as a blank one. -/
theorem ShowsForest.value? (h : s.ShowsForest U forest) (id : Int) (field : String)
    (path : Path) : s.value? k id field path = ((forest.root k id).view path).bind
      (fun x => (SortedList.find? Prod.fst field x.2).map Prod.snd) := by
  rw [Store.value?, h.load, Node.load, Node.root]
  cases found : forest.child? k id with
  | some n => exact Node.value?_message (h.branches.child? found).branches field path
  | none => cases path <;> rfl

/-- A table that was given any patches shows a forest whose fields are in order, and does
so with any class of strings that has those of the table, if their digests are
distinct. -/
theorem Fed.ordered_forest (fed : Fed (fun _ _ => True) digest s)
    (named : Set.InjOn s.digest U) (stored : ∀ e ∈ s.contents, e.2 ∈ U) :
    ∃ forest, s.ShowsForest U forest ∧ forest.Ordered := by
  obtain ⟨U', forest, shows, grown⟩ := fed.forest (fun _ _ _ _ => trivial)
  have sound : s.Sound U :=
    ⟨shows.sound.tabled, named, fun e he => ⟨(shows.sound.entries e he).1, stored e he⟩⟩
  exact ⟨forest, ⟨sound, shows.shows, shows.branches⟩, grown.ordered⟩

/-- Two patches of one root that move nothing and remove nothing, and that write no field
of a record both, commute, whatever patches the table was given before: each is answered
alike in either order, and the table then loads the same.  If both are accepted, all that
each of them writes is loaded afterwards, and else what was loaded before.  No two strings
of the table and of the patches are taken to share a digest. -/
theorem Fed.quiet_patches_commute (fed : Fed (fun _ _ => True) digest s)
    (named : Set.InjOn s.digest U) (stored : ∀ e ∈ s.contents, e.2 ∈ U)
    (known : P.BytesIn U) (known' : Q.BytesIn U) (quiet : P.Quiet) (quiet' : Q.Quiet)
    (same : Q.id = P.id)
    (apart : ∀ field path, P.lastWrite field path = none ∨ Q.lastWrite field path = none) :
    ∃ a b, (s.answers [(k, P), (k, Q)]).1 = [a, b] ∧
      (s.answers [(k, Q), (k, P)]).1 = [b, a] ∧
      (∀ k' id, (s.answers [(k, P), (k, Q)]).2.load k' id =
        (s.answers [(k, Q), (k, P)]).2.load k' id) ∧
      (a = .ok () → b = .ok () →
        ∃ m, (s.answers [(k, P), (k, Q)]).2.load k P.id = .ok m ∧ ∀ field path,
          (∀ v, P.lastWrite field path = some v → m.value? field path = some v) ∧
          (∀ v, Q.lastWrite field path = some v → m.value? field path = some v) ∧
          (P.lastWrite field path = none → Q.lastWrite field path = none →
            m.value? field path = s.value? k P.id field path)) := by
  obtain ⟨forest, shows, ordered⟩ := fed.ordered_forest named stored
  have both : ∀ x ∈ [(k, P), (k, Q)], x.2.BytesIn U := by simp [known, known']
  have both' : ∀ x ∈ [(k, Q), (k, P)], x.2.BytesIn U := by simp [known, known']
  obtain ⟨first, shows₁⟩ := shows.answers both
  obtain ⟨second, shows₂⟩ := shows.answers both'
  obtain ⟨a, b, ab, ba, loads, survive⟩ :=
    Node.quiet_answers (k := k) shows.branches ordered quiet quiet' rfl same apart
  refine ⟨a, b, first.trans ab, second.trans ba, fun k' id => ?_, fun ha hb => ?_⟩
  · rw [shows₁.load, shows₂.load, loads]
  · obtain ⟨n, branches, load, writes⟩ := survive ha hb
    refine ⟨n.message, (shows₁.load k P.id).trans load, fun field path => ?_⟩
    -- What is read afterwards: the write of the second patch, that of the first one, or
    -- the old.
    have read : n.message.value? field path = (Q.lastWrite field path).or
        ((P.lastWrite field path).or (s.value? k P.id field path)) := by
      rw [Node.value?_message branches, writes.view, shows.value?]
      cases seen : (forest.root k P.id).view path with
      | none =>
          obtain ⟨noneP, noneQ⟩ := List.append_eq_nil_iff.mp (writes.found path seen)
          rw [Message.lastWrite, Message.lastWrite, noneP, noneQ]
          rfl
      | some x =>
          rw [Option.map_some, Option.bind_some, Node.find?_written, List.reverse_append,
            SortedList.find?_append, Option.map_or, Option.map_or, Option.or_assoc]
          rfl
    rw [read]
    refine ⟨fun v hv => ?_, fun v hv => ?_, fun noneP noneQ => ?_⟩
    · have none := (apart field path).resolve_left (hv ▸ Option.some_ne_none v)
      rw [none, hv]
      rfl
    · rw [hv]
      rfl
    · rw [noneP, noneQ]
      rfl

/-- The part of the task 1 is given a name, twice, and the task a title. -/
def namingPatch : Message :=
  ⟨1, [("title", .text "t")], [⟨"parts", [⟨7, [("name", .text "b")], [], none, none, none⟩,
    ⟨7, [("name", .text "c")], [], none, none, none⟩]⟩], none, none, none⟩

/-- The part is given a scan. -/
def scanningPatch : Message := partMessage [("scan", .bytes [104, 105])] [] none

/-- Neither patch moves or removes anything, and they write different fields. -/
theorem quiet_patches_apart :
    namingPatch.Quiet ∧ scanningPatch.Quiet ∧ ∀ field path,
      namingPatch.lastWrite field path = none ∨
      scanningPatch.lastWrite field path = none := by
  have quiet : ∀ fields, Message.Quiet ⟨7, fields, [], none, none, none⟩ :=
    fun _ => .intro rfl rfl (fun _ hg => absurd hg List.not_mem_nil)
  have spares : ∀ field name value, name ≠ field →
      Message.Spares field ⟨7, [(name, value)], [], none, none, none⟩ :=
    fun _ _ _ other => .intro (by simpa using other) (fun _ hg => absurd hg List.not_mem_nil)
  refine ⟨.intro rfl rfl (by simp [namingPatch, quiet]),
    .intro rfl rfl (by simp [scanningPatch, partMessage, quiet]), fun field path => ?_⟩
  by_cases scan : "scan" = field
  · subst scan
    refine .inl (Message.Spares.lastWrite (.intro (by simp [namingPatch]) ?_) path)
    simp [namingPatch, spares]
  · refine .inr
      (Message.Spares.lastWrite (.intro (by simp [scanningPatch, partMessage]) ?_) path)
    simp [scanningPatch, partMessage, spares, scan]

/-- The task is made with its part.  Naming and scanning then go together in either order,
and what is loaded has the last name, the title and the scan. -/
theorem quiet_patches_commute_of_part :
    ∃ s m, Fed (fun _ _ => True) Blake3.digest s ∧ Set.InjOn s.digest {[104, 105]} ∧
      (s.answers [("task", namingPatch), ("task", scanningPatch)]).1 = [.ok (), .ok ()] ∧
      (s.answers [("task", scanningPatch), ("task", namingPatch)]).1 = [.ok (), .ok ()] ∧
      (s.answers [("task", namingPatch), ("task", scanningPatch)]).2.load "task" 1 = .ok m ∧
      (s.answers [("task", scanningPatch), ("task", namingPatch)]).2.load "task" 1 = .ok m ∧
      m.value? "title" [] = some (.text "t") ∧
      m.value? "name" [("parts", 7)] = some (.text "c") ∧
      m.value? "scan" [("parts", 7)] = some (.bytes [104, 105]) := by
  have fed := @Fed.apply (fun _ _ => True) Blake3.digest _ _ "task"
    (partMessage [("name", .text "a")] [] (some false)) .empty trivial rfl
  have named : Set.InjOn Blake3.digest {[104, 105]} := fun _ hb _ hc _ => hb.trans hc.symm
  have text : ∀ name value, Message.BytesIn {[104, 105]}
      ⟨7, [(name, .text value)], [], none, none, none⟩ :=
        fun _ _ => .intro (by simp) (by simp)
  have known : namingPatch.BytesIn {[104, 105]} :=
    .intro (by simp [namingPatch]) (by simp [namingPatch, text])
  have known' : scanningPatch.BytesIn {[104, 105]} := by
    refine bytesIn_partMessage ?_ (fun _ hg => absurd hg List.not_mem_nil)
    rintro f hf b hb
    obtain rfl := List.mem_singleton.mp hf
    exact (Value.bytes.inj hb).symm
  obtain ⟨quiet, quiet', apart⟩ := quiet_patches_apart
  obtain ⟨a, b, ab, ba, loads, survive⟩ := fed.quiet_patches_commute (k := "task") named
    (fun _ he => absurd he List.not_mem_nil) known known' quiet quiet' rfl apart
  have accepted : [.ok (), .ok ()] = [a, b] := ab
  obtain ⟨rfl, rfl⟩ : .ok () = a ∧ .ok () = b := by simpa using accepted
  obtain ⟨m, load, values⟩ := survive rfl rfl
  exact ⟨_, m, fed, named, ab, ba, load, (loads "task" 1).symm.trans load,
    (values "title" []).1 _ rfl, (values "name" [("parts", 7)]).1 _ rfl,
    (values "scan" [("parts", 7)]).2.1 _ rfl⟩

end Store

end RecordSync
