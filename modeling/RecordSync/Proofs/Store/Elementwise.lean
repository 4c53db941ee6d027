import RecordSync.Proofs.Message
import RecordSync.Proofs.Store.Proper

/-!
# A patch, element by element

A patch that names each set and each element once does to every child of a node what the
message of the child asks for, and leaves the other children alone.  The order of the
messages then decides only which reason for a refusal is given.

**Results.**
* `Node.applyGroups_answers`: the children after a patch, one by one.
* `Node.applyGroups_succeeds`: a patch is accepted if each of its messages is.
* `Node.field?_writeFields`: the fields after a patch.
-/

namespace RecordSync

/-- A message that names each set once, and in each set each element once. -/
structure Message.Plain (m : Message) : Prop where
  sets : (m.children.map Group.name).Nodup
  elements : ∀ g ∈ m.children, (g.members.map Message.id).Nodup

theorem Message.child?_eq (m : Message) (set : String) (id : Int) :
    m.child? set id = (SortedList.find? Group.name set m.children).bind
      (fun g => SortedList.find? Message.id id g.members) := by
  rw [Message.child?, Message.childrenOf_eq]
  cases SortedList.find? Group.name set m.children <;> rfl

namespace Node

/-- What a message makes of a child; without one the child stays. -/
def Answers (set : String) (old new : Option Node) : Option Message → Prop
  | none => new = old
  | some m => applyRecord set false old m = .ok new

section Members

variable {n n' : Node} {set : String}

/-- The children after the messages of one set. -/
theorem applyMembers_answers (h : n.Branches) {ms : List Message}
    (distinct : (ms.map Message.id).Nodup) (ha : applyMembers n set ms = .ok n')
    (set' : String) (id : Int) :
    Answers set' (n.child? set' id) (n'.child? set' id)
      (if set' = set then SortedList.find? Message.id id ms else none) := by
  induction ms generalizing n with
  | nil =>
      cases ha
      split <;> rfl
  | cons m ms ih =>
      obtain ⟨unique, distinct⟩ := List.nodup_cons.mp distinct
      obtain ⟨new, applied, ha⟩ := applyMembers_cons ha
      have proper := h.child_proper applied
      have rest := ih (h.withChild proper) distinct ha
      have child : (n.withChild set m.id new).child? set' id =
          if set' = set ∧ id = m.id then new else n.child? set' id :=
        child?_withChild (fun c e => (proper c e).2) set' id
      by_cases there : set' = set
      · rw [if_pos there] at rest ⊢
        subst there
        rw [SortedList.find?_cons]
        by_cases here : m.id = id
        · subst here
          have gone : SortedList.find? Message.id m.id ms = none := by
            rw [SortedList.find?_eq_none_iff]
            exact fun c hc e => unique (List.mem_map.mpr ⟨c, hc, e⟩)
          rw [if_pos rfl]
          rw [gone, child, if_pos ⟨rfl, rfl⟩] at rest
          rw [show n'.child? set' m.id = new from rest]
          exact applied
        · rw [if_neg here]
          rwa [child, if_neg (fun e => here e.2.symm)] at rest
      · rw [if_neg there] at rest ⊢
        rwa [child, if_neg (fun e => there e.1)] at rest

/-- The children after a patch that names each set and each element once. -/
theorem applyGroups_answers (h : n.Proper) {groups : List Group}
    (sets : (groups.map Group.name).Nodup)
    (elements : ∀ g ∈ groups, (g.members.map Message.id).Nodup)
    (ha : applyGroups n groups = .ok n') (set : String) (id : Int) :
    Answers set (n.child? set id) (n'.child? set id)
      ((SortedList.find? Group.name set groups).bind
        (fun g => SortedList.find? Message.id id g.members)) := by
  induction groups generalizing n with
  | nil =>
      cases ha
      rfl
  | cons g groups ih =>
      obtain ⟨name, members⟩ := g
      obtain ⟨unique, sets⟩ := List.nodup_cons.mp sets
      obtain ⟨n₁, applied, checked, ha⟩ := applyGroups_cons ha
      have first :=
        applyMembers_answers h.branches (elements _ List.mem_cons_self) applied set id
      obtain ⟨branches, others, -, position, -⟩ :=
        applyMembers_branches name members h.branches applied
      have rest := ih (h.checked branches others position checked) sets
        (fun g hg => elements g (List.mem_cons_of_mem _ hg)) ha
      rw [SortedList.find?_cons]
      by_cases here : name = set
      · subst here
        have gone : SortedList.find? Group.name name groups = none := by
          rw [SortedList.find?_eq_none_iff]
          exact fun g hg e => unique (List.mem_map.mpr ⟨g, hg, e⟩)
        rw [gone] at rest
        rw [if_pos rfl] at first ⊢
        rw [show n'.child? name id = n₁.child? name id from rest]
        exact first
      · rw [if_neg (Ne.symm here)] at first
        rw [if_neg here]
        rwa [show n₁.child? set id = n.child? set id from first] at rest

end Members

section Succeeds

variable {n : Node} {set : String}

/-- A message is accepted if its record can be brought to its place and what is there
takes the fields and the messages of the elements. -/
theorem applyRecord_succeeds {mayCreate : Bool} {old placed : Option Node} {m : Message}
    (begun : place set mayCreate m.id old m.position m.swapPosition m.deleted = .ok placed)
    (written : ∀ node, placed = some node →
      ∃ n', applyGroups (node.writeFields m.fields) m.children = .ok n') :
    ∃ new, applyRecord set mayCreate old m = .ok new := by
  obtain ⟨id, fields, children, position, swapPosition, deleted⟩ := m
  rw [applyRecord, begun]
  cases placed with
  | none => exact ⟨none, rfl⟩
  | some node =>
      obtain ⟨n', written⟩ := written node rfl
      refine ⟨some n', ?_⟩
      show (applyGroups (node.writeFields fields) children).map some = .ok (some n')
      rw [written]
      rfl

/-- The messages of one set are accepted if each of them is by the child of its id. -/
theorem applyMembers_succeeds (h : n.Branches) {ms : List Message}
    (distinct : (ms.map Message.id).Nodup)
    (each : ∀ m ∈ ms, ∃ new, applyRecord set false (n.child? set m.id) m = .ok new) :
    ∃ n', applyMembers n set ms = .ok n' := by
  induction ms generalizing n with
  | nil => exact ⟨n, rfl⟩
  | cons m ms ih =>
      obtain ⟨unique, distinct⟩ := List.nodup_cons.mp distinct
      obtain ⟨new, applied⟩ := each m List.mem_cons_self
      have proper := h.child_proper applied
      rw [applyMembers, applied]
      refine ih (h.withChild proper) distinct ?_
      intro m' hm'
      have other : m'.id ≠ m.id := fun e => unique (e ▸ List.mem_map_of_mem hm')
      rw [child?_withChild (fun c e => (proper c e).2), if_neg (fun e => other e.2)]
      exact each m' (List.mem_cons_of_mem m hm')

/-- A patch that names each set and each element once is accepted if each of its messages
is by the child of its id, and the children of no set share a position afterwards. -/
theorem applyGroups_succeeds (h : n.Proper) {groups : List Group}
    (sets : (groups.map Group.name).Nodup)
    (elements : ∀ g ∈ groups, (g.members.map Message.id).Nodup)
    (each : ∀ g ∈ groups, ∀ m ∈ g.members,
      ∃ new, applyRecord g.name false (n.child? g.name m.id) m = .ok new)
    (spread : ∀ g ∈ groups, ∀ n' : Node, n'.Branches →
      (∀ id, Answers g.name (n.child? g.name id) (n'.child? g.name id)
        (SortedList.find? Message.id id g.members)) →
      ((n'.members g.name).filterMap Node.position).Nodup) :
    ∃ n', applyGroups n groups = .ok n' := by
  induction groups generalizing n with
  | nil => exact ⟨n, rfl⟩
  | cons g groups ih =>
      obtain ⟨name, members⟩ := g
      obtain ⟨unique, sets⟩ := List.nodup_cons.mp sets
      have own := elements _ List.mem_cons_self
      obtain ⟨n₁, applied⟩ :=
        applyMembers_succeeds h.branches own (each _ List.mem_cons_self)
      obtain ⟨branches, others, -, position, -⟩ :=
        applyMembers_branches name members h.branches applied
      have answers := applyMembers_answers h.branches own applied
      have checked : n₁.checkPositions name = .ok () := by
        refine checkPositions_eq_ok.mpr
          (spread _ List.mem_cons_self n₁ branches (fun id => ?_))
        have answer := answers name id
        rwa [if_pos rfl] at answer
      have kept : ∀ g ∈ groups, ∀ id, n₁.child? g.name id = n.child? g.name id := by
        intro g hg id
        have other : g.name ≠ name := fun e => unique (List.mem_map.mpr ⟨g, hg, e⟩)
        have answer := answers g.name id
        rwa [if_neg other] at answer
      rw [applyGroups, applied]
      show ∃ n', (n₁.checkPositions name >>= fun _ => applyGroups n₁ groups) = .ok n'
      rw [checked]
      refine ih (h.checked branches others position checked) sets
        (fun g hg => elements g (List.mem_cons_of_mem _ hg)) ?_ ?_
      · intro g hg m hm
        rw [kept g hg]
        exact each g (List.mem_cons_of_mem _ hg) m hm
      · intro g hg n' branches' answers'
        refine spread g (List.mem_cons_of_mem _ hg) n' branches' (fun id => ?_)
        rw [← kept g hg]
        exact answers' id

end Succeeds

theorem field?_writeFields (n : Node) {fields : List (String × Value)}
    (distinct : (fields.map Prod.fst).Nodup) (name : String) :
    (n.writeFields fields).field? name =
      ((SortedList.find? Prod.fst name fields).map Prod.snd).or (n.field? name) := by
  rw [field?, writeFields, SortedList.find?_foldl_insert distinct, Option.map_or, field?]

end Node

end RecordSync
