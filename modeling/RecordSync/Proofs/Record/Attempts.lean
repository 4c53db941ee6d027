import RecordSync.Proofs.Record.Cleanness

/-!
# Taking and dropping a delta

A delta is committed or rolled back by a walk over the changes that it names.  Each change
meets the element of its id once, so the walk does to each element of the record what the
change of its id, if there is one, asks for.

**Commit.**  `Record.advance` moves the baselines of a record part by part and lets dead
elements go.  `Record.Accords.commit_of_check` says that this is what a commit gives,
whenever no change is refused.

**Rollback.**  `Record.Accords.rollback_eq` gives a rollback in the same form.

**Results.**  `Record.Sound.advance` and `Record.Sound.rollback`: a sound record stays
sound.
-/

namespace RecordSync

variable {τ : Type}

section Walks

/-- Changes the elements that some changes name, one after another. -/
def ElementSet.settleAll (change : ElementDelta → Element τ → Element τ)
    (s : ElementSet τ) : List ElementDelta → ElementSet τ
  | [] => s
  | x :: rest =>
    match s.find? x.id with
    | none => s.settleAll change rest
    | some e => (s.settle (change x e)).settleAll change rest

/-- What becomes of an element when the change of its id, if there is one, has been
made. -/
def Element.settled (kind : SetKind) (change : ElementDelta → Element τ → Element τ)
    (changes : List ElementDelta) (e : Element τ) : Option (Element τ) :=
  match SortedList.find? ElementDelta.id e.id changes with
  | none => some e
  | some x => if (change x e).isDead kind then none else some (change x e)

/-- Changes the sets that some changes name, one after another. -/
def visitSets (change : List ElementDelta → ElementSet τ → ElementSet τ)
    (own : List (ElementSet τ)) : List SetDelta → List (ElementSet τ)
  | [] => own
  | x :: rest =>
    match SortedList.find? ElementSet.name x.name own with
    | none => visitSets change own rest
    | some s =>
      visitSets change
        (SortedList.modify ElementSet.name x.name (fun _ => change x.elements s) own) rest

/-- What becomes of a set when the changes under its name, if there are some, have been
made. -/
def ElementSet.visited (change : List ElementDelta → ElementSet τ → ElementSet τ)
    (changes : List SetDelta) (s : ElementSet τ) : ElementSet τ :=
  match SortedList.find? SetDelta.name s.name changes with
  | none => s
  | some x => change x.elements s

variable {change : ElementDelta → Element τ → Element τ}

/-- Settling an element changes the one of its id. -/
theorem ElementSet.settle_eq {s : ElementSet τ} {e x : Element τ}
    (hs : SortedList.Sorted Element.id s.elements) (found : s.find? x.id = some e) :
    s.settle x = { s with
      elements := s.elements.filterMap (fun y =>
        if y.id = x.id then if x.isDead s.decl.kind then none else some x
          else some y) } := by
  rw [ElementSet.settle]
  split
  next dead =>
    simp only [ElementSet.erase, SortedList.erase, ← List.filterMap_eq_filter]
    congr 2
    funext y
    by_cases h : y.id = x.id <;> simp [Option.guard, h]
  next alive =>
    rw [ElementSet.insert, SortedList.insert_eq_map hs found, ← List.filterMap_eq_map]
    congr 2
    funext y
    by_cases h : y.id = x.id <;> simp [h]

theorem Element.settled_eq_some {kind : SetKind} {changes : List ElementDelta}
    {e e' : Element τ} :
    e.settled kind change changes = some e' ↔
      SortedList.find? ElementDelta.id e.id changes = none ∧ e' = e ∨
        ∃ x, SortedList.find? ElementDelta.id e.id changes = some x ∧
          (change x e).isDead kind = false ∧ e' = change x e := by
  rw [Element.settled]
  cases SortedList.find? ElementDelta.id e.id changes with
  | none => simp [eq_comm (a := e)]
  | some x => simp [eq_comm (a := e')]

theorem Element.settled_id (keeps : ∀ x e, (change x e).id = e.id) {kind : SetKind}
    {changes : List ElementDelta} {e e' : Element τ}
    (h : e.settled kind change changes = some e') : e'.id = e.id := by
  rcases settled_eq_some.mp h with ⟨-, rfl⟩ | ⟨x, -, -, rfl⟩
  · rfl
  · exact keeps x e

/-- The walk over changes with distinct ids changes each element once. -/
theorem ElementSet.settleAll_eq (keeps : ∀ x e, (change x e).id = e.id) {s : ElementSet τ}
    (hs : SortedList.Sorted Element.id s.elements) {changes : List ElementDelta}
    (hc : SortedList.Sorted ElementDelta.id changes) :
    s.settleAll change changes = { s with
      elements := s.elements.filterMap (Element.settled s.decl.kind change changes) } := by
  induction changes generalizing s with
  | nil =>
      rw [settleAll]
      have : Element.settled s.decl.kind change [] = some := rfl
      rw [this, List.filterMap_some]
      cases s
      rfl
  | cons x changes ih =>
      have rest := (List.pairwise_cons.mp hc).2
      have others {y : Element τ} (h : y.id ≠ x.id) :
          y.settled s.decl.kind change (x :: changes) =
            y.settled s.decl.kind change changes := by
        rw [Element.settled, SortedList.find?_cons, if_neg (Ne.symm h)]
        rfl
      rw [settleAll]
      split
      next gone =>
        rw [ih hs rest]
        congr 1
        apply List.filterMap_congr
        intro y hy
        exact (others (SortedList.find?_eq_none_iff.mp gone y hy)).symm
      next e found =>
        have hid : (change x e).id = x.id :=
          (keeps x e).trans (SortedList.key_of_find? found)
        rw [ElementSet.settle_eq hs (hid.symm ▸ found)]
        have sorted : SortedList.Sorted Element.id (s.elements.filterMap (fun y =>
            if y.id = (change x e).id then
              if (change x e).isDead s.decl.kind then none else some (change x e)
            else some y)) := by
          apply hs.filterMap
          intro y _ z hz
          split at hz
          next h =>
            split at hz
            · cases hz
            · cases hz
              exact h.symm
          next => cases hz; rfl
        rw [ih sorted rest, List.filterMap_filterMap]
        congr 1
        apply List.filterMap_congr
        intro y hy
        by_cases h : y.id = x.id
        · have same : y = e := hs.eq_of_key hy (SortedList.mem_of_find? found)
            (h.trans (SortedList.key_of_find? found).symm)
          subst same
          have last : SortedList.find? ElementDelta.id x.id changes = none :=
            hc.find?_tail
          have settled : y.settled s.decl.kind change (x :: changes) =
              if (change x y).isDead s.decl.kind then none else some (change x y) := by
            rw [Element.settled, SortedList.find?_cons, if_pos h.symm]
          rw [settled, if_pos (h.trans hid.symm)]
          split
          · rfl
          · rw [Option.bind_some, Element.settled, hid, last]
        · rw [if_neg (by rwa [hid]), Option.bind_some, others h]

/-- The walk over changes of distinct sets changes each set once. -/
theorem visitSets_eq (change : List ElementDelta → ElementSet τ → ElementSet τ)
    (keeps : ∀ x s, (change x s).name = s.name) {own : List (ElementSet τ)}
    (ho : (own.map ElementSet.name).Nodup) {changes : List SetDelta}
    (hc : (changes.map SetDelta.name).Nodup) :
    visitSets change own changes = own.map (ElementSet.visited change changes) := by
  induction changes generalizing own with
  | nil =>
      rw [visitSets]
      exact (List.map_id own).symm
  | cons x changes ih =>
      rw [List.map_cons, List.nodup_cons] at hc
      have others {s : ElementSet τ} (h : s.name ≠ x.name) :
          s.visited change (x :: changes) = s.visited change changes := by
        rw [ElementSet.visited, SortedList.find?_cons, if_neg (Ne.symm h)]
        rfl
      rw [visitSets]
      split
      next gone =>
        rw [ih ho hc.2]
        apply List.map_congr_left
        intro s hs
        exact (others (SortedList.find?_eq_none_iff.mp gone s hs)).symm
      next s found =>
        have hname := SortedList.key_of_find? found
        have names : (SortedList.modify ElementSet.name x.name
            (fun _ => change x.elements s) own).map ElementSet.name =
              own.map ElementSet.name :=
          SortedList.map_key_modify (fun t ht => by rw [keeps, hname, ht])
        rw [ih (names.symm ▸ ho) hc.2, SortedList.modify, List.map_map]
        apply List.map_congr_left
        intro t ht
        rw [Function.comp_apply]
        by_cases h : t.name = x.name
        · have same : t = s := by
            have := SortedList.find?_of_mem ho ht
            rw [h, found] at this
            exact (Option.some.inj this).symm
          subst same
          have last : SortedList.find? SetDelta.name x.name changes = none := by
            rw [SortedList.find?_eq_none_iff]
            intro y hy e
            exact hc.1 (e ▸ List.mem_map_of_mem hy)
          rw [if_pos h, ElementSet.visited, keeps, h, last, ElementSet.visited,
            SortedList.find?_cons, if_pos h.symm]
        · rw [if_neg h, others h]

end Walks

section Advance

mutual

/-- The record with its baseline moved by a delta. -/
def Record.advance : Record τ → Delta → Record τ
  | ⟨type, id, dirty, fields, sets⟩, d =>
    Record.recount ⟨type, id, dirty, fields.map (Field.commitFrom d.fields),
      advanceSets d sets⟩

def advanceSets (d : Delta) : List (ElementSet τ) → List (ElementSet τ)
  | [] => []
  | ⟨decl, elements, dirty, next⟩ :: rest =>
    (match SortedList.find? SetDelta.name decl.name d.sets with
      | none => ⟨decl, elements, dirty, next⟩
      | some x =>
        ElementSet.recount ⟨decl, advanceElements decl.kind x.elements elements,
          dirty, next⟩) ::
      advanceSets d rest

/-- Some elements with their baselines moved by the changes of their set; the dead ones
go. -/
def advanceElements (kind : SetKind) (changes : List ElementDelta) :
    List (Element τ) → List (Element τ)
  | [] => []
  | ⟨record, position, deleted, sent⟩ :: rest =>
    match SortedList.find? ElementDelta.id record.id changes with
    | none => ⟨record, position, deleted, sent⟩ :: advanceElements kind changes rest
    | some x =>
      let e : Element τ := ⟨record.advance x.record, position.commit? x.position,
        deleted.commit? x.deleted, sent⟩
      if e.isDead kind then advanceElements kind changes rest
      else e :: advanceElements kind changes rest

end

/-- The element with its baseline moved by a change. -/
def Element.advance (x : ElementDelta) (e : Element τ) : Element τ :=
  { e with
    record := e.record.advance x.record
    position := e.position.commit? x.position
    deleted := e.deleted.commit? x.deleted }

/-- The set with its baseline moved by changes of its elements. -/
def ElementSet.advance (changes : List ElementDelta) (s : ElementSet τ) : ElementSet τ :=
  { s with elements :=
      s.elements.filterMap (Element.settled s.decl.kind Element.advance changes) }.recount

@[simp] theorem Record.advance_id (r : Record τ) (d : Delta) :
    (r.advance d).id = r.id := by
  obtain ⟨type, id, dirty, fields, sets⟩ := r
  rw [Record.advance]
  rfl

@[simp] theorem Record.advance_type (r : Record τ) (d : Delta) :
    (r.advance d).type = r.type := by
  obtain ⟨type, id, dirty, fields, sets⟩ := r
  rw [Record.advance]
  rfl

theorem advanceElements_eq (kind : SetKind) (changes : List ElementDelta)
    (es : List (Element τ)) : advanceElements kind changes es =
      es.filterMap (Element.settled kind Element.advance changes) := by
  induction es with
  | nil => rfl
  | cons e es ih =>
      obtain ⟨record, position, deleted, sent⟩ := e
      cases h : SortedList.find? ElementDelta.id record.id changes with
      | none => simp [advanceElements, ih, Element.settled, Element.id, h]
      | some x =>
          rw [advanceElements, ih]
          simp only [List.filterMap_cons, Element.settled, Element.id, h, Element.advance]
          split
          next dead => simp [dead]
          next alive => simp [alive]

theorem advanceSets_eq (d : Delta) (sets : List (ElementSet τ)) :
    advanceSets d sets = sets.map (ElementSet.visited ElementSet.advance d.sets) := by
  induction sets with
  | nil => rfl
  | cons s sets ih =>
      obtain ⟨decl, elements, dirty, next⟩ := s
      rw [advanceSets, ih, List.map_cons, ElementSet.visited, ElementSet.name]
      cases SortedList.find? SetDelta.name decl.name d.sets with
      | none => rfl
      | some x =>
          simp only [advanceElements_eq]
          rfl

theorem Record.advance_eq (r : Record τ) (d : Delta) :
    r.advance d = Record.recount { r with
      fields := r.fields.map (Field.commitFrom d.fields)
      sets := r.sets.map (ElementSet.visited ElementSet.advance d.sets) } := by
  obtain ⟨type, id, dirty, fields, sets⟩ := r
  rw [Record.advance, advanceSets_eq]

theorem Element.advance_id (x : ElementDelta) (e : Element τ) : (e.advance x).id = e.id :=
  e.record.advance_id x.record

theorem ElementSet.advance_name (changes : List ElementDelta) (s : ElementSet τ) :
    (s.advance changes).name = s.name := rfl

end Advance

section Commit

/-- A change that is not refused names an element of the set, and its own change is not
refused. -/
theorem checkElements_cons {s : ElementSet τ} {x : ElementDelta}
    {rest : List ElementDelta} : checkElements s (x :: rest) = .ok () ↔
      (∃ e, s.find? x.id = some e ∧ e.record.checkCommit x.record = .ok ()) ∧
        checkElements s rest = .ok () := by
  obtain ⟨id, record, position, deleted⟩ := x
  rw [checkElements]
  cases s.find? id with
  | none => simp
  | some e => cases h : e.record.checkCommit record <;> simp [bind, Except.bind, h]

theorem checkElements_congr {s t : ElementSet τ} {changes : List ElementDelta}
    (h : ∀ x ∈ changes, s.find? x.id = t.find? x.id) :
    checkElements s changes = checkElements t changes := by
  induction changes with
  | nil => rw [checkElements, checkElements]
  | cons x changes ih =>
      obtain ⟨id, record, position, deleted⟩ := x
      rw [checkElements, checkElements, h ⟨id, record, position, deleted⟩ (by simp),
        ih (fun y hy => h y (List.mem_cons_of_mem _ hy))]

theorem checkSets_cons {own : List (ElementSet τ)} {x : SetDelta} {rest : List SetDelta} :
    checkSets own (x :: rest) = .ok () ↔
      (∀ s, SortedList.find? ElementSet.name x.name own = some s →
        checkElements s x.elements = .ok ()) ∧ checkSets own rest = .ok () := by
  obtain ⟨name, elements⟩ := x
  rw [checkSets]
  cases SortedList.find? ElementSet.name name own with
  | none => simp
  | some s => cases h : checkElements s elements <;> simp [bind, Except.bind, h]

theorem ElementSet.find?_settle {s : ElementSet τ} {e : Element τ} {id : Int}
    (h : id ≠ e.id) : (s.settle e).find? id = s.find? id := by
  rw [ElementSet.settle]
  split
  · exact (SortedList.find?_erase _ _ _ _).trans (if_neg h)
  · exact (SortedList.find?_insert _ _ _ _).trans (if_neg (Ne.symm h))

/-- Changes are not refused iff each names an element of the set and its own change is not
refused. -/
theorem checkElements_iff {s : ElementSet τ} {changes : List ElementDelta} :
    checkElements s changes = .ok () ↔
      ∀ x ∈ changes, ∃ e, s.find? x.id = some e ∧
      e.record.checkCommit x.record = .ok () := by
  induction changes with
  | nil => simp [checkElements]
  | cons x changes ih => rw [checkElements_cons, ih, List.forall_mem_cons]

/-- Changes of sets are not refused iff those of each set that is there are not. -/
theorem checkSets_iff {own : List (ElementSet τ)} {changes : List SetDelta} :
    checkSets own changes = .ok () ↔
      ∀ x ∈ changes, ∀ s, SortedList.find? ElementSet.name x.name own = some s →
        checkElements s x.elements = .ok () := by
  induction changes with
  | nil => simp [checkSets]
  | cons x changes ih => rw [checkSets_cons, ih, List.forall_mem_cons]

/-- Changes that are not refused are committed one after another, if those of the named
elements' own parts are. -/
theorem commitElements_eq {s : ElementSet τ} {changes : List ElementDelta}
    (hc : SortedList.Sorted ElementDelta.id changes)
    (inner : ∀ x ∈ changes, ∀ e, s.find? x.id = some e →
      e.record.checkCommit x.record = .ok () →
      e.record.commit x.record = .ok (e.record.advance x.record))
    (check : checkElements s changes = .ok ()) :
    commitElements s changes = .ok (s.settleAll Element.advance changes) := by
  induction changes generalizing s with
  | nil => rw [commitElements, ElementSet.settleAll]
  | cons x changes ih =>
      obtain ⟨above, rest⟩ := List.pairwise_cons.mp hc
      obtain ⟨⟨e, found, first⟩, check⟩ := checkElements_cons.mp check
      have moved := inner x (by simp) e found first
      have hid : (e.advance x).id = x.id :=
        (e.advance_id x).trans (SortedList.key_of_find? found)
      have others : ∀ y ∈ changes, (s.settle (e.advance x)).find? y.id =
          s.find? y.id := by
        intro y hy
        apply ElementSet.find?_settle
        rw [hid]
        exact (above y hy).ne'
      have check' := (checkElements_congr others).trans check
      have inner' : ∀ y ∈ changes, ∀ e', (s.settle (e.advance x)).find? y.id = some e' →
          e'.record.checkCommit y.record = .ok () →
          e'.record.commit y.record = .ok (e'.record.advance y.record) := by
        intro y hy e' found'
        rw [others y hy] at found'
        exact inner y (List.mem_cons_of_mem _ hy) e' found'
      have last := ih rest inner' check'
      obtain ⟨id, record, position, deleted⟩ := x
      simp only [commitElements, found, moved, bind, Except.bind, ElementSet.settleAll]
      exact last

theorem checkSets_congr {own own' : List (ElementSet τ)} {changes : List SetDelta}
    (h : ∀ x ∈ changes, SortedList.find? ElementSet.name x.name own =
      SortedList.find? ElementSet.name x.name own') :
    checkSets own changes = checkSets own' changes := by
  induction changes with
  | nil => rw [checkSets, checkSets]
  | cons x changes ih =>
      obtain ⟨name, elements⟩ := x
      rw [checkSets, checkSets, h ⟨name, elements⟩ (by simp),
        ih (fun y hy => h y (List.mem_cons_of_mem _ hy))]

/-- The changes of the elements' own parts that a list of changes names are committed
unless they are refused. -/
def Committable (s : ElementSet τ) (changes : List ElementDelta) : Prop :=
  SortedList.Sorted Element.id s.elements ∧ SortedList.Sorted ElementDelta.id changes ∧
    ∀ x ∈ changes, ∀ e ∈ s.elements, e.record.checkCommit x.record = .ok () →
      e.record.commit x.record = .ok (e.record.advance x.record)

theorem Committable.commit {s : ElementSet τ} {changes : List ElementDelta}
    (h : Committable s changes) (check : checkElements s changes = .ok ()) :
    ∃ t, commitElements s changes = .ok t ∧ t.recount = s.advance changes := by
  obtain ⟨hs, hc, inner⟩ := h
  refine ⟨_, commitElements_eq hc ?_ check, ?_⟩
  · intro x hx e found
    exact inner x hx e (SortedList.mem_of_find? found)
  · rw [ElementSet.settleAll_eq Element.advance_id hs hc]
    rfl

/-- Changes of sets that are not refused are committed one after another, if those of the
named elements' own parts are. -/
theorem commitSets_eq {own : List (ElementSet τ)} {changes : List SetDelta}
    (hc : (changes.map SetDelta.name).Nodup)
    (inner : ∀ x ∈ changes, ∀ s, SortedList.find? ElementSet.name x.name own = some s →
      Committable s x.elements)
    (check : checkSets own changes = .ok ()) :
    commitSets own changes = .ok (visitSets ElementSet.advance own changes) := by
  induction changes generalizing own with
  | nil => rw [commitSets, visitSets]
  | cons x changes ih =>
      rw [List.map_cons, List.nodup_cons] at hc
      obtain ⟨first, check⟩ := checkSets_cons.mp check
      cases found : SortedList.find? ElementSet.name x.name own with
      | none =>
          have last := ih hc.2 (fun y hy => inner y (List.mem_cons_of_mem _ hy)) check
          obtain ⟨name, elements⟩ := x
          simp only [commitSets, visitSets, found]
          exact last
      | some s =>
          obtain ⟨t, committed, after⟩ :=
            (inner x (by simp) s found).commit (first s found)
          have hname : (s.advance x.elements).name = x.name :=
            (ElementSet.advance_name x.elements s).trans (SortedList.key_of_find? found)
          have others : ∀ y ∈ changes, SortedList.find? ElementSet.name y.name
              (SortedList.modify ElementSet.name x.name (fun _ => s.advance x.elements) own) =
                SortedList.find? ElementSet.name y.name own := by
            intro y hy
            apply SortedList.find?_modify_ne (fun _ _ => hname)
            intro e
            exact hc.1 (e ▸ List.mem_map_of_mem hy)
          have last := ih hc.2
            (fun y hy u hu => inner y (List.mem_cons_of_mem _ hy) u (others y hy ▸ hu))
            ((checkSets_congr others).trans check)
          obtain ⟨name, elements⟩ := x
          simp only [commitSets, visitSets, found, first s found, committed, bind,
            Except.bind, after]
          exact last

theorem Record.checkCommit_eq (r : Record τ) (d : Delta) :
    r.checkCommit d = checkSets r.sets d.sets := by
  obtain ⟨fields, sets⟩ := d
  rw [Record.checkCommit]

/-- A record and a delta have their sets by name and their elements by id, at every depth
at which both have a set of one name. -/
inductive Record.Accords : Record τ → Delta → Prop
  | intro {r : Record τ} {d : Delta} :
      (r.sets.map ElementSet.name).Nodup →
      (d.sets.map SetDelta.name).Nodup →
      (∀ s ∈ r.sets, SortedList.Sorted Element.id s.elements) →
      (∀ x ∈ d.sets, SortedList.Sorted ElementDelta.id x.elements) →
      (∀ s ∈ r.sets, ∀ x ∈ d.sets, x.name = s.name →
        ∀ e ∈ s.elements, ∀ y ∈ x.elements, Accords e.record y.record) →
      Accords r d

/-- A commit succeeds unless it is refused, and moves the baseline. -/
theorem Record.Accords.commit_of_check {r : Record τ} {d : Delta} (h : r.Accords d)
    (check : r.checkCommit d = .ok ()) : r.commit d = .ok (r.advance d) := by
  induction h with
  | @intro r d own names sorted changed _ ih =>
      have committed : commitSets r.sets d.sets =
          .ok (visitSets ElementSet.advance r.sets d.sets) := by
        apply commitSets_eq names
        · intro x hx s found
          have hs := SortedList.mem_of_find? found
          refine ⟨sorted s hs, changed x hx, ?_⟩
          intro y hy e he checked
          exact ih s hs x hx (SortedList.key_of_find? found).symm e he y hy checked
        · rwa [Record.checkCommit_eq] at check
      rw [Record.advance_eq, ← visitSets_eq _ ElementSet.advance_name own names]
      obtain ⟨fields, sets⟩ := d
      simp only [Record.commit, check, committed, bind, Except.bind]

variable [Catalog τ]

theorem Record.Sound.accords {type : τ} {d : Delta} (hd : d.Suits type) {r : Record τ}
    (h : r.Sound) (ht : r.type = type) : r.Accords d := by
  induction hd generalizing r with
  | @intro type d values names sorted shaped inner ih =>
      subst ht
      refine .intro h.tidy.set_names names (fun s hs => (h.set hs).sorted) sorted ?_
      intro s hs x hx hname e he y hy
      exact ih s.decl (h.tidy.set_decl_mem hs) x hx hname y hy (h.nested hs he)
        ((h.set hs).typed e he)

/-- What a commit gives, and when. -/
theorem Record.Sound.commit_eq_ok_iff {r r' : Record τ} {d : Delta} (h : r.Sound)
    (hd : d.Suits r.type) :
    r.commit d = .ok r' ↔ r.checkCommit d = .ok () ∧ r' = r.advance d := by
  cases check : r.checkCommit d with
  | ok _ => simp [(h.accords hd rfl).commit_of_check check, eq_comm]
  | error e =>
      obtain ⟨fields, sets⟩ := d
      simp [Record.commit, check, bind, Except.bind]

end Commit

section Rollback

/-- The element as one that was not sent by the attempt whose change is given. -/
def Element.retract (kind : SetKind) (x : ElementDelta) (e : Element τ) : Element τ :=
  let e := { e with record := e.record.rollback x.record }
  if e.isRemotePresent kind then e else { e with sent := false }

theorem Record.rollback_id (r : Record τ) (d : Delta) : (r.rollback d).id = r.id := by
  obtain ⟨fields, sets⟩ := d
  rw [Record.rollback]
  rfl

theorem Record.rollback_type (r : Record τ) (d : Delta) :
    (r.rollback d).type = r.type := by
  obtain ⟨fields, sets⟩ := d
  rw [Record.rollback]
  rfl

theorem Element.retract_record (kind : SetKind) (x : ElementDelta) (e : Element τ) :
    (e.retract kind x).record = e.record.rollback x.record := by
  rw [Element.retract]
  dsimp only
  split <;> rfl

theorem Element.retract_presence (kind : SetKind) (x : ElementDelta) (e : Element τ) :
    (e.retract kind x).position = e.position ∧
      (e.retract kind x).deleted = e.deleted := by
  rw [Element.retract]
  dsimp only
  split <;> exact ⟨rfl, rfl⟩

theorem Element.retract_id (kind : SetKind) (x : ElementDelta) (e : Element τ) :
    (e.retract kind x).id = e.id := by
  rw [Element.id, Element.retract_record, Record.rollback_id]
  rfl

theorem rollbackElements_eq (s : ElementSet τ) (changes : List ElementDelta) :
    rollbackElements s changes = s.settleAll (Element.retract s.decl.kind) changes := by
  induction changes generalizing s with
  | nil => rw [rollbackElements, ElementSet.settleAll]
  | cons x changes ih =>
      have kind (e : Element τ) : (s.settle e).decl = s.decl := by
        rw [ElementSet.settle]
        split <;> rfl
      obtain ⟨id, record, position, deleted⟩ := x
      cases found : s.find? id with
      | none => simp only [rollbackElements, ElementSet.settleAll, found, ih]
      | some e =>
          simp only [rollbackElements, ElementSet.settleAll, found, ih, kind]
          rfl

/-- A rollback of a set does to each element what the change of its id asks for. -/
theorem ElementSet.rollback_eq {s : ElementSet τ} {changes : List ElementDelta}
    (hs : SortedList.Sorted Element.id s.elements)
    (hc : SortedList.Sorted ElementDelta.id changes) :
    s.rollback changes = { s with
      elements := s.elements.filterMap
        (Element.settled s.decl.kind (Element.retract s.decl.kind) changes) }.recount := by
  rw [ElementSet.rollback, rollbackElements_eq,
    ElementSet.settleAll_eq (Element.retract_id s.decl.kind) hs hc]

theorem ElementSet.rollback_decl (changes : List ElementDelta) (s : ElementSet τ) :
    (s.rollback changes).decl = s.decl := by
  have walk (change : ElementDelta → Element τ → Element τ) (t : ElementSet τ) :
      (t.settleAll change changes).decl = t.decl := by
    induction changes generalizing t with
    | nil => rfl
    | cons x changes ih =>
        rw [settleAll]
        split
        · exact ih t
        · rw [ih, settle]
          split <;> rfl
  rw [rollback, rollbackElements_eq]
  exact walk _ s

theorem rollbackSets_eq (own : List (ElementSet τ)) (changes : List SetDelta) :
    rollbackSets own changes = visitSets (fun x s => s.rollback x) own changes := by
  induction changes generalizing own with
  | nil => rw [rollbackSets, visitSets]
  | cons x changes ih =>
      obtain ⟨name, elements⟩ := x
      cases found : SortedList.find? ElementSet.name name own with
      | none => simp only [rollbackSets, visitSets, found, ih]
      | some s =>
          simp only [rollbackSets, visitSets, found, ih]
          rfl

/-- A rollback does to each element what the change of its id asks for, in the sets that
the delta names. -/
theorem Record.Accords.rollback_eq {r : Record τ} {d : Delta} (h : r.Accords d) :
    r.rollback d = Record.recount { r with
      fields := r.fields.map (fun f => f)
      sets := r.sets.map (ElementSet.visited (fun changes s => { s with
        elements := s.elements.filterMap
          (Element.settled s.decl.kind (Element.retract s.decl.kind) changes) }.recount)
          d.sets) } := by
  cases h with
  | intro own names sorted changed _ =>
      have walk := visitSets_eq (fun x (s : ElementSet τ) => s.rollback x)
        (fun x s => congrArg SetDecl.name (ElementSet.rollback_decl x s)) own names
      have whole : r.rollback d = Record.recount { r with
          sets := visitSets (fun x s => s.rollback x) r.sets d.sets } := by
        obtain ⟨fields, sets⟩ := d
        rw [Record.rollback, rollbackSets_eq]
      rw [whole, walk, List.map_id']
      congr 2
      apply List.map_congr_left
      intro s hs
      rw [ElementSet.visited, ElementSet.visited]
      split
      next => rfl
      next x found =>
        exact ElementSet.rollback_eq (sorted s hs) (changed x (SortedList.mem_of_find? found))

end Rollback

section Soundness

/-- A set stays tidy when its elements are settled by a change that keeps their ids, types
and shapes. -/
theorem ElementSet.Tidy.settle {s : ElementSet τ} (h : s.Tidy)
    {change : ElementDelta → Element τ → Element τ} {changes : List ElementDelta}
    (keeps : ∀ x e, (change x e).id = e.id)
    (types : ∀ x e, (change x e).record.type = e.record.type)
    (shapes : ∀ x ∈ changes, ∀ e, e.Shaped s.decl.kind → (change x e).Shaped s.decl.kind) :
    ({ s with elements :=
        s.elements.filterMap (Element.settled s.decl.kind change changes) } :
      ElementSet τ).recount.Tidy := by
  have settled : ∀ e ∈ s.elements, ∀ e', e.settled s.decl.kind change changes = some e' →
      e'.record.type = e.record.type ∧ e'.Shaped s.decl.kind := by
    intro e he e' h'
    rcases Element.settled_eq_some.mp h' with ⟨-, rfl⟩ | ⟨x, found, -, rfl⟩
    · exact ⟨rfl, h.shaped _ he⟩
    · exact ⟨types x e, shapes x (SortedList.mem_of_find? found) e (h.shaped e he)⟩
  refine ⟨h.sorted.filterMap (fun e _ e' h' => Element.settled_id keeps h'), rfl, ?_, ?_⟩
  · intro e' he'
    obtain ⟨e, he, h'⟩ := List.mem_filterMap.mp he'
    exact (settled e he e' h').1.trans (h.typed e he)
  · intro e' he'
    obtain ⟨e, he, h'⟩ := List.mem_filterMap.mp he'
    exact (settled e he e' h').2

/-- The shape of an element allows for the changes of presence of its shape. -/
theorem Element.Shaped.advance {kind : SetKind} {x : ElementDelta} {e : Element τ}
    (hx : x.Shaped kind) (h : e.Shaped kind) : (e.advance x).Shaped kind := by
  cases kind with
  | ordered =>
      have hx : x.deleted = none := hx
      simpa [Element.Shaped, Element.advance, hx, Tracked.commit?] using h
  | unordered =>
      have hx : x.position = none := hx
      simpa [Element.Shaped, Element.advance, hx, Tracked.commit?] using h

theorem Element.Shaped.retract {kind : SetKind} {e : Element τ} (h : e.Shaped kind)
    (x : ElementDelta) : (e.retract kind x).Shaped kind := by
  obtain ⟨position, deleted⟩ := Element.retract_presence kind x e
  cases kind with
  | ordered => exact deleted.trans h
  | unordered => exact position.trans h

variable [Catalog τ]

/-- What the changes under the name of a set may say. -/
theorem Record.Tidy.suits {r : Record τ} (h : r.Tidy) {d : Delta} (hd : d.Suits r.type)
    {s : ElementSet τ} (hs : s ∈ r.sets) {x : SetDelta}
    (found : SortedList.find? SetDelta.name s.name d.sets = some x) :
    SortedList.Sorted ElementDelta.id x.elements ∧
      ∀ y ∈ x.elements, y.Shaped s.decl.kind ∧ y.record.Suits s.decl.element := by
  cases hd with
  | intro values names sorted shaped inner =>
      have hx := SortedList.mem_of_find? found
      have hname := SortedList.key_of_find? found
      have declared := h.set_decl_mem hs
      exact ⟨sorted x hx, fun y hy =>
        ⟨shaped s.decl declared x hx hname y hy, inner s.decl declared x hx hname y hy⟩⟩

/-- A sound record stays sound when its fields move within their kinds and the elements
that a delta names are settled by a change that keeps what makes an element. -/
theorem Record.Sound.settle {r : Record τ} (h : r.Sound) {d : Delta} (hd : d.Suits r.type)
    (move : Field → Field) (change : SetKind → ElementDelta → Element τ → Element τ)
    (decl : ∀ f, (move f).decl = f.decl) (typed : ∀ f ∈ r.fields, (move f).Typed)
    (keeps : ∀ kind x e, (change kind x e).id = e.id)
    (types : ∀ kind x e, (change kind x e).record.type = e.record.type)
    (shapes : ∀ kind x e, x.Shaped kind → e.Shaped kind → (change kind x e).Shaped kind)
    (inner : ∀ s ∈ r.sets, ∀ e ∈ s.elements, ∀ x, x.record.Suits e.record.type →
      (change s.decl.kind x e).record.Sound) :
    (Record.recount { r with
      fields := r.fields.map move
      sets := r.sets.map (ElementSet.visited (fun changes s => { s with
        elements := s.elements.filterMap
          (Element.settled s.decl.kind (change s.decl.kind) changes) }.recount)
          d.sets) }).Sound := by
  refine .intro ⟨?_, ?_, ?_, rfl, ?_⟩ ?_
  · simp only [Record.recount, List.map_map]
    rw [← h.tidy.fields_decl]
    exact List.map_congr_left (fun f _ => decl f)
  · simp only [Record.recount, List.map_map]
    rw [← h.tidy.sets_decl]
    apply List.map_congr_left
    intro s _
    rw [Function.comp_apply, ElementSet.visited]
    split <;> rfl
  · intro f' hf'
    obtain ⟨f, hf, rfl⟩ := List.mem_map.mp hf'
    exact typed f hf
  · intro s' hs'
    obtain ⟨s, hs, rfl⟩ := List.mem_map.mp hs'
    rw [ElementSet.visited]
    split
    next => exact h.set hs
    next x found =>
      have suits := (h.tidy.suits hd hs found).2
      exact (h.set hs).settle (keeps _) (types _) (fun y hy e => shapes _ y e (suits y hy).1)
  · intro s' hs' e' he'
    obtain ⟨s, hs, rfl⟩ := List.mem_map.mp hs'
    rw [ElementSet.visited] at he'
    split at he'
    next => exact h.nested hs he'
    next x found =>
      obtain ⟨e, he, settled⟩ := List.mem_filterMap.mp he'
      rcases Element.settled_eq_some.mp settled with ⟨-, rfl⟩ | ⟨y, hy, -, rfl⟩
      · exact h.nested hs he
      · have suits := (h.tidy.suits hd hs found).2 y (SortedList.mem_of_find? hy)
        exact inner s hs e he y ((h.set hs).typed e he ▸ suits.2)

theorem Field.commitFrom_decl (changed : List (String × Value)) (f : Field) :
    (f.commitFrom changed).decl = f.decl := rfl

theorem Field.Typed.commitFrom {f : Field} (h : f.Typed) {changed : List (String × Value)}
    (values : ∀ x ∈ changed, x.1 = f.name → f.decl.kind.Holds x.2 = true) :
    (f.commitFrom changed).Typed := by
  rw [Field.commitFrom]
  cases found : SortedList.find? Prod.fst f.name changed with
  | none => exact h
  | some x =>
      exact ⟨h.1, values x (SortedList.mem_of_find? found) (SortedList.key_of_find? found)⟩

/-- A sound record stays sound when its baseline moves. -/
theorem Record.Sound.advance {r : Record τ} (h : r.Sound) {d : Delta}
    (hd : d.Suits r.type) : (r.advance d).Sound := by
  induction h generalizing d with
  | @intro r tidy inner ih =>
      have typed : ∀ f ∈ r.fields, (f.commitFrom d.fields).Typed := by
        intro f hf
        apply (tidy.typed f hf).commitFrom
        intro x hx hname
        cases hd with
        | intro values =>
            exact values f.decl (tidy.fields_decl ▸ List.mem_map_of_mem hf) x hx hname
      have settled := Record.Sound.settle (.intro tidy inner) hd (Field.commitFrom d.fields)
        (fun _ => Element.advance) (Field.commitFrom_decl d.fields) typed
        (fun _ => Element.advance_id) (fun _ x e => e.record.advance_type x.record)
        (fun _ _ _ => Element.Shaped.advance) (fun s hs e he x hx => ih s hs e he hx)
      rw [Record.advance_eq]
      exact settled

/-- A sound record stays sound when an attempt is rolled back. -/
theorem Record.Sound.rollback {r : Record τ} (h : r.Sound) {d : Delta}
    (hd : d.Suits r.type) : (r.rollback d).Sound := by
  induction h generalizing d with
  | @intro r tidy inner ih =>
      have sound : r.Sound := .intro tidy inner
      rw [(sound.accords hd rfl).rollback_eq]
      refine sound.settle hd _ Element.retract (fun _ => rfl) tidy.typed
        Element.retract_id ?_ ?_ ?_
      · intro kind x e
        rw [Element.retract_record, Record.rollback_type]
      · exact fun kind x e _ shaped => shaped.retract x
      · intro s hs e he x hx
        rw [Element.retract_record]
        exact ih s hs e he hx

end Soundness

end RecordSync
