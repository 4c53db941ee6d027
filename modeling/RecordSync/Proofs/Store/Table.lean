import RecordSync.Proofs.Store.Tree
import RecordSync.Store.Apply

/-!
# The table as a graph

The rows of the table point to the rows that hold them.  A row is made after the one that
holds it and never leaves its place, so the rows form trees, and what is below one address
of a row is apart from what is below another.

**Showing.**  A row shows a node when it has the node's data and its live rows show the
node's children.  What stands below a tombstone is not looked at.

**Frames.**  A change at one address leaves alone whatever is not inside it.

**Results.**
* `Store.Shows.transport`: a row shows the same node in a table that agrees on all rows
  below it.
* `Store.SlotShows.sibling`: a change at one address is not seen at another one of the
  same row.
-/

namespace RecordSync

/-- The address of a row: the row that holds it, the set and the id. -/
def Row.key (row : Row) : Nat × String × Int := (row.parent, row.set, row.id)

namespace Store

variable {s s' s'' : Store} {p : Nat} {set : String} {id : Int}

theorem of_bind_eq_ok {ε α β : Type} {x : Except ε α} {next : α → Except ε β} {b : β}
    (h : x >>= next = .ok b) : ∃ a, x = .ok a ∧ next a = .ok b := by
  cases x with
  | error e => cases h
  | ok a => exact ⟨a, rfl, h⟩

/-- Rows have numbers and addresses of their own, come after the rows that hold them, and
have no position while they are buried. -/
structure Tabled (s : Store) : Prop where
  numbers : (s.rows.map Row.number).Nodup
  keys : (s.rows.map Row.key).Nodup
  bound : ∀ row ∈ s.rows, row.parent < row.number ∧ row.number ≤ s.rows.length
  buried : ∀ row ∈ s.rows, row.deleted = true → row.position = none

theorem find?_eq (s : Store) (p : Nat) (set : String) (id : Int) :
    s.find? p set id = SortedList.find? Row.key (p, set, id) s.rows := by
  rw [find?, SortedList.find?]
  congr 1
  funext row
  simp [Row.key]

theorem key_of_find? {row : Row} (h : s.find? p set id = some row) :
    row ∈ s.rows ∧ row.parent = p ∧ row.set = set ∧ row.id = id := by
  rw [find?_eq] at h
  have key := SortedList.key_of_find? h
  simp only [Row.key, Prod.mk.injEq] at key
  exact ⟨SortedList.mem_of_find? h, key⟩

theorem live?_eq_some {row : Row} :
    s.live? p set id = some row ↔ s.find? p set id = some row ∧ row.deleted = false := by
  rw [live?, Option.filter_eq_some_iff]
  simp

theorem Tabled.eq_of_number (h : s.Tabled) {row row' : Row} (hr : row ∈ s.rows)
    (hr' : row' ∈ s.rows) (same : row.number = row'.number) : row = row' :=
  List.inj_on_of_nodup_map h.numbers hr hr' same

/-- A row is found under its address. -/
theorem Tabled.find?_of_mem (h : s.Tabled) {row : Row} (hr : row ∈ s.rows) :
    s.find? row.parent row.set row.id = some row := by
  rw [find?_eq]
  exact SortedList.find?_of_mem h.keys hr

section Inside

/-- The numbers of the rows at an address and below it. -/
inductive Inside (s : Store) (p : Nat) (set : String) (id : Int) : Nat → Prop
  | here {row : Row} : s.find? p set id = some row → Inside s p set id row.number
  | under {m : Nat} {set' : String} {id' : Int} {row : Row} :
      Inside s p set id m → s.find? m set' id' = some row → Inside s p set id row.number

theorem Inside.lt (h : s.Tabled) {m : Nat} (hm : s.Inside p set id m) : p < m := by
  induction hm with
  | here found =>
      obtain ⟨mem, rfl, -⟩ := key_of_find? found
      exact (h.bound _ mem).1
  | under _ found ih =>
      obtain ⟨mem, rfl, -⟩ := key_of_find? found
      exact ih.trans (h.bound _ mem).1

/-- What is inside one address of a row is not inside another one. -/
theorem Inside.disjoint (h : s.Tabled) {set' : String} {id' : Int} {m : Nat}
    (hm : s.Inside p set id m) (hm' : s.Inside p set' id' m) : set = set' ∧ id = id' := by
  -- Both ways end in the row `m`, so they share its holder, step by step down to `p`.
  have step : ∀ {row row' : Row} {q q' : Nat} {t t' : String} {i i' : Int},
      s.find? q t i = some row → s.find? q' t' i' = some row' → row.number = row'.number →
        q = q' ∧ t = t' ∧ i = i' := by
    intro row row' q q' t t' i i' found found' same
    obtain ⟨mem, rfl, rfl, rfl⟩ := key_of_find? found
    obtain ⟨mem', rfl, rfl, rfl⟩ := key_of_find? found'
    obtain rfl := h.eq_of_number mem mem' same
    exact ⟨rfl, rfl, rfl⟩
  induction hm with
  | @here row found =>
      generalize hn : row.number = m at hm'
      cases hm' with
      | here found' => exact (step found found' hn).2
      | under inner found' =>
          obtain ⟨rfl, -⟩ := step found found' hn
          exact absurd (inner.lt h) (lt_irrefl _)
  | @under q t i row inner found ih =>
      generalize hn : row.number = m at hm'
      cases hm' with
      | here found' =>
          obtain ⟨rfl, -⟩ := step found found' hn
          exact absurd (inner.lt h) (lt_irrefl _)
      | under inner' found' =>
          obtain ⟨rfl, -⟩ := step found found' hn
          exact ih inner'

end Inside

section Grows

/-- A later table: rows keep their numbers and addresses, and strings of bytes are
kept. -/
structure Grows (s s' : Store) : Prop where
  digest_eq : s'.digest = s.digest
  length_le : s.rows.length ≤ s'.rows.length
  rows : ∀ p set id row, s.find? p set id = some row →
    ∃ row', s'.find? p set id = some row' ∧ row'.number = row.number
  bytes : ∀ d b, s.bytes? d = some b → s'.bytes? d = some b

theorem Grows.refl (s : Store) : s.Grows s :=
  ⟨rfl, le_rfl, fun _ _ _ row found => ⟨row, found, rfl⟩, fun _ _ kept => kept⟩

theorem Grows.trans (h : s.Grows s') (h' : s'.Grows s'') : s.Grows s'' where
  digest_eq := h'.digest_eq.trans h.digest_eq
  length_le := h.length_le.trans h'.length_le
  rows := by
    intro p set id row found
    obtain ⟨row', found', same⟩ := h.rows p set id row found
    obtain ⟨row'', found'', same'⟩ := h'.rows p set id row' found'
    exact ⟨row'', found'', same'.trans same⟩
  bytes := fun d b kept => h'.bytes d b (h.bytes d b kept)

theorem Inside.grows (h : s.Grows s') {m : Nat} (hm : s.Inside p set id m) :
    s'.Inside p set id m := by
  induction hm with
  | here found =>
      obtain ⟨row', found', same⟩ := h.rows _ _ _ _ found
      exact same ▸ .here found'
  | under _ found ih =>
      obtain ⟨row', found', same⟩ := h.rows _ _ _ _ found
      exact same ▸ .under ih found'

/-- A change at an address leaves alone whatever is not inside it. -/
def Frame (s s' : Store) (p : Nat) (set : String) (id : Int) : Prop :=
  ∀ m set' id', ¬ s'.Inside p set id m → (m, set', id') ≠ (p, set, id) →
    s'.find? m set' id' = s.find? m set' id'

theorem Frame.refl (s : Store) (p : Nat) (set : String) (id : Int) : s.Frame s p set id :=
  fun _ _ _ _ _ => rfl

theorem Frame.trans (grows : s'.Grows s'') (h : s.Frame s' p set id)
    (h' : s'.Frame s'' p set id) : s.Frame s'' p set id := by
  intro m set' id' outside other
  exact (h' m set' id' outside other).trans
    (h m set' id' (fun inside => outside (inside.grows grows)) other)

/-- A change below a row leaves alone whatever is not below it. -/
def FrameBelow (s s' : Store) (number : Nat) : Prop :=
  ∀ m, m ≠ number → (∀ set id, ¬ s'.Inside number set id m) →
    ∀ set id, s'.find? m set id = s.find? m set id

theorem FrameBelow.refl (s : Store) (number : Nat) : s.FrameBelow s number :=
  fun _ _ _ _ _ => rfl

theorem FrameBelow.trans {number : Nat} (grows : s'.Grows s'')
    (h : s.FrameBelow s' number) (h' : s'.FrameBelow s'' number) :
    s.FrameBelow s'' number := by
  intro m other outside set id
  exact (h' m other outside set id).trans
    (h m other (fun t i inside => outside t i (inside.grows grows)) set id)

/-- A change at an address is one below the row that has it. -/
theorem Frame.frameBelow (h : s.Frame s' p set id) : s.FrameBelow s' p := by
  intro m other outside set' id'
  exact h m set' id' (outside set id) (fun same => other (Prod.mk.inj same).1)

/-- A change below a row is one at its address. -/
theorem FrameBelow.frame {row : Row} (found : s'.find? p set id = some row)
    (h : s.FrameBelow s' row.number) : s.Frame s' p set id := by
  have inner : ∀ {t : String} {i : Int} {m : Nat}, s'.Inside row.number t i m →
      s'.Inside p set id m := by
    intro t i m hm
    induction hm with
    | here found' => exact .under (.here found) found'
    | under _ found' ih => exact .under ih found'
  intro m set' id' outside _
  exact h m (fun same => outside (same ▸ .here found))
    (fun t i hm => outside (inner hm)) set' id'

end Grows

section Shows

/-- What a row holds for the value of a field. -/
def content (s : Store) : Value → Content
  | .bytes b => .stored (s.digest b)
  | other => .inline other

/-- A row has the data of a node. -/
structure RowShows (s : Store) (row : Row) (n : Node) : Prop where
  id_eq : n.id = row.id
  position_eq : n.position = row.position
  fields_eq : row.fields = n.fields.map (fun x => (x.1, s.content x.2))
  available : ∀ x ∈ n.fields, ∀ b, x.2 = .bytes b → s.bytes? (s.digest b) = some b

/-- The live rows that a row holds show the children of a node. -/
inductive Shows (s : Store) : Nat → Node → Prop
  | intro {number : Nat} {n : Node} :
      (∀ set id, s.live? number set id = none → n.child? set id = none) →
      (∀ set id row, s.live? number set id = some row → (n.child? set id).isSome = true) →
      (∀ set id row child, s.live? number set id = some row → n.child? set id = some child →
        s.RowShows row child) →
      (∀ set id row child, s.live? number set id = some row → n.child? set id = some child →
        Shows s row.number child) →
      Shows s number n

/-- What is live at an address shows a node, or nothing is. -/
def SlotShows (s : Store) (p : Nat) (set : String) (id : Int) : Option Node → Prop
  | none => s.live? p set id = none
  | some n => ∃ row, s.live? p set id = some row ∧ s.RowShows row n ∧ s.Shows row.number n

/-- A row shows the children of a node iff each of its addresses does. -/
theorem shows_iff {number : Nat} {n : Node} :
    s.Shows number n ↔ ∀ set id, s.SlotShows number set id (n.child? set id) := by
  constructor
  · rintro ⟨gone, there, data, inner⟩ set id
    cases live : s.live? number set id with
    | none =>
        rw [gone set id live]
        exact live
    | some row =>
        obtain ⟨child, found⟩ := Option.isSome_iff_exists.mp (there set id row live)
        rw [found]
        exact ⟨row, live, data set id row child live found, inner set id row child live found⟩
  · intro slots
    refine .intro ?_ ?_ ?_ ?_
    · intro set id gone
      have slot := slots set id
      cases found : n.child? set id with
      | none => rfl
      | some child =>
          rw [found] at slot
          obtain ⟨row, live, -⟩ := slot
          rw [gone] at live
          cases live
    · intro set id row live
      have slot := slots set id
      cases found : n.child? set id with
      | none =>
          rw [found] at slot
          rw [SlotShows, live] at slot
          cases slot
      | some child => rfl
    · intro set id row child live found
      have slot := slots set id
      rw [found] at slot
      obtain ⟨row', live', data, -⟩ := slot
      rw [live] at live'
      obtain rfl := Option.some.inj live'
      exact data
    · intro set id row child live found
      have slot := slots set id
      rw [found] at slot
      obtain ⟨row', live', -, inner⟩ := slot
      rw [live] at live'
      obtain rfl := Option.some.inj live'
      exact inner

/-- The data of a row stay what they are in a later table. -/
theorem RowShows.grows {row : Row} {n : Node} (h : s.RowShows row n)
    (grows : s.Grows s') : s'.RowShows row n where
  id_eq := h.id_eq
  position_eq := h.position_eq
  fields_eq := by
    have same : s'.content = s.content := by
      funext value
      cases value <;> simp [content, grows.digest_eq]
    rw [same]
    exact h.fields_eq
  available := by
    intro x hx b hb
    rw [grows.digest_eq]
    exact grows.bytes _ _ (h.available x hx b hb)

/-- A row shows the same node in a later table that agrees on all rows of a class which is
closed under the rows that they hold. -/
theorem Shows.transport (kept : Nat → Prop) (grows : s.Grows s')
    (agree : ∀ m, kept m → ∀ set id, s'.find? m set id = s.find? m set id)
    (closed : ∀ m set id row, kept m → s.find? m set id = some row → kept row.number)
    {number : Nat} {n : Node} (h : s.Shows number n) (hk : kept number) :
    s'.Shows number n := by
  induction h with
  | @intro number n gone there data _ ih =>
      have live : ∀ set id, s'.live? number set id = s.live? number set id := by
        intro set id
        rw [live?, live?, agree number hk]
      refine .intro ?_ ?_ ?_ ?_
      · intro set id
        rw [live]
        exact gone set id
      · intro set id row
        rw [live]
        exact there set id row
      · intro set id row child found
        rw [live] at found
        exact fun hc => (data set id row child found hc).grows grows
      · intro set id row child found hc
        rw [live] at found
        exact ih set id row child found hc
          (closed number set id row hk (live?_eq_some.mp found).1)

/-- A change at one address is not seen at another one of the same row. -/
theorem SlotShows.sibling (tabled : s'.Tabled) (grows : s.Grows s')
    (frame : s.Frame s' p set id) {set' : String} {id' : Int}
    (other : (set', id') ≠ (set, id)) {old : Option Node}
    (h : s.SlotShows p set' id' old) : s'.SlotShows p set' id' old := by
  have same : s'.find? p set' id' = s.find? p set' id' := by
    refine frame p set' id' (fun inside => lt_irrefl _ (inside.lt tabled)) ?_
    intro e
    exact other (Prod.mk.inj e).2
  have live : s'.live? p set' id' = s.live? p set' id' := by rw [live?, live?, same]
  cases old with
  | none => exact live.trans h
  | some n =>
      obtain ⟨row, found, data, inner⟩ := h
      refine ⟨row, live.trans found, data.grows grows, ?_⟩
      refine inner.transport (s.Inside p set' id') grows ?_ ?_
        (.here (live?_eq_some.mp found).1)
      · intro m hm t i
        have inside := hm.grows grows
        refine frame m t i (fun inside' => ?_) (fun e => ?_)
        · obtain ⟨rfl, rfl⟩ := Inside.disjoint tabled inside inside'
          exact other rfl
        · obtain ⟨rfl, -⟩ := Prod.mk.inj e
          exact lt_irrefl _ (inside.lt tabled)
      · intro m t i row' hm found'
        exact .under hm found'

end Shows

end Store

end RecordSync
