import RecordSync.Proofs.Store.Proper
import RecordSync.Proofs.Store.Rows

/-!
# Writing at one address

An address of the table shows what the plain store has in its place: nothing, or a node.
Every operation that a message calls for is a write at the address of its record: it
leaves the rest of the table alone, and the address then shows what the plain store puts
there.

**Results.**
* `Store.Sound.ensure`: a record that is made or brought back is a blank node.
* `Store.Sound.writeFields`: fields are written as in the plain store.
* `Store.place_cases`: all that can become of a record that is brought to its place.
* `Store.Sound.place`: a record is brought to its place as in the plain store, or refused
  for the same reason.
-/

namespace RecordSync

section Agree

variable {ε α β γ δ : Type} {R : α → β → Prop} {R' : γ → δ → Prop}

/-- Two computations fail for one reason, or both give a result and the results are
related. -/
def Agree (R : α → β → Prop) : Except ε α → Except ε β → Prop
  | .ok a, .ok b => R a b
  | .error e, .error e' => e = e'
  | .ok _, .error _ => False
  | .error _, .ok _ => False

theorem Agree.bind {x : Except ε α} {y : Except ε β} {f : α → Except ε γ}
    {g : β → Except ε δ} (h : Agree R x y)
    (next : ∀ a b, y = .ok b → R a b → Agree R' (f a) (g b)) :
    Agree R' (x >>= f) (y >>= g) := by
  cases x <;> cases y
  case error.error => exact h
  case error.ok => exact h.elim
  case ok.error => exact h.elim
  case ok.ok a b => exact next a b rfl h

theorem Agree.of_ok {x : Except ε α} {y : Except ε β} (h : Agree R x y) {a : α}
    (hx : x = .ok a) : ∃ b, y = .ok b ∧ R a b := by
  subst hx
  cases y with
  | error e => exact h.elim
  | ok b => exact ⟨b, rfl, h⟩

theorem Agree.of_ok_right {x : Except ε α} {y : Except ε β} (h : Agree R x y) {b : β}
    (hy : y = .ok b) : ∃ a, x = .ok a ∧ R a b := by
  subst hy
  cases x with
  | error e => exact h.elim
  | ok a => exact ⟨a, rfl, h⟩

theorem Agree.of_error_right {x : Except ε α} {y : Except ε β} (h : Agree R x y) {e : ε}
    (hy : y = .error e) : x = .error e := by
  subst hy
  cases x with
  | error e' => exact congrArg Except.error h
  | ok a => exact h.elim

theorem Agree.imp {S : α → β → Prop} {x : Except ε α} {y : Except ε β} (h : Agree R x y)
    (imp : ∀ a b, R a b → S a b) : Agree S x y := by
  cases x <;> cases y
  case error.error => exact h
  case error.ok => exact h.elim
  case ok.error => exact h.elim
  case ok.ok a b => exact imp a b h

theorem Agree.with_results {x : Except ε α} {y : Except ε β} (h : Agree R x y) :
    Agree (fun a b => x = .ok a ∧ y = .ok b ∧ R a b) x y := by
  cases x <;> cases y
  case error.error => exact h
  case error.ok => exact h.elim
  case ok.error => exact h.elim
  case ok.ok => exact ⟨rfl, rfl, h⟩

theorem Agree.map {x : Except ε α} {y : Except ε β} {g : β → δ} {S : α → δ → Prop}
    (h : Agree R x y) (next : ∀ a b, y = .ok b → R a b → S a (g b)) :
    Agree S x (y.map g) := by
  cases x <;> cases y
  case error.error => exact h
  case error.ok => exact h.elim
  case ok.error => exact h.elim
  case ok.ok a b => exact next a b rfl h

end Agree

namespace Store

variable {U : Set Bytes} {s s' s'' : Store} {p : Nat} {set : String}
    {id : Int} {row : Row}
  {n n' : Node}

/-- A write at an address: the table stays in shape, nothing changes elsewhere, and the
address shows what was written. -/
structure Writes (U : Set Bytes) (s s' : Store) (p : Nat) (set : String) (id : Int)
    (new : Option Node) : Prop where
  sound : s'.Sound U
  grows : s.Grows s'
  frame : s.Frame s' p set id
  slot : s'.SlotShows p set id new

theorem Writes.trans {new new' : Option Node} (h : Writes U s s' p set id new)
    (h' : Writes U s' s'' p set id new') : Writes U s s'' p set id new' :=
  ⟨h'.sound, h.grows.trans h'.grows, h.frame.trans h'.grows h'.frame, h'.slot⟩

/-- A row that is live after a write has the number of the row that was live before. -/
theorem Writes.number {new : Option Node} (h : Writes U s s' p set id new)
    (live : s.live? p set id = some row) {row' : Row}
    (live' : s'.live? p set id = some row') : row'.number = row.number := by
  obtain ⟨row'', found, same⟩ := h.grows.rows _ _ _ _ (live?_eq_some.mp live).1
  rw [(live?_eq_some.mp live').1] at found
  exact Option.some.inj found ▸ same

section Amend

theorem SlotShows.eq_none {old : Option Node} (h : s.SlotShows p set id old)
    (gone : s.live? p set id = none) : old = none := by
  cases old with
  | none => rfl
  | some n =>
      obtain ⟨row, live, -⟩ := h
      rw [gone] at live
      cases live

theorem SlotShows.eq_some {old : Option Node} (h : s.SlotShows p set id old)
    (live : s.live? p set id = some row) :
    ∃ n, old = some n ∧ s.RowShows row n ∧ s.Shows row.number n := by
  cases old with
  | none =>
      rw [SlotShows, live] at h
      cases h
  | some n =>
      obtain ⟨row', live', data, inner⟩ := h
      rw [live] at live'
      obtain rfl := Option.some.inj live'
      exact ⟨n, rfl, data, inner⟩

/-- What a row shows of its children does not depend on the other data of the node. -/
theorem Shows.congr {number : Nat} (h : s.Shows number n)
    (children : n'.children = n.children) : s.Shows number n' := by
  rw [shows_iff] at h ⊢
  intro set id
  rw [Node.child?, children]
  exact h set id

/-- What stands below an address is not touched by a change of the rows that are not below
it. -/
theorem Shows.beneath (tabled : s.Tabled) (grows : s.Grows s') {number : Nat}
    (agree : ∀ m, number ≤ m → ∀ set id, s'.find? m set id = s.find? m set id)
    (h : s.Shows number n) : s'.Shows number n := by
  refine h.transport (fun m => number ≤ m) grows agree ?_ le_rfl
  intro m set id row hm found
  obtain ⟨mem, rfl, -⟩ := key_of_find? found
  exact hm.trans (tabled.bound row mem).1.le

theorem RowShows.moveTo (h : s.RowShows row n) (position : Option Int) :
    s.RowShows { row with position := position } (n.moveTo position) :=
  ⟨h.id_eq, rfl, h.fields_eq, h.available⟩

/-- A change of the data of a live row is a write at its address. -/
theorem Sound.amend (h : s.Sound U) {change : Row → Row} (amends : Amends change)
    (live : s.live? p set id = some row) (inner : s.Shows row.number n)
    (kept : (change row).deleted = false) (data : s.RowShows (change row) n')
    (children : n'.children = n.children) :
    Writes U s (s.updateRow row.number change) p set id (some n') := by
  have grows : s.Grows (s.updateRow row.number change) := Grows.update amends
  have found := (live?_eq_some.mp live).1
  have after := h.tabled.find?_updateRow found amends
  obtain ⟨mem, rfl, -⟩ := key_of_find? found
  refine ⟨h.update amends ?_, grows, ?_, change row, ?_, data.grows grows, ?_⟩
  · intro row' mem' chosen deleted
    obtain rfl := h.tabled.eq_of_number mem' mem (by simpa using chosen)
    rw [kept] at deleted
    cases deleted
  · intro m set' id' _ other
    rw [after, if_neg]
    rintro ⟨rfl, rfl, rfl⟩
    exact other rfl
  · rw [live?_eq_some, after, if_pos ⟨rfl, rfl, rfl⟩]
    exact ⟨rfl, kept⟩
  · rw [(amends row).1]
    refine (inner.congr children).beneath h.tabled grows ?_
    intro m hm set' id'
    rw [after, if_neg]
    rintro ⟨rfl, -⟩
    exact absurd hm (h.tabled.bound row mem).1.not_ge

/-- The burial of a live row empties its address. -/
theorem Sound.bury (h : s.Sound U) (live : s.live? p set id = some row) :
    Writes U s (s.updateRow row.number bury) p set id none := by
  have after := h.tabled.find?_updateRow (live?_eq_some.mp live).1 amends_bury
  refine ⟨h.update amends_bury (fun _ _ _ _ => rfl), Grows.update amends_bury, ?_, ?_⟩
  · intro m set' id' _ other
    rw [after, if_neg]
    rintro ⟨rfl, rfl, rfl⟩
    exact other rfl
  · rw [SlotShows, live?, after, if_pos ⟨rfl, rfl, rfl⟩]
    rfl

end Amend

section Ensure

theorem ensure_of_live (live : s.live? p set id = some row) :
    s.ensure p set id = (s, row.number) := by
  obtain ⟨found, there⟩ := live?_eq_some.mp live
  rw [ensure, found]
  exact if_neg (by simp [there])

theorem shows_blank {number : Nat} (none : ∀ set id, s.live? number set id = none)
    (id : Int) : s.Shows number (.blank id) :=
  shows_iff.mpr (fun set id' => none set id')

/-- A record that is made is a blank node. -/
theorem Sound.writes_create (h : s.Sound U) (hp : p ≤ s.rows.length)
    (found : s.find? p set id = none) :
    Writes U s (s.create p set id).1 p set id (some (.blank id)) ∧
      ((s.create p set id).1.live? p set id).map Row.number =
        some (s.create p set id).2 := by
  have after := find?_create found
  have live : (s.create p set id).1.live? p set id =
      some ⟨s.rows.length + 1, p, set, id, none, false, []⟩ := by
    rw [live?_eq_some, after, if_pos ⟨rfl, rfl, rfl⟩]
    exact ⟨rfl, rfl⟩
  refine ⟨⟨h.create hp found, .create found, ?_, _, live, ?_, ?_⟩, ?_⟩
  · intro m set' id' _ other
    rw [after, if_neg]
    rintro ⟨rfl, rfl, rfl⟩
    exact other rfl
  · exact ⟨rfl, rfl, rfl, fun _ hx => absurd hx List.not_mem_nil⟩
  · refine shows_blank ?_ id
    intro set' id'
    -- The number of the new row is above all numbers, so no row is held by it.
    have none : s.find? (s.rows.length + 1) set' id' = none := by
      cases found' : s.find? (s.rows.length + 1) set' id' with
      | none => rfl
      | some row =>
          obtain ⟨mem, parent, -⟩ := key_of_find? found'
          have := h.tabled.bound row mem
          omega
    rw [live?, after, if_neg, none]
    · rfl
    · rintro ⟨e, -⟩
      exact absurd hp (e ▸ Nat.not_succ_le_self _)
  · rw [live]
    rfl

/-- A record that is brought back is a blank node. -/
theorem Sound.writes_revive (h : s.Sound U) (found : s.find? p set id = some row)
    (deleted : row.deleted = true) :
    Writes U s (s.revive row.number) p set id (some (.blank id)) ∧
      ((s.revive row.number).live? p set id).map Row.number = some row.number := by
  have after := h.tabled.find?_revive found
  have live : (s.revive row.number).live? p set id =
      some { row with deleted := false, fields := [] } := by
    rw [live?_eq_some, after, if_pos ⟨rfl, rfl, rfl⟩]
    exact ⟨rfl, rfl⟩
  obtain ⟨mem, rfl, rfl, rfl⟩ := key_of_find? found
  refine ⟨⟨h.revive _, .revive _, ?_, _, live, ?_, ?_⟩, ?_⟩
  · intro m set' id' outside other
    have here := Inside.here (live?_eq_some.mp live).1
    rw [after, if_neg, if_neg]
    · rintro rfl
      exact outside here
    · rintro ⟨rfl, rfl, rfl⟩
      exact other rfl
  · exact ⟨rfl, (h.tabled.buried row mem deleted).symm, rfl,
      fun _ hx => absurd hx List.not_mem_nil⟩
  · refine shows_blank ?_ _
    intro set' id'
    rw [live?, after, if_neg, if_pos rfl]
    · cases s.find? row.number set' id' <;> rfl
    · rintro ⟨e, -⟩
      exact absurd e (h.tabled.bound row mem).1.ne'
  · rw [live]
    rfl

/-- A record that is not live is made or brought back as a blank node; one that is live
stays as it is. -/
theorem Sound.ensure (h : s.Sound U) (hp : p ≤ s.rows.length) {old : Option Node}
    (slot : s.SlotShows p set id old) :
    Writes U s (s.ensure p set id).1 p set id (some (old.getD (.blank id))) ∧
      ((s.ensure p set id).1.live? p set id).map Row.number =
        some (s.ensure p set id).2 := by
  rw [Store.ensure]
  cases found : s.find? p set id with
  | none =>
      have gone : s.live? p set id = none := by
        rw [live?, found]
        rfl
      obtain rfl := slot.eq_none gone
      exact h.writes_create hp found
  | some row =>
      dsimp only
      split
      next deleted =>
        have gone : s.live? p set id = none := by
          rw [live?, found, Option.filter_some, deleted]
          rfl
        obtain rfl := slot.eq_none gone
        exact h.writes_revive found deleted
      next there =>
        have live : s.live? p set id = some row :=
          live?_eq_some.mpr ⟨found, by simpa using there⟩
        obtain ⟨n, rfl, data, inner⟩ := slot.eq_some live
        refine ⟨⟨h, .refl s, .refl s p set id, row, live, data, inner⟩, ?_⟩
        rw [live]
        rfl

end Ensure

section Fields

theorem map_insert {α β : Type} {f : String × α → String × β} (keeps : ∀ x, (f x).1 = x.1)
    (x : String × α) (l : List (String × α)) :
    (SortedList.insert Prod.fst x l).map f =
      SortedList.insert Prod.fst (f x) (l.map f) := by
  induction l with
  | nil => rfl
  | cons y l ih =>
      rw [List.map_cons, SortedList.insert, SortedList.insert, keeps, keeps]
      split
      · rfl
      · split
        · rfl
        · rw [List.map_cons, ih]

/-- A row whose fields are written to has the data of a node whose fields are. -/
theorem RowShows.write (h : s.RowShows row n) {field : String} {value : Value}
    (there : ∀ b, value = .bytes b → s.bytes? (s.digest b) = some b) :
    s.RowShows { row with
        fields := SortedList.insert Prod.fst (field, s.content value) row.fields }
      (n.writeFields [(field, value)]) where
  id_eq := h.id_eq
  position_eq := h.position_eq
  fields_eq := by
    show SortedList.insert Prod.fst (field, s.content value) row.fields = _
    rw [h.fields_eq]
    exact (@map_insert _ _ (fun x => (x.1, s.content x.2)) (fun _ => rfl)
      (field, value) _).symm
  available := by
    intro x hx b hb
    rcases SortedList.mem_of_mem_insert hx with rfl | hx
    · exact there b hb
    · exact h.available x hx b hb

theorem Sound.writeField (h : s.Sound U) (live : s.live? p set id = some row)
    (data : s.RowShows row n) (inner : s.Shows row.number n) (field : String)
    {value : Value} (known : ∀ b, value = .bytes b → b ∈ U) :
    Writes U s (s.writeField row.number field value) p set id
      (some (n.writeFields [(field, value)])) := by
  have kept : row.deleted = false := (live?_eq_some.mp live).2
  have amends (content : Content) : Amends (fun row : Row =>
      { row with fields := SortedList.insert Prod.fst (field, content) row.fields }) :=
    fun _ => ⟨rfl, rfl⟩
  have plain : (∀ b, value ≠ .bytes b) →
      Writes U s (s.updateRow row.number (fun row =>
        { row with fields := SortedList.insert Prod.fst (field, s.content value) row.fields }))
        p set id (some (n.writeFields [(field, value)])) := by
    intro other
    exact h.amend (amends _) live inner kept
      (data.write (fun b e => absurd e (other b))) rfl
  cases value with
  | bytes b =>
      obtain ⟨sound, rows, digest, grows, found⟩ := h.keep (known b rfl)
      have find? : ∀ p set id, (s.keep b).find? p set id = s.find? p set id := by
        intro p set id
        rw [Store.find?, rows, Store.find?]
      have live' : (s.keep b).live? p set id = some row := by
        rw [live?, find?]; exact live
      have same : (s.keep b).content (.bytes b) = .stored (s.digest b) := by
        rw [content, digest]
      have write := sound.amend (amends _) live'
        (inner.beneath h.tabled grows (fun m _ => find? m)) kept
        (@RowShows.write _ _ _ (data.grows grows) field (.bytes b)
          (by rintro c ⟨⟩; rw [digest]; exact found)) rfl
      rw [same] at write
      exact ⟨write.sound, grows.trans write.grows,
        fun m set' id' outside other =>
          (write.frame m set' id' outside other).trans (find? m set' id'),
        write.slot⟩
  | null => exact plain (fun _ e => by cases e)
  | text _ => exact plain (fun _ e => by cases e)
  | integer _ => exact plain (fun _ e => by cases e)
  | real _ => exact plain (fun _ e => by cases e)
  | boolean _ => exact plain (fun _ e => by cases e)

/-- A row that shows a node shows it with the fields that are written to it. -/
theorem Sound.writeFields (h : s.Sound U) (live : s.live? p set id = some row)
    (data : s.RowShows row n) (inner : s.Shows row.number n)
    {fields : List (String × Value)} (known : ∀ x ∈ fields, ∀ b, x.2 = .bytes b → b ∈ U) :
    Writes U s (s.writeFields row.number fields) p set id (some (n.writeFields fields)) := by
  induction fields generalizing s row n with
  | nil =>
      have same : n.writeFields [] = n := by cases n; rfl
      rw [same]
      exact ⟨h, .refl s, .refl s p set id, row, live, data, inner⟩
  | cons x fields ih =>
      have write := h.writeField live data inner x.1 (known x List.mem_cons_self)
      obtain ⟨row', live', data', inner'⟩ := write.slot
      have rest := ih write.sound live' data' inner'
        (fun y hy => known y (List.mem_cons_of_mem x hy))
      rw [write.number live live'] at rest
      exact write.trans rest

end Fields

section Place

/-- A message that is accepted buries its row if that is live, or it finds or makes a row,
which it may move to a position that is not below zero. -/
theorem place_cases {mayCreate : Bool} {position swapPosition : Option Int}
    {deleted : Option Bool} {placed : Store × Option Nat}
    (h : s.place p set mayCreate id position swapPosition deleted = .ok placed) :
    ((placed = (s, none) ∨ ∃ row : Row, placed = (s.updateRow row.number bury, none)) ∧
        (swapPosition = some absentPosition ∨ swapPosition = none ∧ deleted = some true)) ∨
      (∃ target, placed = ((s.ensure p set id).1.updateRow (s.ensure p set id).2
          (fun row => { row with position := some target }), some (s.ensure p set id).2) ∧
        swapPosition = some target ∧ target ≠ absentPosition ∧ 0 ≤ target) ∨
      placed = ((s.ensure p set id).1, some (s.ensure p set id).2) ∧
        swapPosition = none ∧ deleted ≠ some true := by
  rw [place.eq_def] at h
  cases swapPosition with
  | some target =>
      dsimp only at h
      split_ifs at h with differ gone below
      · have removal : some target = some absentPosition := congrArg some gone
        split at h <;> obtain rfl := Except.ok.inj h
        · exact .inl ⟨.inr ⟨_, rfl⟩, .inl removal⟩
        · exact .inl ⟨.inl rfl, .inl removal⟩
      · exact .inr (.inl ⟨target, (Except.ok.inj h).symm, rfl, gone, not_lt.mp below⟩)
  | none =>
      dsimp only at h
      split at h
      · exact .inl ⟨.inr ⟨_, (Except.ok.inj h).symm⟩, .inr ⟨rfl, rfl⟩⟩
      · cases h
      · exact .inr (.inr ⟨(Except.ok.inj h).symm, rfl, by decide⟩)
      next row live =>
        rw [ensure_of_live live]
        exact .inr (.inr ⟨(Except.ok.inj h).symm, rfl, by decide⟩)
      · split_ifs at h
        exact .inr (.inr ⟨(Except.ok.inj h).symm, rfl, by decide⟩)

/-- What a message finds of its record after it was brought to its place. -/
def Placed (U : Set Bytes) (s : Store) (p : Nat) (set : String) (id : Int)
    (after : Store × Option Nat) (new : Option Node) : Prop :=
  Writes U s after.1 p set id new ∧ after.2 = (after.1.live? p set id).map Row.number

/-- A live record that is removed leaves nothing to write to. -/
theorem Sound.placed_bury (h : s.Sound U) (live : s.live? p set id = some row) :
    Placed U s p set id (s.updateRow row.number Store.bury, none) none := by
  have write := h.bury live
  have gone : (s.updateRow row.number Store.bury).live? p set id = none := write.slot
  refine ⟨write, ?_⟩
  rw [gone]
  rfl

/-- A record that is moved was brought into being first. -/
theorem Sound.placed_move (h : s.Sound U) (hp : p ≤ s.rows.length) {old : Option Node}
    (slot : s.SlotShows p set id old) (target : Int) :
    Placed U s p set id
      ((s.ensure p set id).1.updateRow (s.ensure p set id).2
        (fun row => { row with position := some target }), some (s.ensure p set id).2)
      (some ((old.getD (.blank id)).moveTo (some target))) := by
  obtain ⟨made, number⟩ := h.ensure hp slot
  obtain ⟨row, live, data, inner⟩ := made.slot
  rw [live, Option.map_some, Option.some.injEq] at number
  have amends : Amends (fun row => { row with position := some target }) :=
    fun _ => ⟨rfl, rfl⟩
  have write := made.sound.amend amends live inner (live?_eq_some.mp live).2
    (data.moveTo (some target)) rfl
  rw [number] at write
  obtain ⟨row', live', -⟩ := write.slot
  exact ⟨made.trans write, ((congrArg (Option.map Row.number) live').trans
    (congrArg some ((write.number live live').trans number))).symm⟩

/-- A record is brought to its place as in the plain store, or refused for the same
reason. -/
theorem Sound.place (h : s.Sound U) (hp : p ≤ s.rows.length) {old : Option Node}
    (slot : s.SlotShows p set id old) (mayCreate : Bool)
    (position swapPosition : Option Int) (deleted : Option Bool) :
    Agree (Placed U s p set id) (s.place p set mayCreate id position swapPosition deleted)
      (Node.place set mayCreate id old position swapPosition deleted) := by
  have same : (s.live? p set id).bind Row.position = old.bind Node.position := by
    cases live : s.live? p set id with
    | none => rw [slot.eq_none live]; rfl
    | some row =>
        obtain ⟨n, rfl, data, -⟩ := slot.eq_some live
        exact data.position_eq.symm
  obtain ⟨made, number⟩ := h.ensure hp slot
  have ensured : Placed U s p set id ((s.ensure p set id).1, some (s.ensure p set id).2)
      (some (old.getD (.blank id))) := ⟨made, number.symm⟩
  rw [Store.place.eq_def, Node.place.eq_def]
  cases swapPosition with
  | some target =>
      dsimp only
      rw [show (s.live? p set id).bind (fun x => x.position) =
        old.bind (fun x => x.position) from
        same]
      split_ifs with differ gone below
      · exact rfl
      · cases live : s.live? p set id with
        | none => exact ⟨⟨h, .refl s, .refl s p set id, live⟩, by rw [live]; rfl⟩
        | some row => exact h.placed_bury live
      · exact rfl
      · exact h.placed_move hp slot target
  | none =>
      cases deleted with
      | none =>
          cases live : s.live? p set id with
          | none =>
              obtain rfl := slot.eq_none live
              dsimp only
              split
              · exact ensured
              · exact rfl
          | some row =>
              obtain ⟨n, rfl, data, inner⟩ := slot.eq_some live
              exact ⟨⟨h, .refl s, .refl s p set id, row, live, data, inner⟩, by rw [live]; rfl⟩
      | some gone =>
          cases gone with
          | false => exact ensured
          | true =>
              cases live : s.live? p set id with
              | none =>
                  obtain rfl := slot.eq_none live
                  exact rfl
              | some row =>
                  obtain ⟨n, rfl, -⟩ := slot.eq_some live
                  exact h.placed_bury live

end Place

end Store

end RecordSync
