import RecordSync.Proofs.Store.Table

/-!
# Changes of the table

What each operation of the store does to the table: the lookups afterwards, and that the
table stays in shape.  All that is written about a record is written into its row; only
the making of a row and the revival of a tombstone touch others.

**Strings of bytes.**  A string of bytes is found under its digest as long as no two of
the strings that are ever stored share one; `Store.Sound` takes these to be in a class on
which the digest is injective.

**Results.**
* `Store.Sound.keep`: a string of bytes that is kept is found again.
* `Store.Tabled.find?_updateRow`, `Store.find?_create`, `Store.Tabled.find?_revive`: the
  rows after a change.
* `Store.Tabled.update`, `Store.Tabled.create`, `Store.Tabled.revive`: the table stays in
  shape.
-/

namespace RecordSync

namespace Store

variable {U : Set Bytes} {s : Store} {p : Nat} {set : String} {id : Int} {row : Row}

/-- The table is in shape, and what is stored under a digest has that digest; all strings
of bytes are of a class on which the digest is injective. -/
structure Sound (U : Set Bytes) (s : Store) : Prop where
  tabled : s.Tabled
  named : Set.InjOn s.digest U
  entries : ∀ e ∈ s.contents, e.1 = s.digest e.2 ∧ e.2 ∈ U

theorem Sound.empty {digest : Bytes → Bytes} (named : Set.InjOn digest U) :
    (Store.empty digest).Sound U :=
  ⟨⟨List.nodup_nil, List.nodup_nil, nofun, nofun⟩, named, nofun⟩

section Keep

/-- A string of bytes that is kept is found again, and nothing else changes. -/
theorem Sound.keep (h : s.Sound U) {b : Bytes} (hb : b ∈ U) :
    (s.keep b).Sound U ∧ (s.keep b).rows = s.rows ∧ (s.keep b).digest = s.digest ∧
      s.Grows (s.keep b) ∧ (s.keep b).bytes? (s.digest b) = some b := by
  rw [Store.keep]
  split
  next there =>
    obtain ⟨c, found⟩ := Option.isSome_iff_exists.mp there
    refine ⟨h, rfl, rfl, .refl s, ?_⟩
    rw [bytes?, Option.map_eq_some_iff] at found
    obtain ⟨e, found, rfl⟩ := found
    obtain ⟨named, known⟩ := h.entries e (List.mem_of_find?_eq_some found)
    have same : e.1 = s.digest b := by simpa using List.find?_some found
    have : e.2 = b := h.named known hb (named.symm.trans same)
    rw [bytes?, found, Option.map_some, this]
  next gone =>
    have missing : s.contents.find? (fun e => e.1 = s.digest b) = none := by
      rw [bytes?, Option.isSome_map, Bool.not_eq_true, Option.isSome_eq_false_iff,
        Option.isNone_iff_eq_none] at gone
      exact gone
    have tabled := h.tabled
    refine ⟨⟨⟨tabled.numbers, tabled.keys, tabled.bound, tabled.buried⟩, h.named, ?_⟩,
      rfl, rfl, ⟨rfl, le_rfl, ?_, ?_⟩, ?_⟩
    · intro e he
      rcases List.mem_append.mp he with he | he
      · exact h.entries e he
      · obtain rfl := List.mem_singleton.mp he
        exact ⟨rfl, hb⟩
    · exact fun _ _ _ row found => ⟨row, found, rfl⟩
    · intro d c found
      obtain ⟨e, found', rfl⟩ := Option.map_eq_some_iff.mp found
      rw [bytes?, List.find?_append, found']
      rfl
    · rw [bytes?, List.find?_append, missing]
      simp

end Keep

section Update

/-- A change of rows that keeps their numbers and addresses. -/
def Amends (change : Row → Row) : Prop :=
  ∀ row, (change row).number = row.number ∧ (change row).key = row.key

variable {select : Row → Bool} {change : Row → Row}

theorem find?_update (amends : Amends change) :
    (s.update select change).find? p set id =
      (s.find? p set id).map (fun row => if select row then change row else row) := by
  rw [find?_eq, find?_eq, update]
  apply SortedList.find?_map
  intro row _
  split
  · exact (amends row).2
  · rfl

/-- A change of rows that keeps their numbers and addresses, and leaves no position to a
tombstone, keeps the table in shape. -/
theorem Tabled.update (h : s.Tabled) (amends : Amends change)
    (buried : ∀ row ∈ s.rows, select row = true → (change row).deleted = true →
      (change row).position = none) :
    (s.update select change).Tabled := by
  have change' : ∀ row, (if select row then change row else row).number = row.number ∧
      (if select row then change row else row).key = row.key := by
    intro row
    split
    · exact amends row
    · exact ⟨rfl, rfl⟩
  refine ⟨?_, ?_, ?_, ?_⟩
  · have same : (s.update select change).rows.map Row.number = s.rows.map Row.number := by
      rw [Store.update, List.map_map]
      exact List.map_congr_left (fun row _ => (change' row).1)
    rw [same]
    exact h.numbers
  · have same : (s.update select change).rows.map Row.key = s.rows.map Row.key := by
      rw [Store.update, List.map_map]
      exact List.map_congr_left (fun row _ => (change' row).2)
    rw [same]
    exact h.keys
  · intro row' hr'
    obtain ⟨row, hr, rfl⟩ := List.mem_map.mp hr'
    obtain ⟨number, key⟩ := change' row
    rw [number, show (if select row then change row else row).parent = row.parent from
      (Prod.mk.inj key).1]
    exact ⟨(h.bound row hr).1, (h.bound row hr).2.trans_eq
      (List.length_map _).symm⟩
  · intro row' hr'
    obtain ⟨row, hr, rfl⟩ := List.mem_map.mp hr'
    split
    next chosen => exact buried row hr chosen
    next => exact h.buried row hr

theorem Sound.update (h : s.Sound U) (amends : Amends change)
    (buried : ∀ row ∈ s.rows, select row = true → (change row).deleted = true →
      (change row).position = none) :
    (s.update select change).Sound U :=
  ⟨h.tabled.update amends buried, h.named, h.entries⟩

theorem Grows.update (amends : Amends change) : s.Grows (s.update select change) where
  digest_eq := rfl
  length_le := (List.length_map _).ge
  rows := by
    intro p set id row found
    refine ⟨if select row then change row else row, ?_, ?_⟩
    · rw [find?_update amends, found]
      rfl
    · split
      · exact (amends row).1
      · rfl
  bytes := fun _ _ kept => kept

/-- A change of one row is seen at its address only. -/
theorem Tabled.find?_updateRow (h : s.Tabled) (found : s.find? p set id = some row)
    (amends : Amends change) (p' : Nat) (set' : String) (id' : Int) :
    (s.updateRow row.number change).find? p' set' id' =
      if p' = p ∧ set' = set ∧ id' = id then some (change row)
        else s.find? p' set' id' := by
  rw [updateRow, find?_update amends]
  split
  next same =>
    obtain ⟨rfl, rfl, rfl⟩ := same
    rw [found, Option.map_some, beq_self_eq_true, if_pos rfl]
  next other =>
    cases found' : s.find? p' set' id' with
    | none => rfl
    | some row' =>
        obtain ⟨mem, rfl, rfl, rfl⟩ := key_of_find? found
        obtain ⟨mem', rfl, rfl, rfl⟩ := key_of_find? found'
        have differ : row'.number ≠ row.number := by
          intro e
          obtain rfl := h.eq_of_number mem' mem e
          exact other ⟨rfl, rfl, rfl⟩
        rw [Option.map_some, if_neg (by simpa using differ)]

end Update

section Create

theorem find?_create (gone : s.find? p set id = none) (p' : Nat) (set' : String)
    (id' : Int) : (s.create p set id).1.find? p' set' id' =
      if p' = p ∧ set' = set ∧ id' = id then
        some ⟨s.rows.length + 1, p, set, id, none, false, []⟩
      else s.find? p' set' id' := by
  have append : (s.create p set id).1.find? p' set' id' =
      (s.find? p' set' id').or
        ([(⟨s.rows.length + 1, p, set, id, none, false, []⟩ : Row)].find?
          (fun row => row.parent = p' ∧ row.set = set' ∧ row.id = id')) :=
    List.find?_append
  rw [append]
  split
  next same =>
    obtain ⟨rfl, rfl, rfl⟩ := same
    rw [gone]
    simp
  next other =>
    have : ¬ (p = p' ∧ set = set' ∧ id = id') := by
      rintro ⟨rfl, rfl, rfl⟩
      exact other ⟨rfl, rfl, rfl⟩
    simp [this]

theorem Tabled.create (h : s.Tabled) (hp : p ≤ s.rows.length)
    (gone : s.find? p set id = none) : (s.create p set id).1.Tabled := by
  have length : (s.create p set id).1.rows.length = s.rows.length + 1 :=
    List.length_append
  refine ⟨?_, ?_, ?_, ?_⟩
  · show ((s.rows ++ [_]).map Row.number).Nodup
    rw [List.map_append, List.nodup_append]
    refine ⟨h.numbers, List.nodup_singleton _, ?_⟩
    intro n hn n' hn' e
    obtain ⟨row, hr, rfl⟩ := List.mem_map.mp hn
    obtain rfl := List.mem_singleton.mp hn'
    have le := (h.bound row hr).2
    rw [e] at le
    exact absurd le (Nat.not_succ_le_self _)
  · show ((s.rows ++ [_]).map Row.key).Nodup
    rw [List.map_append, List.nodup_append]
    refine ⟨h.keys, List.nodup_singleton _, ?_⟩
    intro k hk k' hk' e
    obtain ⟨row, hr, rfl⟩ := List.mem_map.mp hk
    obtain rfl := List.mem_singleton.mp hk'
    rw [find?_eq, SortedList.find?_eq_none_iff] at gone
    exact gone row hr e
  · intro row hr
    rw [length]
    rcases List.mem_append.mp hr with hr | hr
    · exact ⟨(h.bound row hr).1, (h.bound row hr).2.trans (Nat.le_succ _)⟩
    · obtain rfl := List.mem_singleton.mp hr
      exact ⟨Nat.lt_succ_of_le hp, le_rfl⟩
  · intro row hr
    rcases List.mem_append.mp hr with hr | hr
    · exact h.buried row hr
    · obtain rfl := List.mem_singleton.mp hr
      exact fun _ => rfl

theorem Sound.create (h : s.Sound U) (hp : p ≤ s.rows.length)
    (gone : s.find? p set id = none) : (s.create p set id).1.Sound U :=
  ⟨h.tabled.create hp gone, h.named, h.entries⟩

theorem Grows.create (gone : s.find? p set id = none) :
    s.Grows (s.create p set id).1 where
  digest_eq := rfl
  length_le := by
    show s.rows.length ≤ (s.rows ++ [_]).length
    rw [List.length_append]
    exact Nat.le_add_right _ _
  rows := by
    intro p' set' id' row found
    refine ⟨row, ?_, rfl⟩
    rw [find?_create gone, if_neg, found]
    rintro ⟨rfl, rfl, rfl⟩
    rw [gone] at found
    cases found
  bytes := fun _ _ kept => kept

end Create

section Revive

theorem amends_bury : Amends bury := fun _ => ⟨rfl, rfl⟩

theorem amends_fields : Amends (fun row => { row with deleted := false, fields := [] }) :=
  fun _ => ⟨rfl, rfl⟩

theorem Tabled.revive (h : s.Tabled) (number : Nat) : (s.revive number).Tabled :=
  (h.update amends_fields (fun _ _ _ => nofun)).update amends_bury (fun _ _ _ _ => rfl)

theorem Sound.revive (h : s.Sound U) (number : Nat) : (s.revive number).Sound U :=
  ⟨h.tabled.revive number, h.named, h.entries⟩

theorem Grows.revive (number : Nat) : s.Grows (s.revive number) :=
  (Grows.update amends_fields).trans (Grows.update amends_bury)

/-- A tombstone that comes back has no fields, and nothing live below it. -/
theorem Tabled.find?_revive (h : s.Tabled)
    (found : s.find? p set id = some row) (p' : Nat) (set' : String) (id' : Int) :
    (s.revive row.number).find? p' set' id' =
      if p' = p ∧ set' = set ∧ id' = id then some { row with deleted := false, fields := [] }
      else if p' = row.number then (s.find? p' set' id').map bury
      else s.find? p' set' id' := by
  rw [Store.revive, find?_update amends_bury, h.find?_updateRow found amends_fields]
  split
  next same =>
    obtain ⟨rfl, rfl, rfl⟩ := same
    obtain ⟨mem, rfl, -⟩ := key_of_find? found
    have : row.parent ≠ row.number := (h.bound row mem).1.ne
    rw [Option.map_some, if_neg (by simpa using this)]
  next =>
    split
    next below =>
      refine Option.map_congr ?_
      intro row' found'
      obtain ⟨-, parent, -⟩ := key_of_find? found'
      rw [if_pos (by simpa using parent.trans below)]
    next beside =>
      cases found' : s.find? p' set' id' with
      | none => rfl
      | some row' =>
          obtain ⟨-, parent, -⟩ := key_of_find? found'
          rw [Option.map_some, if_neg (by simpa [parent] using beside)]

end Revive

end Store

end RecordSync
