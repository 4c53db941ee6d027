import Mathlib.Data.List.Nodup
import Mathlib.Data.List.Pairwise
import Mathlib.Data.String.Basic
import Mathlib.Order.RelClasses
import RecordSync.SortedList

/-!
# Lists sorted by a key

A list whose entries stand in strictly increasing order of their keys is a finite map.
The lemmas here say what each operation does to such a list: to its members, to its
lookups, to the number of entries with a property, and to whatever is read off it entry by
entry.

**Results.**
* `find?_eq_some_iff`: the lookup finds exactly the entry under a key.
* `ext_find?`: two sorted lists with the same lookups are equal.
* `insert_perm`: an entry that is put in takes the stead of the one with its key.
* `filterMap_insert`, `filterMap_erase`: what is read off a list does not change with an
  entry from which the same is read as before.
-/

namespace RecordSync
namespace SortedList

section Lookup

variable {α κ : Type} [DecidableEq κ] {key : α → κ} {k : κ} {x : α} {l : List α}

theorem mem_of_find? (h : find? key k l = some x) : x ∈ l :=
  List.mem_of_find?_eq_some h

theorem key_of_find? (h : find? key k l = some x) : key x = k := by
  simpa using List.find?_some h

theorem find?_eq_none_iff : find? key k l = none ↔ ∀ y ∈ l, key y ≠ k := by
  simp [find?]

theorem find?_cons (y : α) :
    find? key k (y :: l) = if key y = k then some y else find? key k l := by
  by_cases h : key y = k <;> simp [find?, h]

theorem find?_append (l l' : List α) :
    find? key k (l ++ l') = (find? key k l).or (find? key k l') :=
  List.find?_append

theorem find?_of_mem (hl : (l.map key).Nodup) (hx : x ∈ l) :
    find? key (key x) l = some x := by
  induction l with
  | nil => cases hx
  | cons y l ih =>
      rw [List.map_cons, List.nodup_cons] at hl
      rw [find?_cons]
      rcases List.mem_cons.mp hx with rfl | hx
      · simp
      · have differ : key y ≠ key x := fun e => hl.1 (e ▸ List.mem_map_of_mem hx)
        rw [if_neg differ]
        exact ih hl.2 hx

/-- The order of entries with distinct keys does not matter to a lookup. -/
theorem find?_perm {l' : List α} (perm : l.Perm l') (hl : (l.map key).Nodup) :
    find? key k l = find? key k l' := by
  have hl' : (l'.map key).Nodup := (perm.map key).nodup_iff.mp hl
  cases found : find? key k l with
  | none =>
      rw [eq_comm, find?_eq_none_iff]
      intro y hy
      exact find?_eq_none_iff.mp found y (perm.mem_iff.mpr hy)
  | some x =>
      rw [← key_of_find? found]
      exact (find?_of_mem hl' (perm.mem_iff.mp (mem_of_find? found))).symm

/-- A lookup by a key that is read through a map. -/
theorem find?_map_comp {β : Type} (f : β → α) (l : List β) :
    find? key k (l.map f) = (find? (fun x => key (f x)) k l).map f := by
  induction l with
  | nil => rfl
  | cons y l ih =>
      rw [List.map_cons, find?_cons, find?_cons, ih]
      split <;> rfl

theorem find?_map {f : α → α} (hf : ∀ y ∈ l, key (f y) = key y) :
    find? key k (l.map f) = (find? key k l).map f := by
  induction l with
  | nil => rfl
  | cons y l ih =>
      have ih := ih (fun z hz => hf z (List.mem_cons_of_mem y hz))
      have hy := hf y (by simp)
      rw [List.map_cons, find?_cons, find?_cons, hy, ih]
      split <;> rfl

theorem find?_modify {j : κ} {f : α → α} (hf : ∀ y, key y = j → key (f y) = j) :
    find? key k (modify key j f l) =
      (find? key k l).map (fun y => if key y = j then f y else y) := by
  apply find?_map
  intro y _
  split
  next e => rw [hf y e, e]
  next => rfl

theorem find?_modify_ne {j : κ} {f : α → α} (hf : ∀ y, key y = j → key (f y) = j)
    (h : k ≠ j) : find? key k (modify key j f l) = find? key k l := by
  rw [find?_modify hf]
  cases hk : find? key k l with
  | none => rfl
  | some y => simp [key_of_find? hk, h]

theorem map_key_modify {f : α → α} (hf : ∀ y, key y = k → key (f y) = key y) :
    (modify key k f l).map key = l.map key := by
  rw [modify, List.map_map]
  apply List.map_congr_left
  intro y _
  by_cases h : key y = k
  · simp [h, hf y h]
  · simp [h]

theorem eq_or_mem_of_mem_modify {y : α} (h : y ∈ modify key k (fun _ => x) l) :
    y = x ∨ y ∈ l := by
  obtain ⟨z, hz, rfl⟩ := List.mem_map.mp h
  split
  · exact .inl rfl
  · exact .inr hz

theorem modify_self (hl : (l.map key).Nodup) (h : find? key k l = some x) :
    modify key k (fun _ => x) l = l := by
  conv_rhs => rw [← List.map_id l]
  apply List.map_congr_left
  intro y hy
  by_cases e : key y = k
  · have : find? key (key y) l = some y := find?_of_mem hl hy
    rw [e, h] at this
    simp [e, Option.some.inj this]
  · simp [e]

/-- What is read off a list does not change when an entry is changed into one from which
the same is read. -/
theorem map_modify {β : Type} {f : α → β} {y : α} (hl : (l.map key).Nodup)
    (h : find? key k l = some x) (same : f y = f x) :
    (modify key k (fun _ => y) l).map f = l.map f := by
  rw [modify, List.map_map]
  apply List.map_congr_left
  intro z hz
  rw [Function.comp_apply]
  split
  next e =>
    have found : find? key (key z) l = some z := find?_of_mem hl hz
    rw [e, h] at found
    rw [same, Option.some.inj found]
  next => rfl

theorem countP_modify {y : α} (p : α → Bool) (hl : (l.map key).Nodup)
    (h : find? key k l = some x) :
    (modify key k (fun _ => y) l).countP p + (p x).toNat = l.countP p + (p y).toNat := by
  induction l with
  | nil => cases h
  | cons z l ih =>
      rw [List.map_cons, List.nodup_cons] at hl
      rw [find?_cons] at h
      rw [modify, List.map_cons, List.countP_cons, List.countP_cons]
      split at h
      next e =>
        obtain rfl := Option.some.inj h
        have others : modify key k (fun _ => y) l = l := by
          conv_rhs => rw [← List.map_id l]
          apply List.map_congr_left
          intro w hw
          have differ : key w ≠ k := fun ew => hl.1 (e ▸ ew ▸ List.mem_map_of_mem hw)
          exact if_neg differ
        rw [modify] at others
        rw [others, if_pos e]
        cases p y <;> cases p z <;> simp
      next e =>
        have ih := ih hl.2 h
        rw [modify] at ih
        rw [if_neg e]
        omega

theorem mem_erase {y : α} : y ∈ erase key k l ↔ y ∈ l ∧ key y ≠ k := by
  simp [erase]

/-- A key that is not there cannot be taken out. -/
theorem erase_of_find?_eq_none (h : find? key k l = none) : erase key k l = l :=
  List.filter_eq_self.mpr (fun y hy => by simpa using find?_eq_none_iff.mp h y hy)

omit [DecidableEq κ] in
/-- Entries that keep their keys, some of them left out, have distinct keys if all
have. -/
theorem nodup_filterMap {β : Type} {key' : β → κ} {f : α → Option β}
    (hl : (l.map key).Nodup) (hf : ∀ y ∈ l, ∀ z, f y = some z → key' z = key y) :
    ((l.filterMap f).map key').Nodup := by
  induction l with
  | nil => exact List.nodup_nil
  | cons y l ih =>
      rw [List.map_cons, List.nodup_cons] at hl
      have ih := ih hl.2 (fun z hz => hf z (List.mem_cons_of_mem y hz))
      cases h : f y with
      | none => rwa [List.filterMap_cons_none h]
      | some z =>
          rw [List.filterMap_cons_some h, List.map_cons, List.nodup_cons]
          refine ⟨?_, ih⟩
          intro hz
          obtain ⟨w, hw, e⟩ := List.mem_map.mp hz
          obtain ⟨v, hv, hvw⟩ := List.mem_filterMap.mp hw
          rw [hf v (List.mem_cons_of_mem y hv) w hvw, hf y (by simp) z h] at e
          exact hl.1 (e ▸ List.mem_map_of_mem hv)

omit [DecidableEq κ] in
/-- What is read off entries with distinct keys is distinct iff no two of them give the
same. -/
theorem nodup_filterMap_iff {β : Type} {f : α → Option β} (hl : (l.map key).Nodup) :
    (l.filterMap f).Nodup ↔
      ∀ x ∈ l, ∀ y ∈ l, ∀ z, f x = some z → f y = some z → key x = key y := by
  rw [List.Nodup, List.pairwise_filterMap]
  constructor
  · intro apart x hx y hy z hz hz'
    by_contra differ
    have symm : Std.Symm (fun x y => ∀ z, f x = some z → ∀ z', f y = some z' → z ≠ z') :=
      ⟨fun _ _ h z hz z' hz' e => h z' hz' z hz e.symm⟩
    exact apart.forall hx hy (fun e => differ (congrArg key e)) z hz z hz' rfl
  · intro same
    refine (List.pairwise_map.mp hl).imp_of_mem ?_
    rintro x y hx hy differ z hz _ hz' rfl
    exact differ (same x hx y hy z hz hz')

theorem find?_filter (hl : (l.map key).Nodup) (p : α → Bool) :
    find? key k (l.filter p) = (find? key k l).filter p := by
  induction l with
  | nil => rfl
  | cons y l ih =>
      rw [List.map_cons, List.nodup_cons] at hl
      have ih := ih hl.2
      rw [find?_cons]
      by_cases hp : p y = true
      · rw [List.filter_cons_of_pos hp, find?_cons]
        split
        · exact (if_pos hp).symm
        · exact ih
      · rw [List.filter_cons_of_neg hp, ih]
        split
        next e =>
          have none : find? key k l = none := by
            rw [find?_eq_none_iff]
            intro z hz ez
            exact hl.1 (e ▸ ez ▸ List.mem_map_of_mem hz)
          rw [none]
          exact (if_neg hp).symm
        next => rfl

/-- A lookup among what is read off entries under their own keys. -/
theorem find?_filterMap {β : Type} {key' : β → κ} {f : α → Option β}
    (hl : (l.map key).Nodup) (hf : ∀ y ∈ l, ∀ z, f y = some z → key' z = key y) :
    find? key' k (l.filterMap f) = (find? key k l).bind f := by
  induction l with
  | nil => rfl
  | cons y l ih =>
      rw [List.map_cons, List.nodup_cons] at hl
      have ih := ih hl.2 (fun z hz => hf z (List.mem_cons_of_mem y hz))
      have hy := hf y (by simp)
      have gone : key y = k → find? key k l = none := by
        intro e
        rw [find?_eq_none_iff]
        intro z hz ez
        exact hl.1 (e ▸ ez ▸ List.mem_map_of_mem hz)
      rw [find?_cons]
      cases h : f y with
      | none =>
          rw [List.filterMap_cons_none h, ih]
          split
          next e => simp [gone e, h]
          next => rfl
      | some z =>
          rw [List.filterMap_cons_some h, find?_cons, hy z h, ih]
          split
          · simp [h]
          · rfl

end Lookup

section OfList

variable {α κ : Type} [DecidableEq κ] [LT κ] [DecidableLT κ] {key : α → κ} {k : κ}
    {l : List α}

/-- Nothing but the entry that is put in is new, whether the list was sorted or not. -/
theorem mem_of_mem_insert {x y : α} (h : y ∈ insert key x l) : y = x ∨ y ∈ l := by
  induction l with
  | nil => exact .inl (List.mem_singleton.mp h)
  | cons z l ih =>
      rw [insert] at h
      split_ifs at h
      · exact List.mem_cons.mp h
      · exact (List.mem_cons.mp h).imp_right (List.mem_cons_of_mem z)
      · rcases List.mem_cons.mp h with rfl | h
        · exact .inr List.mem_cons_self
        · exact (ih h).imp_right (List.mem_cons_of_mem z)

/-- After entries were put in one by one, the last one of a key is found. -/
theorem find?_foldl_insert_reverse (l acc : List α) :
    find? key k (l.foldl (fun acc x => insert key x acc) acc) =
      (find? key k l.reverse).or (find? key k acc) := by
  induction l generalizing acc with
  | nil => rfl
  | cons y l ih =>
      rw [List.foldl_cons, ih, find?_insert, List.reverse_cons, find?_append, Option.or_assoc,
        find?_cons]
      split <;> rfl

theorem find?_foldl_insert (hl : (l.map key).Nodup) (acc : List α) :
    find? key k (l.foldl (fun acc x => insert key x acc) acc) =
      (find? key k l).or (find? key k acc) := by
  rw [find?_foldl_insert_reverse, ← find?_perm (List.reverse_perm l).symm hl]

theorem find?_ofList (hl : (l.map key).Nodup) :
    find? key k (ofList key l) = find? key k l := by
  rw [ofList, find?_foldl_insert hl]
  simp [find?]

theorem mem_of_mem_foldl_insert {x : α} {l acc : List α}
    (h : x ∈ l.foldl (fun acc x => insert key x acc) acc) : x ∈ l ∨ x ∈ acc := by
  induction l generalizing acc with
  | nil => exact .inr h
  | cons y l ih =>
      rcases ih h with h | h
      · exact .inl (List.mem_cons_of_mem y h)
      · rcases mem_of_mem_insert h with rfl | h
        · exact .inl List.mem_cons_self
        · exact .inr h

theorem mem_of_mem_ofList {x : α} (h : x ∈ ofList key l) : x ∈ l :=
  (mem_of_mem_foldl_insert h).resolve_right List.not_mem_nil

end OfList

section SortOn

variable {α κ : Type} [LE κ] [DecidableLE κ] {key : α → κ}

theorem insertOn_perm (x : α) (l : List α) : (insertOn key x l).Perm (x :: l) := by
  induction l with
  | nil => exact .refl _
  | cons y l ih =>
      rw [insertOn]
      split
      · exact .refl _
      · exact (ih.cons y).trans (.swap x y l)

theorem sortOn_perm (l : List α) : (sortOn key l).Perm l := by
  induction l with
  | nil => exact .refl _
  | cons x l ih => exact (insertOn_perm x (sortOn key l)).trans (ih.cons x)

/-- A list that is in order is sorted to itself. -/
theorem sortOn_of_pairwise {l : List α} (hl : l.Pairwise (fun y z => key y ≤ key z)) :
    sortOn key l = l := by
  induction l with
  | nil => rfl
  | cons x l ih =>
      obtain ⟨above, rest⟩ := List.pairwise_cons.mp hl
      show insertOn key x (sortOn key l) = x :: l
      rw [ih rest]
      cases l with
      | nil => rfl
      | cons y l => rw [insertOn, if_pos (above y List.mem_cons_self)]

/-- Sorting by a key that is read through a map is sorting before the map. -/
theorem sortOn_map {β : Type} (f : β → α) (l : List β) :
    sortOn key (l.map f) = (sortOn (fun x => key (f x)) l).map f := by
  have place : ∀ (x : β) (l : List β),
      insertOn key (f x) (l.map f) = (insertOn (fun x => key (f x)) x l).map f := by
    intro x l
    induction l with
    | nil => rfl
    | cons y l ih =>
        rw [List.map_cons, insertOn, insertOn]
        split
        · rfl
        · rw [List.map_cons, ih]
  induction l with
  | nil => rfl
  | cons x l ih =>
      calc sortOn key ((x :: l).map f) = insertOn key (f x) (sortOn key (l.map f)) := rfl
        _ = insertOn key (f x) ((sortOn (fun x => key (f x)) l).map f) := by rw [ih]
        _ = (sortOn (fun x => key (f x)) (x :: l)).map f := place x _

end SortOn

section Linear

variable {α κ : Type} [LinearOrder κ] {key : α → κ} {l l' : List α}

theorem pairwise_insertOn (x : α) (hl : l.Pairwise (fun y z => key y ≤ key z)) :
    (insertOn key x l).Pairwise (fun y z => key y ≤ key z) := by
  induction l with
  | nil => exact List.pairwise_singleton _ x
  | cons y l ih =>
      obtain ⟨above, rest⟩ := List.pairwise_cons.mp hl
      rw [insertOn]
      split
      next less =>
        refine List.pairwise_cons.mpr ⟨?_, hl⟩
        intro z hz
        rcases List.mem_cons.mp hz with rfl | hz
        · exact less
        · exact less.trans (above z hz)
      next more =>
        refine List.pairwise_cons.mpr ⟨?_, ih rest⟩
        intro z hz
        rcases List.mem_cons.mp ((insertOn_perm x l).mem_iff.mp hz) with rfl | hz
        · exact (not_le.mp more).le
        · exact above z hz

theorem pairwise_sortOn (l : List α) :
    (sortOn key l).Pairwise (fun y z => key y ≤ key z) := by
  induction l with
  | nil => exact List.Pairwise.nil
  | cons x l ih => exact pairwise_insertOn x ih

/-- Lists of the same entries, each with a key of its own, are sorted to the same list. -/
theorem sortOn_eq_of_perm (perm : l.Perm l')
    (own : ∀ x ∈ l, ∀ y ∈ l, key x = key y → x = y) : sortOn key l = sortOn key l' := by
  refine List.Perm.eq_of_pairwise ?_ (pairwise_sortOn l) (pairwise_sortOn l')
    ((sortOn_perm l).trans (perm.trans (sortOn_perm l').symm))
  intro x y hx hy less more
  exact own x ((sortOn_perm l).mem_iff.mp hx) y
    (perm.mem_iff.mpr ((sortOn_perm l').mem_iff.mp hy)) (le_antisymm less more)

theorem filter_insertOn (p : α → Bool) (x : α)
    (hl : l.Pairwise (fun y z => key y ≤ key z)) : (insertOn key x l).filter p =
      if p x then insertOn key x (l.filter p) else l.filter p := by
  induction l with
  | nil => by_cases hx : p x = true <;> simp [insertOn, hx]
  | cons y l ih =>
      obtain ⟨above, rest⟩ := List.pairwise_cons.mp hl
      rw [insertOn]
      by_cases less : key x ≤ key y
      · rw [if_pos less]
        by_cases hx : p x = true
        · rw [List.filter_cons_of_pos hx, if_pos hx]
          -- The entry stays in front, for all that is left of the list is at least as
          -- large.
          cases left : (y :: l).filter p with
          | nil => rfl
          | cons z left' =>
              have hz : z ∈ y :: l := (List.mem_filter.mp (left ▸ List.mem_cons_self)).1
              have : key x ≤ key z := by
                rcases List.mem_cons.mp hz with rfl | hz
                · exact less
                · exact less.trans (above z hz)
              rw [insertOn, if_pos this]
        · rw [List.filter_cons_of_neg hx, if_neg hx]
      · rw [if_neg less]
        by_cases hy : p y = true
        · rw [List.filter_cons_of_pos hy, List.filter_cons_of_pos hy, ih rest]
          split
          · rw [insertOn, if_neg less]
          · rfl
        · rw [List.filter_cons_of_neg hy, List.filter_cons_of_neg hy, ih rest]

/-- Leaving out entries and sorting come to the same in either order. -/
theorem filter_sortOn (p : α → Bool) (l : List α) :
    (sortOn key l).filter p = sortOn key (l.filter p) := by
  induction l with
  | nil => rfl
  | cons x l ih =>
      have step : (sortOn key (x :: l)).filter p =
          if p x then insertOn key x ((sortOn key l).filter p)
          else (sortOn key l).filter p :=
        filter_insertOn p x (pairwise_sortOn l)
      rw [step, ih]
      by_cases hx : p x = true
      · rw [if_pos hx, List.filter_cons_of_pos hx]
        rfl
      · rw [if_neg hx, List.filter_cons_of_neg hx]

end Linear

section Strict

variable {α κ : Type} [LT κ] {key : α → κ} {l : List α}

theorem Sorted.erase [DecidableEq κ] (hl : Sorted key l) (k : κ) :
    Sorted key (erase key k l) :=
  hl.filter _

/-- Entries that keep their keys, some of them left out, stay sorted. -/
theorem Sorted.filterMap {β : Type} {key' : β → κ} {f : α → Option β} (hl : Sorted key l)
    (hf : ∀ y ∈ l, ∀ z, f y = some z → key' z = key y) : Sorted key' (l.filterMap f) := by
  induction l with
  | nil => exact List.Pairwise.nil
  | cons y l ih =>
      obtain ⟨above, hl⟩ := List.pairwise_cons.mp hl
      have ih := ih hl (fun z hz => hf z (List.mem_cons_of_mem y hz))
      cases h : f y with
      | none => rwa [List.filterMap_cons_none h]
      | some z =>
          rw [List.filterMap_cons_some h]
          refine List.pairwise_cons.mpr ⟨?_, ih⟩
          intro w hw
          obtain ⟨v, hv, hvw⟩ := List.mem_filterMap.mp hw
          rw [hf y (by simp) z h, hf v (List.mem_cons_of_mem y hv) w hvw]
          exact above v hv

theorem Sorted.map {β : Type} {key' : β → κ} {f : α → β} (hl : Sorted key l)
    (hf : ∀ y ∈ l, key' (f y) = key y) : Sorted key' (l.map f) := by
  rw [Sorted, List.pairwise_map]
  refine hl.imp_of_mem ?_
  intro y z hy hz h
  rwa [hf y hy, hf z hz]

theorem Sorted.nodup_keys [IsStrictTotalOrder κ (· < ·)] (hl : Sorted key l) :
    (l.map key).Nodup := by
  rw [List.Nodup, List.pairwise_map]
  refine hl.imp ?_
  intro a b less e
  exact irrefl_of (· < ·) (key b) (e ▸ less)

end Strict

section Order

variable {α κ : Type} [DecidableEq κ] [LT κ] [IsStrictTotalOrder κ (· < ·)]
variable {key : α → κ} {k : κ} {x y : α} {l l' : List α}

theorem Sorted.eq_of_key (hl : Sorted key l) (hx : x ∈ l) (hy : y ∈ l)
    (h : key x = key y) : x = y := by
  have found := find?_of_mem hl.nodup_keys hx
  rw [h, find?_of_mem hl.nodup_keys hy] at found
  exact (Option.some.inj found).symm

/-- The lookup finds exactly the entry under a key. -/
theorem find?_eq_some_iff (hl : Sorted key l) :
    find? key k l = some x ↔ x ∈ l ∧ key x = k := by
  constructor
  · intro h
    exact ⟨mem_of_find? h, key_of_find? h⟩
  · rintro ⟨hx, rfl⟩
    exact find?_of_mem hl.nodup_keys hx

theorem Sorted.find?_tail (h : Sorted key (y :: l)) : find? key (key y) l = none := by
  rw [find?_eq_none_iff]
  intro z hz e
  have less := (List.pairwise_cons.mp h).1 z hz
  rw [e] at less
  exact irrefl_of (· < ·) (key y) less

theorem ext_find? (hl : Sorted key l) (hl' : Sorted key l')
    (h : ∀ k, find? key k l = find? key k l') : l = l' := by
  have same : ∀ y, y ∈ l ↔ y ∈ l' := by
    intro y
    have hy := find?_eq_some_iff (k := key y) (x := y) hl
    have hy' := find?_eq_some_iff (k := key y) (x := y) hl'
    rw [h] at hy
    simpa using hy.symm.trans hy'
  have perm : l.Perm l' :=
    (List.perm_ext_iff_of_nodup (.of_map key hl.nodup_keys)
      (.of_map key hl'.nodup_keys)).mpr same
  exact perm.eq_of_pairwise
    (fun a b _ _ hab hba => absurd hab (asymm_of (· < ·) hba)) hl hl'

theorem countP_erase (p : α → Bool) (hl : Sorted key l) :
    (SortedList.erase key k l).countP p + ((find? key k l).any p).toNat = l.countP p := by
  rw [SortedList.erase]
  induction l with
  | nil => rfl
  | cons y l ih =>
      have ih := ih (List.pairwise_cons.mp hl).2
      rw [find?_cons]
      by_cases e : key y = k
      · subst e
        rw [hl.find?_tail] at ih
        cases hp : p y <;> simp_all
      · cases hp : p y
        · simp_all
        · simp_all
          omega

/-- What is read off a list does not change when an entry from which nothing is read is
dropped. -/
theorem filterMap_erase {β : Type} {f : α → Option β} (hl : Sorted key l)
    (h : (find? key k l).bind f = none) :
    (SortedList.erase key k l).filterMap f = l.filterMap f := by
  rw [SortedList.erase, List.filterMap_filter]
  apply List.filterMap_congr
  intro y hy
  by_cases e : key y = k
  · have : find? key k l = some y := (find?_eq_some_iff hl).mpr ⟨hy, e⟩
    rw [this] at h
    simpa [e] using h.symm
  · simp [e]

end Order

section Insert

variable {α κ : Type} [DecidableEq κ] [LT κ] [DecidableLT κ] [IsStrictTotalOrder κ (· < ·)]
variable {key : α → κ} {k : κ} {x y : α} {l : List α}

/-- An entry that is put in takes the stead of the one with its key. -/
theorem insert_perm (key : α → κ) (x : α) (hl : Sorted key l) :
    (insert key x l).Perm (x :: erase key (key x) l) := by
  induction l with
  | nil => exact .refl _
  | cons y l ih =>
      obtain ⟨above, hl⟩ := List.pairwise_cons.mp hl
      have kept : key x < key y ∨ key x = key y → erase key (key x) l = l := by
        intro h
        apply List.filter_eq_self.mpr
        intro z hz
        have yz := above z hz
        have xz : key x < key z :=
          h.elim (fun h => trans_of (· < ·) h yz) (fun h => h ▸ yz)
        simpa using fun e : key z = key x => irrefl_of (· < ·) _ (e ▸ xz)
      rw [insert]
      split
      next less =>
        have differ : key y ≠ key x := fun e => irrefl_of (· < ·) _ (e ▸ less)
        have : erase key (key x) (y :: l) = y :: l := by
          rw [erase, List.filter_cons_of_pos (by simpa using differ)]
          exact congrArg _ (kept (.inl less))
        rw [this]
      next notLess =>
        split
        next same =>
          have : erase key (key x) (y :: l) = l := by
            rw [erase, List.filter_cons_of_neg (by simp [same])]
            exact kept (.inr same)
          rw [this]
        next differ =>
          have : erase key (key x) (y :: l) = y :: erase key (key x) l :=
            List.filter_cons_of_pos (by simpa using fun e : key y = key x => differ e.symm)
          rw [this]
          exact ((ih hl).cons y).trans (.swap x y _)

theorem mem_insert (hl : Sorted key l) :
    y ∈ insert key x l ↔ y = x ∨ (y ∈ l ∧ key y ≠ key x) := by
  rw [(insert_perm key x hl).mem_iff]
  simp [erase]

theorem Sorted.insert (hl : Sorted key l) (x : α) : Sorted key (insert key x l) := by
  induction l with
  | nil => exact List.pairwise_singleton _ x
  | cons y l ih =>
      obtain ⟨above, hl⟩ := List.pairwise_cons.mp hl
      rw [SortedList.insert]
      split
      next less =>
        refine List.pairwise_cons.mpr ⟨?_, List.pairwise_cons.mpr ⟨above, hl⟩⟩
        intro z hz
        rcases List.mem_cons.mp hz with rfl | hz
        · exact less
        · exact trans_of (· < ·) less (above z hz)
      next notLess =>
        split
        next same => exact List.pairwise_cons.mpr ⟨fun z hz => same ▸ above z hz, hl⟩
        next differ =>
          have more : key y < key x :=
            ((trichotomous_of (· < ·) (key x) (key y)).resolve_left notLess).resolve_left
              differ
          refine List.pairwise_cons.mpr ⟨?_, ih hl⟩
          intro z hz
          rcases (mem_insert hl).mp hz with rfl | hz
          · exact more
          · exact above z hz.1

/-- An entry with the largest key goes to the end. -/
theorem insert_eq_append (h : ∀ y ∈ l, key y < key x) :
    SortedList.insert key x l = l ++ [x] := by
  induction l with
  | nil => rfl
  | cons y l ih =>
      obtain ⟨first, rest⟩ := List.forall_mem_cons.mp h
      rw [SortedList.insert, if_neg (asymm_of (· < ·) first),
        if_neg (fun e => irrefl_of (· < ·) _ (e ▸ first)), ih rest, List.cons_append]

theorem insert_self (hl : Sorted key l) (h : find? key (key x) l = some x) :
    SortedList.insert key x l = l := by
  apply ext_find? (hl.insert x) hl
  intro k
  rw [find?_insert]
  split
  next e => rw [← h, e]
  next => rfl

theorem insert_eq_map (hl : Sorted key l) (h : find? key (key x) l = some y) :
    SortedList.insert key x l = l.map (fun z => if key z = key x then x else z) := by
  have keeps : ∀ z ∈ l, key (if key z = key x then x else z) = key z := by
    intro z _
    split
    · exact Eq.symm ‹_›
    · rfl
  apply ext_find? (hl.insert x) (hl.map keeps)
  intro k
  rw [find?_insert, find?_map keeps]
  by_cases e : key x = k
  · subst e
    simp [h, key_of_find? h]
  · rw [if_neg e]
    cases hz : find? key k l with
    | none => rfl
    | some z => simp [key_of_find? hz, Ne.symm e]

/-- What is read off a list does not change with an entry from which the same is read as
from the one in whose stead it stands. -/
theorem filterMap_insert {β : Type} {f : α → Option β} (hl : Sorted key l)
    (h : f x = (find? key (key x) l).bind f) :
    (SortedList.insert key x l).filterMap f = l.filterMap f := by
  induction l with
  | nil =>
      have h : f x = none := h
      rw [SortedList.insert, List.filterMap_cons_none h]
  | cons y l ih =>
      obtain ⟨above, hl⟩ := List.pairwise_cons.mp hl
      rw [find?_cons] at h
      rw [SortedList.insert]
      split
      next less =>
        have none : find? key (key x) l = none := by
          rw [find?_eq_none_iff]
          intro z hz e
          exact asymm_of (· < ·) less (e ▸ above z hz)
        have differ : key y ≠ key x := fun e => irrefl_of (· < ·) _ (e ▸ less)
        rw [if_neg differ, none] at h
        exact List.filterMap_cons_none h
      next =>
        split
        next same =>
          rw [if_pos same.symm] at h
          simp only [List.filterMap_cons, h, Option.bind_some]
        next differ =>
          rw [if_neg (Ne.symm differ)] at h
          simp only [List.filterMap_cons, ih hl h]

theorem countP_insert (p : α → Bool) (hl : Sorted key l) :
    (SortedList.insert key x l).countP p + ((find? key (key x) l).any p).toNat =
      l.countP p + (p x).toNat := by
  rw [(insert_perm key x hl).countP_eq, List.countP_cons]
  have gone := countP_erase (k := key x) p hl
  cases hp : p x <;> simp <;> omega

theorem sorted_foldl_insert {acc : List α} (h : Sorted key acc) (l : List α) :
    Sorted key (l.foldl (fun acc x => SortedList.insert key x acc) acc) := by
  induction l generalizing acc with
  | nil => exact h
  | cons x l ih => exact ih (h.insert x)

theorem sorted_ofList (l : List α) : Sorted key (ofList key l) :=
  sorted_foldl_insert List.Pairwise.nil l

end Insert

end SortedList
end RecordSync
