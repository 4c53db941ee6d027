/-!
# Lists sorted by a key

Finite maps are kept as lists whose entries carry their own key and stand in increasing
order of it.  The operations take the function that reads the key of an entry.

**Results.**  `find?_insert` and `find?_erase` give the lookups after a change.
-/

namespace RecordSync
namespace SortedList

variable {α κ : Type} [DecidableEq κ]

def find? (key : α → κ) (k : κ) (entries : List α) : Option α :=
  entries.find? (fun x => key x = k)

def erase (key : α → κ) (k : κ) (entries : List α) : List α :=
  entries.filter (fun x => key x ≠ k)

def modify (key : α → κ) (k : κ) (change : α → α) (entries : List α) : List α :=
  entries.map (fun x => if key x = k then change x else x)

theorem find?_erase (key : α → κ) (k j : κ) (entries : List α) :
    find? key j (erase key k entries) = if j = k then none else find? key j entries := by
  unfold find? erase
  induction entries with
  | nil => simp
  | cons y rest ih =>
    by_cases hy : key y = k <;> by_cases hj : key y = j <;> by_cases hjk : j = k <;>
      simp_all

section Order

variable [LT κ] [DecidableLT κ]

/-- The entries stand in strictly increasing order of their keys. -/
def Sorted (key : α → κ) (entries : List α) : Prop :=
  entries.Pairwise (fun x y => key x < key y)

/-- Puts an entry in its place, in the stead of one with the same key. -/
def insert (key : α → κ) (x : α) : List α → List α
  | [] => [x]
  | y :: rest =>
      if key x < key y then x :: y :: rest
      else if key x = key y then x :: rest
      else y :: insert key x rest

/-- The sorted list of the given entries; of two with one key the later stays. -/
def ofList (key : α → κ) (entries : List α) : List α :=
  entries.foldl (fun acc x => insert key x acc) []

/-- Puts an entry before the first one with a key that is not smaller. -/
def insertOn [LE κ] [DecidableLE κ] (key : α → κ) (x : α) : List α → List α
  | [] => [x]
  | y :: rest => if key x ≤ key y then x :: y :: rest else y :: insertOn key x rest

/-- Sorts by a key; entries with one key stay in their order. -/
def sortOn [LE κ] [DecidableLE κ] (key : α → κ) (entries : List α) : List α :=
  entries.foldr (insertOn key) []

theorem find?_insert (key : α → κ) (x : α) (k : κ) (entries : List α) :
    find? key k (insert key x entries) = if key x = k then some x
      else find? key k entries := by
  unfold find?
  induction entries with
  | nil => by_cases hk : key x = k <;> simp [insert, hk]
  | cons y rest ih =>
    rw [insert]
    split
    · by_cases hk : key x = k <;> simp [hk]
    · split
      next same => by_cases hk : key x = k <;> simp [← same, hk]
      next differ =>
        by_cases hy : key y = k
        · have hk : key x ≠ k := fun e => differ (e.trans hy.symm)
          simp [hy, hk]
        · simp [hy, ih]

end Order

end SortedList
end RecordSync
