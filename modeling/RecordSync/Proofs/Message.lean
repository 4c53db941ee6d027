import RecordSync.Message
import RecordSync.Proofs.SortedList

/-!
# Groups of a message

A message is put together element by element.  Its groups stand in the order of their
names and none is empty, so it is decided by its own data and by what each group holds.

**Results.**
* `Message.foldl_withChild`: the groups after any number of elements were added.
* `Message.Grouped.ext`: two messages in this form are equal if they hold the same.
-/

namespace RecordSync

namespace Message

variable {m m' : Message} {set : String}

/-- The message of the element of an id in a set. -/
def child? (m : Message) (set : String) (id : Int) : Option Message :=
  SortedList.find? Message.id id (m.childrenOf set)

/-- The groups stand in the order of their names, and none is empty. -/
structure Grouped (m : Message) : Prop where
  sorted : SortedList.Sorted Group.name m.children
  nonempty : ∀ g ∈ m.children, g.members ≠ []

theorem childrenOf_eq (m : Message) (set : String) :
    m.childrenOf set =
      ((SortedList.find? Group.name set m.children).map Group.members).getD [] := by
  rw [childrenOf]
  cases SortedList.find? Group.name set m.children <;> rfl

theorem childrenOf_withChild (m : Message) (set : String) (child : Message)
    (set' : String) : (m.withChild set child).childrenOf set' =
      if set' = set then m.childrenOf set ++ [child] else m.childrenOf set' := by
  rw [childrenOf_eq, withChild, SortedList.find?_insert]
  by_cases h : set' = set
  · rw [if_pos h, if_pos h.symm]
    rfl
  · rw [if_neg h, if_neg (Ne.symm h), childrenOf_eq]

theorem Grouped.withChild (h : m.Grouped) (set : String) (child : Message) :
    (m.withChild set child).Grouped := by
  refine ⟨h.sorted.insert _, ?_⟩
  intro g hg
  rcases (SortedList.mem_insert h.sorted).mp hg with rfl | ⟨hg, -⟩
  · exact List.append_ne_nil_of_right_ne_nil _ (List.cons_ne_nil _ _)
  · exact h.nonempty g hg

/-- In a message in this form a group is found iff it holds something. -/
theorem Grouped.find?_eq (h : m.Grouped) (set : String) :
    SortedList.find? Group.name set m.children =
      if m.childrenOf set = [] then none else some ⟨set, m.childrenOf set⟩ := by
  rw [childrenOf_eq]
  cases found : SortedList.find? Group.name set m.children with
  | none => simp
  | some g =>
      have name : g.name = set := SortedList.key_of_find? found
      have full := h.nonempty g (SortedList.mem_of_find? found)
      obtain ⟨name', members⟩ := g
      obtain rfl := name
      exact (if_neg full).symm

/-- Two messages in this form are equal if they carry the same data and hold the same
elements. -/
theorem Grouped.ext (h : m.Grouped) (h' : m'.Grouped) (id : m.id = m'.id)
    (fields : m.fields = m'.fields) (position : m.position = m'.position)
    (swap : m.swapPosition = m'.swapPosition) (deleted : m.deleted = m'.deleted)
    (held : ∀ set, m.childrenOf set = m'.childrenOf set) : m = m' := by
  have children : m.children = m'.children := by
    apply SortedList.ext_find? h.sorted h'.sorted
    intro set
    rw [h.find?_eq, h'.find?_eq, held]
  cases m
  cases m'
  simp_all

/-- The message after elements were added: its own data stay, and each group has the
elements of its set at the end. -/
theorem foldl_withChild (h : m.Grouped) (l : List (String × Message)) :
    (l.foldl (fun m c => m.withChild c.1 c.2) m).Grouped ∧
      (l.foldl (fun m c => m.withChild c.1 c.2) m).id = m.id ∧
      (l.foldl (fun m c => m.withChild c.1 c.2) m).fields = m.fields ∧
      (l.foldl (fun m c => m.withChild c.1 c.2) m).position = m.position ∧
      (l.foldl (fun m c => m.withChild c.1 c.2) m).swapPosition = m.swapPosition ∧
      (l.foldl (fun m c => m.withChild c.1 c.2) m).deleted = m.deleted ∧
      ∀ set, (l.foldl (fun m c => m.withChild c.1 c.2) m).childrenOf set =
        m.childrenOf set ++ (l.filter (fun c => c.1 = set)).map Prod.snd := by
  induction l generalizing m with
  | nil => exact ⟨h, rfl, rfl, rfl, rfl, rfl, fun set => (List.append_nil _).symm⟩
  | cons c l ih =>
      obtain ⟨grouped, id, fields, position, swap, deleted, held⟩ :=
        ih (h.withChild c.1 c.2)
      refine ⟨grouped, id, fields, position, swap, deleted, ?_⟩
      intro set
      rw [List.foldl_cons, held, childrenOf_withChild]
      by_cases hc : c.1 = set
      · rw [List.filter_cons_of_pos (by simpa using hc), if_pos hc.symm, hc, List.append_assoc]
        rfl
      · rw [List.filter_cons_of_neg (by simpa using hc), if_neg (Ne.symm hc)]

/-- The order in which elements of different sets are added does not matter. -/
theorem foldl_withChild_congr (h : m.Grouped) {l l' : List (String × Message)}
    (same : ∀ set, l.filter (fun c => c.1 = set) = l'.filter (fun c => c.1 = set)) :
    l.foldl (fun m c => m.withChild c.1 c.2) m =
      l'.foldl (fun m c => m.withChild c.1 c.2) m := by
  obtain ⟨grouped, id, fields, position, swap, deleted, held⟩ := foldl_withChild h l
  obtain ⟨grouped', id', fields', position', swap', deleted', held'⟩ :=
    foldl_withChild h l'
  refine grouped.ext grouped' (id.trans id'.symm) (fields.trans fields'.symm)
    (position.trans position'.symm) (swap.trans swap'.symm) (deleted.trans deleted'.symm) ?_
  intro set
  rw [held, held', same]

end Message

end RecordSync
