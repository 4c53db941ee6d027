import RecordSync.Proofs.Record.Clear
import RecordSync.Proofs.Record.Commits
import RecordSync.Proofs.Record.Reloading

/-!
# Patch and delta match

What a record has to tell leaves it twice: as a patch, which the server is to apply, and
as a delta, which is kept and moves the baseline when the server has done so.  Each is
read off the record by a walk of its own.  If they drifted apart, the baseline would not
be what the server holds.

**Matching.**  `Record.Matches` says of a message and a delta that they name the same
changes of a record at every depth.  An element that both name is looked up in the record,
since the message says of a moved element also where the baseline has it, which the delta
does not.

**Results.**
* `Record.Keyed.field?_patch`, `Record.Keyed.ids_patch`: the two name the same fields and
  elements.
* `Element.presence_of_told`: what they say of the presence of an element.
* `Record.Handled.patch_matches_delta`: they match, whatever was done with the record.
-/

namespace RecordSync

variable {τ : Type}

section Definition

/-- A message and the change of an element say the same of its presence; the message gives
the position of the baseline iff it gives a new one. -/
structure Element.Presence (e : Element τ) (c : Message) (y : ElementDelta) : Prop where
  swapPosition : c.swapPosition = y.position
  position : c.position = c.swapPosition.map (fun _ => e.position.remote)
  deleted : c.deleted = y.deleted

/-- A message and a delta both name an element that a record holds: the message by the
message of the element, the delta by its change. -/
structure Record.BothName (r : Record τ) (m : Message) (d : Delta) (s : ElementSet τ)
    (e : Element τ) (c : Message) (y : ElementDelta) : Prop where
  set : s ∈ r.sets
  element : e ∈ s.elements
  message : c ∈ m.childrenOf s.name
  message_id : c.id = e.id
  change : d.change? s.name e.id = some y

/-- A message and a delta name the same changes of a record: the same fields with the same
values, of the same sets the same elements in the order of their ids, each with its
presence and, if the user sees it, with the same changes of its own record, and else with
none. -/
inductive Record.Matches : Record τ → Message → Delta → Prop
  | intro {r : Record τ} {m : Message} {d : Delta} :
      m.id = r.id →
      ((m.fields.map Prod.fst).Nodup ∧ (m.children.map Group.name).Nodup ∧
        (d.fields.map Prod.fst).Nodup ∧ (d.sets.map SetDelta.name).Nodup) →
      (∀ field, m.field? field = d.field? field) →
      (∀ set, (SortedList.find? Group.name set m.children).map (·.members.map Message.id) =
        (d.set? set).map (·.elements.map ElementDelta.id)) →
      (∀ x ∈ d.sets, SortedList.Sorted ElementDelta.id x.elements ∧
        ∃ s ∈ r.sets, s.name = x.name ∧ ∀ y ∈ x.elements, ∃ e ∈ s.elements, e.id = y.id) →
      (∀ s e c y, r.BothName m d s e c y → e.Presence c y) →
      (∀ s e c y, r.BothName m d s e c y → e.isPresent s.decl.kind = true →
        Matches e.record c y.record) →
      (∀ s e c y, r.BothName m d s e c y → e.isPresent s.decl.kind = false →
        c.fields = [] ∧ c.children = [] ∧ y.record = .empty) →
      Matches r m d

/-- The presence that a message gives for its own record does not matter. -/
theorem Record.Matches.withPresence {r : Record τ} {m : Message} {d : Delta}
    (h : r.Matches m d) (position : Tracked Int) (deleted : Tracked Bool) :
    r.Matches (m.withPresence position deleted) d := by
  obtain ⟨id, once, fields, sets, named, presence, present, absent⟩ := h
  have both : ∀ s e c y, r.BothName (m.withPresence position deleted) d s e c y →
      r.BothName m d s e c y :=
        fun _ _ _ _ b => ⟨b.set, b.element, b.message, b.message_id, b.change⟩
  exact .intro id once fields sets named (fun s e c y b => presence s e c y (both s e c y b))
    (fun s e c y b => present s e c y (both s e c y b))
    (fun s e c y b => absent s e c y (both s e c y b))

end Definition

section Elements

variable {kind : SetKind} {e : Element τ} {c : Message} {y : ElementDelta}

theorem Element.delta?_eq_some :
    e.delta? kind = some y ↔ e.isDirty kind = true ∧
      y = ⟨e.id, if e.isPresent kind then e.record.delta else .empty, e.position.delta?,
        e.deleted.delta?⟩ := by
  rw [Element.delta?, Option.ite_none_right_eq_some, Option.some.injEq, eq_comm (a := y)]

theorem Element.id_of_delta? (e : Element τ) (y : ElementDelta)
    (h : e.delta? kind = some y) : y.id = e.id := by
  obtain ⟨-, rfl⟩ := Element.delta?_eq_some.mp h
  rfl

/-- An element has a message iff it has a change, and both are of its id. -/
theorem Element.map_id_patch? (kind : SetKind) (e : Element τ) :
    (e.patch? kind).map Message.id = (e.delta? kind).map ElementDelta.id := by
  rw [Element.patch?, Element.delta?]
  split_ifs
  · simp only [Option.map_some, Message.withPresence, Record.patch_eq, Element.id]
  · rfl
  · rfl

/-- What an element tells of its presence. -/
theorem Element.presence_of_told (hc : e.patch? kind = some c)
    (hy : e.delta? kind = some y) : e.Presence c y := by
  obtain ⟨-, rfl⟩ := Element.patch?_eq_some.mp hc
  obtain ⟨-, rfl⟩ := Element.delta?_eq_some.mp hy
  refine ⟨rfl, ?_, rfl⟩
  show (if e.position.isDirty then some e.position.remote else none) =
      e.position.delta?.map _
  rw [Tracked.delta?]
  split_ifs <;> rfl

theorem ElementSet.map_id_patches (s : ElementSet τ) :
    s.patches.map Message.id = s.delta.map ElementDelta.id := by
  rw [s.patches_eq, s.delta_eq, List.map_filterMap, List.map_filterMap]
  exact List.filterMap_congr (fun e _ => e.map_id_patch? s.decl.kind)

theorem ElementSet.patches_eq_nil (s : ElementSet τ) : s.patches = [] ↔ s.delta = [] := by
  rw [← List.map_eq_nil_iff (f := Message.id), s.map_id_patches, List.map_eq_nil_iff]

/-- In a keyed set the message of an id is that of the element of the id. -/
theorem ElementSet.Keyed.patch_of_mem {s : ElementSet τ} (h : s.Keyed)
    (he : e ∈ s.elements) (hc : c ∈ s.patches) (id : c.id = e.id) :
    e.patch? s.decl.kind = some c := by
  rw [s.patches_eq] at hc
  obtain ⟨e', he', told⟩ := List.mem_filterMap.mp hc
  obtain rfl := h.sorted.eq_of_key he' he ((Element.id_of_patch? e' c told).symm.trans id)
  exact told

theorem ElementSet.Keyed.find?_delta {s : ElementSet τ} (h : s.Keyed)
    (he : e ∈ s.elements) :
    SortedList.find? ElementDelta.id e.id s.delta = e.delta? s.decl.kind := by
  rw [s.delta_eq, SortedList.find?_filterMap h.sorted.nodup_keys
    (fun e _ => Element.id_of_delta? e), SortedList.find?_of_mem h.sorted.nodup_keys he,
    Option.bind_some]

end Elements

section Records

variable {r : Record τ} {s : ElementSet τ} {e : Element τ} {c : Message}
    {y : ElementDelta}

namespace Record.Keyed

theorem nodup_fieldDeltas (h : r.Keyed) : ((fieldDeltas r.fields).map Prod.fst).Nodup :=
  SortedList.nodup_filterMap h.field_names (fun f _ _ => f.name_of_delta?)

theorem set?_of_mem (h : r.Keyed) (hs : s ∈ r.sets) :
    SortedList.find? ElementSet.name s.name r.sets = some s :=
  SortedList.find?_of_mem h.names hs

/-- A patch names the fields that the delta names, with the same values. -/
theorem field?_patch (h : r.Keyed) (field : String) :
    r.patch.field? field = r.delta.field? field := by
  rw [Message.field?, r.patch_fields, messageFields,
    SortedList.find?_ofList h.nodup_fieldDeltas, Delta.field?, r.delta_eq]

theorem set?_delta (h : r.Keyed) (set : String) :
    r.delta.set? set = (r.set? set).bind ElementSet.delta? := by
  have names : ∀ s ∈ r.sets, ∀ x, ElementSet.delta? s = some x → x.name = s.name := by
    intro s _ x hx
    rw [ElementSet.delta?_eq_some hx]
  rw [Delta.set?, r.delta_eq]
  exact SortedList.find?_filterMap h.names names

theorem childrenOf_patch (h : r.Keyed) (set : String) :
    r.patch.childrenOf set = ((r.set? set).map ElementSet.patches).getD [] :=
  childrenOf_messageGroups h.names r.patch_children set

/-- A patch names the sets that the delta names, with the same elements in the same
order. -/
theorem ids_patch (h : r.Keyed) (set : String) :
    (SortedList.find? Group.name set r.patch.children).map (·.members.map Message.id) =
      (r.delta.set? set).map (·.elements.map ElementDelta.id) := by
  rw [(grouped_messageGroups r.patch_children).find?_eq, h.childrenOf_patch, h.set?_delta]
  cases r.set? set with
  | none => rfl
  | some s =>
      show (if s.patches = [] then none else some (⟨set, s.patches⟩ : Group)).map _ =
        s.delta?.map _
      rw [ElementSet.delta?]
      simp only [s.patches_eq_nil]
      split_ifs
      · rfl
      · exact congrArg some s.map_id_patches

/-- An element that patch and delta both name tells it itself. -/
theorem told_of_bothName (h : r.Keyed) (b : r.BothName r.patch r.delta s e c y) :
    e.patch? s.decl.kind = some c ∧ e.delta? s.decl.kind = some y := by
  have own := h.set b.set
  constructor
  · have told := b.message
    rw [h.childrenOf_patch, show r.set? s.name = some s from h.set?_of_mem b.set] at told
    exact own.patch_of_mem b.element told b.message_id
  · have change := b.change
    rw [Delta.change?, h.set?_delta, show r.set? s.name = some s from h.set?_of_mem b.set]
      at change
    obtain ⟨x, hx, told⟩ := Option.bind_eq_some_iff.mp change
    obtain rfl := ElementSet.delta?_eq_some hx
    exact (own.find?_delta b.element).symm.trans told

/-- What a keyed record tells as a patch and as a delta matches; by induction on its
depth. -/
theorem patch_matches (h : r.Keyed) : r.Matches r.patch r.delta := by
  induction h with
  | @intro r fields names sorted nested ih =>
      have keyed : r.Keyed := .intro fields names sorted nested
      have grouped := grouped_messageGroups r.patch_children
      refine .intro ?_ ⟨?_, grouped.sorted.nodup_keys, ?_, ?_⟩ keyed.field?_patch
        keyed.ids_patch ?_ ?_ ?_ ?_
      · rw [r.patch_eq]
      · rw [r.patch_fields]
        exact (SortedList.sorted_ofList _).nodup_keys
      · rw [r.delta_eq]
        exact keyed.nodup_fieldDeltas
      · rw [r.delta_eq]
        refine SortedList.nodup_filterMap names (fun s _ x hx => ?_)
        rw [ElementSet.delta?_eq_some hx]
      · intro x hx
        rw [r.delta_eq] at hx
        obtain ⟨s, hs, hx⟩ := List.mem_filterMap.mp hx
        obtain rfl := ElementSet.delta?_eq_some hx
        rw [s.delta_eq]
        refine ⟨(sorted s hs).filterMap (fun e _ => Element.id_of_delta? e), s, hs, rfl, ?_⟩
        intro y hy
        obtain ⟨e, he, told⟩ := List.mem_filterMap.mp hy
        exact ⟨e, he, (Element.id_of_delta? e y told).symm⟩
      · intro s e c y b
        obtain ⟨hc, hy⟩ := keyed.told_of_bothName b
        exact Element.presence_of_told hc hy
      · intro s e c y b here
        obtain ⟨hc, hy⟩ := keyed.told_of_bothName b
        obtain ⟨-, rfl⟩ := Element.patch?_eq_some.mp hc
        obtain ⟨-, rfl⟩ := Element.delta?_eq_some.mp hy
        rw [if_pos here, if_pos here]
        exact (ih s b.set e b.element).withPresence e.position e.deleted
      · intro s e c y b gone
        obtain ⟨hc, hy⟩ := keyed.told_of_bothName b
        obtain ⟨-, rfl⟩ := Element.patch?_eq_some.mp hc
        obtain ⟨-, rfl⟩ := Element.delta?_eq_some.mp hy
        simp only [gone, Bool.false_eq_true, if_false]
        exact ⟨rfl, rfl, trivial⟩

end Record.Keyed

end Records

section Handled

variable [Catalog τ]

/-- Whatever was done with a record, its patch and its delta name the same changes. -/
theorem Record.Handled.patch_matches_delta {type : τ} {r : Record τ}
    (h : Handled type r) : r.Matches r.patch r.delta :=
  h.keyed.patch_matches

/-- The tasks of a variant are exchanged, the first one is given a tag and the second one
is removed; a window of access is new. -/
def taskEdits : List Edit :=
  [.within "tasks" (.swap 1 2), .within "tasks" (.update 1 [.write "tag" (.text "a")]),
    .within "tasks" (.remove 2),
    .within "access" (.add (.blank 3) [.write "group_id" (.integer 5)])]

theorem Record.Handled.editAll {type : τ} {r : Record τ} (h : Handled type r)
    (edits : List Edit) : Handled type (r.editAll edits).1 := by
  induction edits generalizing r with
  | nil => exact h
  | cons edit edits ih => exact ih (h.edit edit)

/-- The patch gives the position of the baseline for the tasks, the delta does not; of the
task that is removed neither says more. -/
theorem Record.patch_matches_delta_of_exchanged_tasks :
    ∃ loaded, Record.ofMessage Entity.kim twoTasks = .ok loaded ∧
      let r := (loaded.editAll taskEdits).1
      Handled .kim r ∧ r.Matches r.patch r.delta ∧
        r.patch = ⟨1, [],
          [⟨"access", [⟨3, [("group_id", .integer 5)], [], none, none, some false⟩]⟩,
            ⟨"tasks", [⟨1, [("tag", .text "a")], [], some 0, some 1, none⟩,
              ⟨2, [], [], some 1, some (-1), none⟩]⟩], none, none, none⟩ ∧
        (r.delta.change? "tasks" 1).map (fun y => (y.position, y.record.fields)) =
          some (some 1, [("tag", .text "a")]) ∧
        (r.delta.change? "tasks" 2).map (fun y => (y.position, y.record.fields)) =
          some (some (-1), []) ∧
        (r.delta.change? "access" 3).map (fun y => (y.deleted, y.record.fields)) =
          some (some false, [("group_id", .integer 5)]) := by
  refine ⟨_, rfl, ?_⟩
  have handled := (@Handled.decoded _ _ Entity.kim twoTasks _ rfl).editAll taskEdits
  exact ⟨handled, handled.patch_matches_delta, by decide +kernel, by decide +kernel,
    by decide +kernel, by decide +kernel⟩

end Handled

end RecordSync
