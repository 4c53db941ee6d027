import RecordSync.Proofs.Record.Loading

/-!
# The elements that a message gives

The elements of a set are loaded one after another from their messages.  Loading looks
only at their ids and positions and at the record that each message describes; the order
of the messages is not seen in the set.

**Results.**
* `ElementSet.find?_load`: the elements of a set that was loaded.
* `ElementSet.load_succeeds`: what is enough for a set to be loaded.
* `ElementSet.load_succeeds_iff`, `Record.ofMessage_succeeds_iff`: when a set is loaded
  and when a record is decoded.
-/

namespace RecordSync

variable {τ : Type}

section Add

variable {s after : ElementSet τ} {record : Record τ} {position : Int}

theorem ElementSet.find?_addLoaded (h : s.addLoaded record position = .ok after)
    (id : Int) :
    after.find? id = if record.id = id then some (.loaded record position)
      else s.find? id := by
  obtain ⟨-, rfl⟩ := ElementSet.addLoaded_eq_ok.mp h
  exact SortedList.find?_insert _ _ _ _

end Add

variable [Catalog τ]

theorem Record.ofMessage_id {type : τ} {m : Message} {r : Record τ}
    (h : Record.ofMessage type m = .ok r) : r.id = m.id := by
  obtain ⟨own, sets, -, -, rfl⟩ := Record.ofMessage_eq_ok.mp h
  rfl

/-- A record is made of the fields and elements of a message, and its id. -/
theorem Record.ofMessage_congr {type : τ} {m m' : Message} (id : m.id = m'.id)
    (fields : m.fields = m'.fields) (children : m.children = m'.children) :
    Record.ofMessage type m = Record.ofMessage type m' := by
  cases m
  cases m'
  simp only at id fields children
  subst id fields children
  rw [Record.ofMessage, Record.ofMessage]

section Load

/-- What a set has of an id after it was loaded: the element that the message of the id
describes, which it had not before, or else what it had. -/
theorem ElementSet.find?_load {s s' : ElementSet τ} {ms : List Message}
    (live : ∀ m ∈ ms, m.deleted ≠ some true) (h : ElementSet.load s ms = .ok s')
    (id : Int) : match SortedList.find? Message.id id ms with
    | none => s'.find? id = s.find? id
    | some m => s.find? id = none ∧ ∃ record position,
        Record.ofMessage s.decl.element m = .ok record ∧
        (s.decl.kind = .ordered → m.position = some position) ∧
        s'.find? id = some (.loaded record position) := by
  induction ms generalizing s with
  | nil =>
      rw [ElementSet.load] at h
      cases h
      rfl
  | cons m ms ih =>
      obtain ⟨position, record, after, placed, decoded, added, h⟩ :=
        (load_cons_eq_ok (live m List.mem_cons_self)).mp h
      have rest := ih (fun c hc => live c (List.mem_cons_of_mem m hc)) h
      obtain ⟨fresh, ha⟩ := ElementSet.addLoaded_eq_ok.mp added
      have decl : after.decl = s.decl := ha ▸ rfl
      have hid : record.id = m.id := Record.ofMessage_id decoded
      have there := ElementSet.find?_addLoaded added id
      rw [hid] at there fresh
      rw [SortedList.find?_cons]
      by_cases same : m.id = id
      · rw [if_pos same] at there ⊢
        subst same
        refine ⟨fresh, record, position, decoded,
          fun ordered => ((placeFor_ordered ordered).mp placed).1, ?_⟩
        split at rest
        · rw [rest, there]
        · rw [there] at rest
          cases rest.1
      · rw [if_neg same] at there ⊢
        rw [decl, there] at rest
        exact rest

/-- A set can be loaded if the ids are new and distinct, each message describes a record,
and in an ordered set each has a position of its own that is not below zero. -/
theorem ElementSet.load_succeeds {s : ElementSet τ} {ms : List Message}
    (live : ∀ m ∈ ms, m.deleted ≠ some true) (distinct : (ms.map Message.id).Nodup)
    (fresh : ∀ m ∈ ms, s.find? m.id = none)
    (decoded : ∀ m ∈ ms, ∃ r, Record.ofMessage s.decl.element m = .ok r)
    (placed : s.decl.kind = .ordered → ∀ m ∈ ms, ∃ p, m.position = some p ∧ 0 ≤ p)
    (free : s.decl.kind = .ordered → ∀ e ∈ s.elements, ∀ m ∈ ms,
      m.position ≠ some e.position.current)
    (spread : s.decl.kind = .ordered → (ms.filterMap Message.position).Nodup) :
    ∃ s', ElementSet.load s ms = .ok s' := by
  induction ms generalizing s with
  | nil => exact ⟨s, by rw [ElementSet.load]⟩
  | cons m ms ih =>
      obtain ⟨record, hr⟩ := decoded m List.mem_cons_self
      have hid : record.id = m.id := Record.ofMessage_id hr
      obtain ⟨unique, distinct⟩ := List.nodup_cons.mp distinct
      obtain ⟨position, hp⟩ : ∃ position, s.placeFor m.id m.position = .ok position ∧
          (s.decl.kind = .ordered → m.position = some position) := by
        cases hk : s.decl.kind with
        | unordered =>
            exact ⟨0, (placeFor_unordered hk).mpr rfl, fun ordered => by cases ordered⟩
        | ordered =>
            obtain ⟨p, position, nonneg⟩ := placed hk m List.mem_cons_self
            refine ⟨p, (placeFor_ordered hk).mpr ⟨position, nonneg, ?_⟩, fun _ => position⟩
            rintro e he rfl
            exact free hk e he m List.mem_cons_self position
      obtain ⟨after, added⟩ : ∃ after, s.addLoaded record position = .ok after :=
        ⟨_, ElementSet.addLoaded_eq_ok.mpr ⟨hid ▸ fresh m List.mem_cons_self, rfl⟩⟩
      have decl : after.decl = s.decl := (ElementSet.addLoaded_eq_ok.mp added).2 ▸ rfl
      suffices rest : ∃ s', ElementSet.load after ms = .ok s' by
        obtain ⟨s', rest⟩ := rest
        exact ⟨s', (load_cons_eq_ok (live m List.mem_cons_self)).mpr
          ⟨position, record, after, hp.1, hr, added, rest⟩⟩
      refine ih (fun c hc => live c (List.mem_cons_of_mem m hc)) distinct ?_ ?_ ?_ ?_ ?_
      · intro c hc
        rw [ElementSet.find?_addLoaded added, if_neg, fresh c (List.mem_cons_of_mem m hc)]
        rw [hid]
        exact fun e => unique (e ▸ List.mem_map_of_mem hc)
      · rw [decl]
        exact fun c hc => decoded c (List.mem_cons_of_mem m hc)
      · rw [decl]
        exact fun ordered c hc => placed ordered c (List.mem_cons_of_mem m hc)
      · rw [decl]
        intro ordered e he c hc
        have spread := spread ordered
        rw [List.filterMap_cons_some (hp.2 ordered), List.nodup_cons] at spread
        obtain ⟨-, rfl⟩ := ElementSet.addLoaded_eq_ok.mp added
        rcases SortedList.mem_of_mem_insert he with rfl | he
        · intro same
          exact spread.1 (List.mem_filterMap.mpr ⟨c, hc, same⟩)
        · exact free ordered e he c (List.mem_cons_of_mem m hc)
      · rw [decl]
        intro ordered
        have spread := spread ordered
        rw [List.filterMap_cons_some (hp.2 ordered), List.nodup_cons] at spread
        exact spread.2

/-- In an ordered set that was loaded the messages have distinct positions, and none that
was taken. -/
theorem ElementSet.positions_of_load {s s' : ElementSet τ} {ms : List Message}
    (ordered : s.decl.kind = .ordered) (hs : SortedList.Sorted Element.id s.elements)
    (live : ∀ m ∈ ms, m.deleted ≠ some true) (h : ElementSet.load s ms = .ok s') :
    (ms.filterMap Message.position).Nodup ∧
      ∀ e ∈ s.elements, e.position.current ∉ ms.filterMap Message.position := by
  induction ms generalizing s with
  | nil => exact ⟨List.nodup_nil, fun _ _ => List.not_mem_nil⟩
  | cons m ms ih =>
      obtain ⟨position, record, after, placed, -, added, h⟩ :=
        (load_cons_eq_ok (live m List.mem_cons_self)).mp h
      obtain ⟨fresh, ha⟩ := ElementSet.addLoaded_eq_ok.mp added
      have decl : after.decl = s.decl := ha ▸ rfl
      have elements : after.elements =
          SortedList.insert Element.id (.loaded record position) s.elements := ha ▸ rfl
      obtain ⟨distinct, untaken⟩ := ih (decl ▸ ordered) (elements ▸ hs.insert _)
        (fun c hc => live c (List.mem_cons_of_mem m hc)) h
      rw [elements] at untaken
      obtain ⟨told, -, free⟩ := (placeFor_ordered ordered).mp placed
      rw [List.filterMap_cons_some told, List.nodup_cons]
      refine ⟨⟨?_, distinct⟩, ?_⟩
      · exact untaken (.loaded record position) ((SortedList.mem_insert hs).mpr (.inl rfl))
      · intro e he
        rw [List.mem_cons, not_or]
        refine ⟨?_, untaken e ((SortedList.mem_insert hs).mpr (.inr ⟨he, ?_⟩))⟩
        · exact free e he
        · exact SortedList.find?_eq_none_iff.mp fresh e he

/-- When a set is loaded from messages with distinct ids, whose positions are not below
zero. -/
theorem ElementSet.load_succeeds_iff {decl : SetDecl τ} {ms : List Message}
    (live : ∀ m ∈ ms, m.deleted ≠ some true) (distinct : (ms.map Message.id).Nodup)
    (placed : decl.kind = .ordered → ∀ m ∈ ms, ∃ p, m.position = some p ∧ 0 ≤ p) :
    (∃ s, ElementSet.load (.blank decl) ms = .ok s) ↔
      (∀ m ∈ ms, ∃ r, Record.ofMessage decl.element m = .ok r) ∧
        (decl.kind = .ordered → (ms.filterMap Message.position).Nodup) := by
  constructor
  · rintro ⟨s, loaded⟩
    refine ⟨?_, fun ordered =>
      (positions_of_load (s := .blank decl) ordered List.Pairwise.nil live loaded).1⟩
    intro m hm
    have found := ElementSet.find?_load live loaded m.id
    rw [SortedList.find?_of_mem distinct hm] at found
    obtain ⟨-, record, -, decoded, -⟩ := found
    exact ⟨record, decoded⟩
  · rintro ⟨decoded, spread⟩
    exact ElementSet.load_succeeds live distinct (fun _ _ => rfl) decoded placed
      (fun _ => nofun) spread

end Load

section Records

/-- A list of sources has a list of results if each of them has one. -/
theorem exists_results {α β : Type} {source : β → α} {P : β → Prop} {l : List α}
    (h : ∀ a ∈ l, ∃ b, source b = a ∧ P b) : ∃ l' :
    List β, l'.map source = l ∧ ∀ b ∈ l', P b := by
  induction l with
  | nil => exact ⟨[], rfl, nofun⟩
  | cons a l ih =>
      obtain ⟨b, hb, first⟩ := h a List.mem_cons_self
      obtain ⟨bs, hbs, rest⟩ := ih (fun c hc => h c (List.mem_cons_of_mem a hc))
      exact ⟨b :: bs, by rw [List.map_cons, hb, hbs], List.forall_mem_cons.mpr ⟨first, rest⟩⟩

/-- A record is decoded iff its fields are and its sets are loaded. -/
theorem Record.ofMessage_succeeds_iff {type : τ} {m : Message} :
    (∃ r, Record.ofMessage type m = .ok r) ↔
      (∀ decl ∈ Catalog.fields type, ∃ f, Field.ofFields m.fields decl = .ok f) ∧
        ∀ decl ∈ Catalog.sets type,
          ∃ s : ElementSet τ, ElementSet.load (.blank decl) (m.childrenOf decl.name) =
            .ok s := by
  constructor
  · rintro ⟨r, decoded⟩
    obtain ⟨own, sets, ⟨hf, fields⟩, ⟨hs, loads⟩, -⟩ := Record.ofMessage_eq_ok.mp decoded
    refine ⟨?_, ?_⟩
    · intro decl hdecl
      obtain ⟨f, hf, rfl⟩ := List.mem_map.mp (hf ▸ hdecl)
      exact ⟨f, fields f hf⟩
    · intro decl hdecl
      obtain ⟨s, hs, rfl⟩ := List.mem_map.mp (hs ▸ hdecl)
      exact ⟨s, loads s hs⟩
  · rintro ⟨fields, loads⟩
    have own : ∃ own : List Field, own.map (·.decl) = Catalog.fields type ∧
        ∀ f ∈ own, Field.ofFields m.fields f.decl = .ok f := by
      refine exists_results ?_
      intro decl hdecl
      obtain ⟨f, given⟩ := fields decl hdecl
      obtain ⟨value, -, rfl⟩ := Field.ofFields_eq_ok.mp given
      exact ⟨.clean decl value, rfl, given⟩
    have sets : ∃ sets : List (ElementSet τ), sets.map (·.decl) = Catalog.sets type ∧
        ∀ s ∈ sets, ElementSet.load (.blank s.decl) (m.childrenOf s.decl.name) =
          .ok s := by
      refine exists_results ?_
      intro decl hdecl
      obtain ⟨s, loaded⟩ := loads decl hdecl
      have kind : s.decl = decl := ElementSet.decl_of_load loaded
      exact ⟨s, kind, by rw [kind]; exact loaded⟩
    obtain ⟨own, fields⟩ := own
    obtain ⟨sets, loads⟩ := sets
    exact ⟨_, Record.ofMessage_eq_ok.mpr ⟨own, sets, fields, loads, rfl⟩⟩

end Records

end RecordSync
