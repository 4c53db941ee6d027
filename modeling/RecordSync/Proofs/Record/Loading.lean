import RecordSync.Proofs.Record.Structure
import RecordSync.Record.Decode

/-!
# Records as they are made

A record is made blank or from a message.  Either way it is sound and clean.

**Results.**
* `Record.blank_sound`: a blank record is sound and clean.
* `Record.made_of_ofMessage`: so is a record that a message describes.
-/

namespace RecordSync

section Except

variable {ε α β : Type}

/-- A list of steps, of which each can be told from its result, succeeds with a list of
results iff each of them is the result of its step. -/
theorem mapM_eq_ok {f : α → Except ε β} {source : β → α}
    (hf : ∀ a b, f a = .ok b → source b = a) {l : List α} {l' : List β} :
    l.mapM f = .ok l' ↔ l'.map source = l ∧ ∀ b ∈ l', f (source b) = .ok b := by
  induction l generalizing l' with
  | nil =>
      constructor
      · intro h
        cases h
        exact ⟨rfl, nofun⟩
      · rintro ⟨h, -⟩
        rw [List.map_eq_nil_iff.mp h]
        rfl
  | cons a l ih =>
      rw [List.mapM_cons]
      constructor
      · intro h
        cases ha : f a with
        | error e => simp [ha, bind, Except.bind] at h
        | ok b =>
            cases hl : l.mapM f with
            | error e => simp [ha, hl, bind, Except.bind] at h
            | ok bs =>
                simp only [ha, hl, bind, Except.bind, pure, Except.pure, Except.ok.injEq] at h
                obtain ⟨sources, results⟩ := ih.mp hl
                subst h
                have first := hf a b ha
                refine ⟨by rw [List.map_cons, first, sources], ?_⟩
                rintro c (_ | ⟨_, hc⟩)
                · rw [first, ha]
                · exact results c hc
      · rintro ⟨sources, results⟩
        cases l' with
        | nil => cases sources
        | cons b bs =>
            obtain ⟨rfl, rest⟩ := List.cons.inj sources
            rw [results b (by simp), ih.mpr ⟨rest, fun c hc => results c (by simp [hc])⟩]
            rfl

end Except

theorem Message.induction {P : Message → Prop}
    (step : ∀ m, (∀ g ∈ m.children, ∀ c ∈ g.members, P c) → P m) (m : Message) : P m := by
  apply step
  intro g hg c hc
  exact Message.induction step c
termination_by sizeOf m
decreasing_by
  have inner := List.sizeOf_lt_of_mem hc
  have outer := List.sizeOf_lt_of_mem hg
  obtain ⟨id, fields, children, position, swapPosition, deleted⟩ := m
  obtain ⟨name, members⟩ := g
  simp_all only [Message.mk.sizeOf_spec, Group.mk.sizeOf_spec]
  omega

theorem Message.mem_of_childrenOf {m c : Message} {set : String}
    (h : c ∈ m.childrenOf set) : ∃ g ∈ m.children, c ∈ g.members := by
  rw [Message.childrenOf] at h
  split at h
  next g found => exact ⟨g, SortedList.mem_of_find? found, h⟩
  next => cases h

/-- Of each set only the first group is looked at, so it is enough to know of the elements
there. -/
theorem Message.childrenOf_induction {P : Message → Prop}
    (step : ∀ m, (∀ set, ∀ c ∈ m.childrenOf set, P c) → P m) (m : Message) : P m := by
  induction m using Message.induction with
  | step m ih =>
      refine step m (fun set c hc => ?_)
      obtain ⟨g, hg, hc⟩ := Message.mem_of_childrenOf hc
      exact ih g hg c hc

variable {τ : Type}

/-- A record whose fields are clean and whose sets hold nothing dirty counts nothing. -/
theorem Record.dirtyParts_eq_zero {r : Record τ}
    (fields : ∀ f ∈ r.fields, f.isDirty = false) (sets : ∀ s ∈ r.sets, s.dirty = 0) :
    r.dirtyParts = 0 := by
  rw [Record.dirtyParts, Nat.add_eq_zero_iff, List.countP_eq_zero, List.countP_eq_zero]
  refine ⟨fun f hf => by simp [fields f hf], fun s hs => ?_⟩
  simp [ElementSet.isDirty, sets s hs]

theorem ElementSet.addLoaded_eq_ok {s after : ElementSet τ} {record : Record τ}
    {position : Int} : s.addLoaded record position = .ok after ↔
      s.find? record.id = none ∧
        after = { s.insert (.loaded record position) with
          nextPosition := max s.nextPosition (position + 1) } := by
  rw [ElementSet.addLoaded]
  cases s.find? record.id <;> simp [eq_comm]

theorem ElementSet.placeFor_unordered {s : ElementSet τ}
    (unordered : s.decl.kind = .unordered) {id : Int} {given : Option Int}
    {position : Int} : s.placeFor id given = .ok position ↔ position = 0 := by
  rw [placeFor.eq_def, unordered]
  simp [eq_comm]

/-- In an ordered set an element is loaded at the position that is given, if it is not
below zero and no other element has it. -/
theorem ElementSet.placeFor_ordered {s : ElementSet τ}
    (ordered : s.decl.kind = .ordered) {id : Int} {given : Option Int} {position : Int} :
    s.placeFor id given = .ok position ↔ given = some position ∧ 0 ≤ position ∧
      ∀ e ∈ s.elements, e.position.current ≠ position := by
  rw [placeFor.eq_def, ordered]
  cases given with
  | none => simp
  | some p =>
      dsimp only
      split_ifs with low shared
      · grind
      · grind
      · grind

variable [Catalog τ]

/-- A record of a type as it is made: sound, and with nothing to tell. -/
structure Record.Made (type : τ) (r : Record τ) : Prop where
  sound : r.Sound
  clean : r.dirty = 0
  type_eq : r.type = type

theorem Record.blank_sound (type : τ) (id : Int) : (Record.blank type id).Made type := by
  have fields : ∀ f ∈ (Record.blank type id).fields,
      f.isDirty = false ∧ f.Typed := by
    intro f hf
    obtain ⟨decl, -, rfl⟩ := List.mem_map.mp hf
    have holds := FieldKind.holds_default decl.kind
    exact ⟨Tracked.isDirty_clean _, holds, holds⟩
  have sets : ∀ s ∈ (Record.blank type id).sets, s.dirty = 0 ∧ s.elements = [] := by
    intro s hs
    obtain ⟨decl, -, rfl⟩ := List.mem_map.mp hs
    exact ⟨rfl, rfl⟩
  refine ⟨.intro ⟨?_, ?_, fun f hf => (fields f hf).2, ?_, ?_⟩ ?_, rfl, rfl⟩
  · rw [Record.blank, List.map_map]
    exact List.map_id _
  · rw [Record.blank, List.map_map]
    exact List.map_id _
  · exact (Record.dirtyParts_eq_zero (fun f hf => (fields f hf).1)
      (fun s hs => (sets s hs).1)).symm
  · intro s hs
    obtain ⟨dirty, elements⟩ := sets s hs
    constructor
    · rw [elements]
      exact List.Pairwise.nil
    · rw [dirty, ElementSet.dirtyElements, elements]
      rfl
    · simp [elements]
    · simp [elements]
  · intro s hs e he
    rw [(sets s hs).2] at he
    cases he

section Parts

/-- A set is loaded from the group of its name, if there is one. -/
theorem ElementSet.ofGroups_eq (decl : SetDecl τ) (m : Message) :
    ElementSet.ofGroups decl m.children =
      ElementSet.load (.blank decl) (m.childrenOf decl.name) := by
  rw [Message.childrenOf]
  induction m.children with
  | nil => rw [ElementSet.ofGroups]; rfl
  | cons g groups ih =>
      obtain ⟨name, members⟩ := g
      rw [ElementSet.ofGroups, SortedList.find?_cons]
      by_cases h : name = decl.name
      · simp [h]
      · simpa [h] using ih

/-- What loading one more message asks for and gives. -/
theorem ElementSet.load_cons_eq_ok {s s' : ElementSet τ} {m : Message} {ms : List Message}
    (live : m.deleted ≠ some true) :
    ElementSet.load s (m :: ms) = .ok s' ↔ ∃ position record after,
      s.placeFor m.id m.position = .ok position ∧
      Record.ofMessage s.decl.element m = .ok record ∧
      s.addLoaded record position = .ok after ∧
      ElementSet.load after ms = .ok s' := by
  rw [ElementSet.load, if_neg live]
  constructor
  · intro h
    cases hp : s.placeFor m.id m.position with
    | error e => simp [hp, bind, Except.bind] at h
    | ok position =>
        cases hr : Record.ofMessage s.decl.element m with
        | error e => simp [hp, hr, bind, Except.bind] at h
        | ok record =>
            cases ha : s.addLoaded record position with
            | error e => simp [hp, hr, ha, bind, Except.bind] at h
            | ok after =>
                simp only [hp, hr, ha, bind, Except.bind] at h
                exact ⟨position, record, after, rfl, rfl, ha, h⟩
  · rintro ⟨position, record, after, placed, decoded, added, rest⟩
    simp [placed, decoded, added, rest, bind, Except.bind]

theorem ElementSet.decl_of_load {s s' : ElementSet τ} {ms : List Message}
    (h : ElementSet.load s ms = .ok s') : s'.decl = s.decl := by
  induction ms generalizing s with
  | nil =>
      rw [ElementSet.load] at h
      cases h
      rfl
  | cons m ms ih =>
      by_cases dead : m.deleted = some true
      · rw [ElementSet.load, if_pos dead] at h
        exact ih h
      · obtain ⟨position, record, after, -, -, added,
            h⟩ := (ElementSet.load_cons_eq_ok dead).mp h
        obtain ⟨-, rfl⟩ := ElementSet.addLoaded_eq_ok.mp added
        exact (ih h).trans rfl

end Parts

/-- A set as it is loaded: every element is on both sides and has nothing to tell. -/
structure ElementSet.Loaded (s : ElementSet τ) : Prop where
  sorted : SortedList.Sorted Element.id s.elements
  clean : s.dirty = 0
  loaded : ∀ e ∈ s.elements, ∃ record position,
    e = .loaded record position ∧ (s.decl.kind = .unordered → position = 0) ∧
      record.Made s.decl.element

namespace ElementSet.Loaded

variable {s : ElementSet τ}

theorem shaped (h : s.Loaded) : ∀ e ∈ s.elements, e.Shaped s.decl.kind := by
  intro e he
  obtain ⟨record, position, rfl, unplaced, -⟩ := h.loaded e he
  cases hk : s.decl.kind with
  | ordered => rfl
  | unordered =>
      rw [unplaced hk]
      rfl

theorem isDirty (h : s.Loaded) : ∀ e ∈ s.elements, e.isDirty s.decl.kind = false := by
  intro e he
  obtain ⟨record, position, rfl, -, made⟩ := h.loaded e he
  refine Element.isDirty_eq_false.mpr ⟨?_, fun _ => made.clean⟩
  exact Element.isPresenceDirty_eq_false.mpr ⟨rfl, rfl⟩

theorem tidy (h : s.Loaded) : s.Tidy where
  sorted := h.sorted
  counted := by
    rw [h.clean, ElementSet.dirtyElements, eq_comm, List.countP_eq_zero]
    intro e he
    simp [h.isDirty e he]
  typed := by
    intro e he
    obtain ⟨record, position, rfl, -, made⟩ := h.loaded e he
    exact made.type_eq
  shaped := h.shaped

theorem blank (decl : SetDecl τ) : (ElementSet.blank decl).Loaded :=
  ⟨List.Pairwise.nil, rfl, nofun⟩

/-- A set stays loaded when a record is added as it is made. -/
theorem add (h : s.Loaded) {record : Record τ} {position : Int} {after : ElementSet τ}
    (made : record.Made s.decl.element)
    (unplaced : s.decl.kind = .unordered → position = 0)
    (ha : s.addLoaded record position = .ok after) :
    after.Loaded ∧ after.decl = s.decl := by
  obtain ⟨-, rfl⟩ := ElementSet.addLoaded_eq_ok.mp ha
  refine ⟨⟨h.sorted.insert _, h.clean, ?_⟩, rfl⟩
  intro e he
  rcases (SortedList.mem_insert h.sorted).mp he with rfl | ⟨he, -⟩
  · exact ⟨record, position, rfl, unplaced, made⟩
  · exact h.loaded e he

/-- A set into which elements are loaded is loaded, if their messages describe records. -/
theorem load (h : s.Loaded) {ms : List Message}
    (inner : ∀ m ∈ ms, ∀ (type : τ) r, Record.ofMessage type m = .ok r → r.Made type)
    {s' : ElementSet τ} (hl : ElementSet.load s ms = .ok s') :
    s'.Loaded ∧ s'.decl = s.decl := by
  induction ms generalizing s with
  | nil =>
      rw [ElementSet.load] at hl
      cases hl
      exact ⟨h, rfl⟩
  | cons m ms ih =>
      have rest := fun c hc => inner c (List.mem_cons_of_mem m hc)
      by_cases dead : m.deleted = some true
      · rw [ElementSet.load, if_pos dead] at hl
        exact ih h rest hl
      · obtain ⟨position, record, after, placed, decoded, added, hl⟩ :=
          (ElementSet.load_cons_eq_ok dead).mp hl
        have unplaced : s.decl.kind = .unordered → position = 0 := fun unordered =>
          (ElementSet.placeFor_unordered unordered).mp placed
        obtain ⟨loaded, decl⟩ := h.add (inner m (by simp) _ record decoded) unplaced added
        obtain ⟨loaded', decl'⟩ := ih loaded rest hl
        exact ⟨loaded', decl'.trans decl⟩

end ElementSet.Loaded

theorem FieldKind.holds_of_read {kind : FieldKind} {field : String} {wire : Option Value}
    {value : Value} (h : kind.read field wire = .ok value) : kind.Holds value = true := by
  rw [FieldKind.read.eq_def] at h
  split at h
  · cases h
    exact FieldKind.holds_default kind
  · cases h
    exact FieldKind.holds_default kind
  next =>
    split at h
    next content coerced =>
      cases h
      exact FieldKind.holds_of_coerce? coerced
    next => cases h

/-- A field that a message gives is a clean field of its declaration. -/
theorem Field.ofFields_eq_ok {fields : List (String × Value)} {decl : FieldDecl}
    {f : Field} : Field.ofFields fields decl = .ok f ↔
      ∃ value, decl.kind.read decl.name
          ((SortedList.find? Prod.fst decl.name fields).map Prod.snd) = .ok value ∧
        f = .clean decl value := by
  rw [Field.ofFields]
  cases decl.kind.read decl.name
    ((SortedList.find? Prod.fst decl.name fields).map Prod.snd) <;>
    simp [Except.map, eq_comm]

/-- The parts of a record that a message describes. -/
theorem Record.ofMessage_eq_ok {type : τ} {m : Message} {r : Record τ} :
    Record.ofMessage type m = .ok r ↔
      ∃ own sets,
        (own.map (·.decl) = Catalog.fields type ∧
          ∀ f ∈ own, Field.ofFields m.fields f.decl = .ok f) ∧
        (sets.map (·.decl) = Catalog.sets type ∧
          ∀ s ∈ sets, ElementSet.load (.blank s.decl) (m.childrenOf s.decl.name) =
            .ok s) ∧
        r = ⟨type, m.id, 0, own, sets⟩ := by
  have field_decl : ∀ decl f, Field.ofFields m.fields decl = .ok f → f.decl = decl := by
    intro decl f h
    obtain ⟨value, -, rfl⟩ := Field.ofFields_eq_ok.mp h
    rfl
  have set_decl : ∀ decl (s : ElementSet τ),
      ElementSet.ofGroups decl m.children = .ok s → s.decl = decl := by
    intro decl s h
    rw [ElementSet.ofGroups_eq] at h
    exact ElementSet.decl_of_load h
  have fields_iff := @mapM_eq_ok _ _ _ _ _ field_decl (Catalog.fields type)
  have sets_iff := @mapM_eq_ok _ _ _ _ _ set_decl (Catalog.sets type)
  simp only [ElementSet.ofGroups_eq] at sets_iff
  have unfolded : Record.ofMessage type m = (do
      let own ← (Catalog.fields type).mapM (Field.ofFields m.fields)
      let sets ← (Catalog.sets type).mapM
        (fun decl => ElementSet.load (.blank decl) (m.childrenOf decl.name))
      .ok ⟨type, m.id, 0, own, sets⟩) := by
    simp only [← ElementSet.ofGroups_eq]
    obtain ⟨id, fields, children, position, swapPosition, deleted⟩ := m
    rw [Record.ofMessage]
  rw [unfolded]
  constructor
  · intro h
    cases hf : (Catalog.fields type).mapM (Field.ofFields m.fields) with
    | error e => simp [hf, bind, Except.bind] at h
    | ok own =>
        cases hs : (Catalog.sets type).mapM
            (fun decl => ElementSet.load (.blank decl) (m.childrenOf decl.name)) with
        | error e => simp [hf, hs, bind, Except.bind] at h
        | ok sets =>
            simp only [hf, hs, bind, Except.bind, Except.ok.injEq] at h
            exact ⟨own, sets, fields_iff.mp hf, sets_iff.mp hs, h.symm⟩
  · rintro ⟨own, sets, hf, hs, rfl⟩
    rw [fields_iff.mpr hf, sets_iff.mpr hs]
    rfl

/-- A record that a message describes is sound and clean. -/
theorem Record.made_of_ofMessage (m : Message) :
    ∀ (type : τ) r, Record.ofMessage type m = .ok r → r.Made type := by
  induction m using Message.childrenOf_induction with
  | step m ih =>
      intro type r h
      obtain ⟨own, sets, ⟨hf, fields⟩, ⟨hs, loads⟩, rfl⟩ := Record.ofMessage_eq_ok.mp h
      have fields : ∀ f ∈ own, f.isDirty = false ∧ f.Typed := by
        intro f hf
        obtain ⟨value, read, clean⟩ := Field.ofFields_eq_ok.mp (fields f hf)
        have holds := FieldKind.holds_of_read read
        rw [clean]
        exact ⟨Tracked.isDirty_clean _, holds, holds⟩
      have loaded : ∀ s ∈ sets, s.Loaded := by
        intro s hs
        exact ((ElementSet.Loaded.blank s.decl).load (ih s.name) (loads s hs)).1
      refine ⟨.intro ⟨hf, hs, fun f hf => (fields f hf).2, ?_,
        fun s hs => (loaded s hs).tidy⟩ ?_, rfl, rfl⟩
      · exact (Record.dirtyParts_eq_zero (fun f hf => (fields f hf).1)
          (fun s hs => (loaded s hs).clean)).symm
      · intro s hs e he
        obtain ⟨record, position, rfl, -, made⟩ := (loaded s hs).loaded e he
        exact made.sound

end RecordSync
