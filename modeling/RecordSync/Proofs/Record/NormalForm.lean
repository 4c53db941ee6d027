import RecordSync.Proofs.Record.Reloading

/-!
# Normal forms of messages

A message describes a record of a type if what it has of each field can be read, and if
the elements of each set that are not marked as deleted have distinct ids, in an ordered
set also distinct positions that are not below zero, and describe records themselves.  Of
all else that it carries nothing is looked at.

The normal form of such a message says the same in one way.  It has every field, a set
that has elements, and nothing that the type does not declare.  The elements of an ordered
set stand in the order of their positions and keep them; those of another set stand in the
order of their ids and have none.

**Results.**
* `Record.decodes_iff_acceptable`: a record is decoded from the messages that describe
  one.
* `ElementSet.load_perm`: the order in which elements are loaded is not seen in a set.
* `Record.localMessage_of_ofMessage`, `Record.ofMessage_normal`: a decoded record is seen
  as the normal form of its message, and is decoded from that too.
* `Record.decodes_to_normal_form`: these together.
-/

namespace RecordSync

section Fields

namespace FieldKind

/-- A field of this kind can be read from what a message has of it: from nothing, from
null, from a value of the kind, and in a floating-point field from an integer. -/
def Accepts (kind : FieldKind) : Option Value → Bool
  | none | some .null => true
  | some (.integer _) => kind == .integer || kind == .real
  | some value => kind.Holds value

/-- What a field of this kind then holds. -/
def content (kind : FieldKind) : Option Value → Value
  | none | some .null => kind.default
  | some (.integer n) => if kind = .real then .real (Binary64.ofInt n) else .integer n
  | some value => value

theorem read_eq_ok {kind : FieldKind} {field : String} {wire : Option Value}
    {value : Value} :
    kind.read field wire = .ok value ↔
      kind.Accepts wire = true ∧ kind.content wire = value := by
  cases kind <;> rcases wire with _ | (_ | _ | _ | _ | _ | _) <;>
    simp [read, coerce?, Holds, Accepts, content]

/-- What was read once is read as it is. -/
theorem read_content {kind : FieldKind} {wire : Option Value} (field : String)
    (h : kind.Accepts wire = true) :
    kind.read field (some (kind.content wire)) = .ok (kind.content wire) := by
  have first : kind.read field wire = .ok (kind.content wire) := read_eq_ok.mpr ⟨h, rfl⟩
  exact read_of_holds field (holds_of_read first)

end FieldKind

theorem Field.ofFields_iff {m : Message} {decl : FieldDecl} {f : Field} :
    Field.ofFields m.fields decl = .ok f ↔ decl.kind.Accepts (m.field? decl.name) = true ∧
      f = .clean decl (decl.kind.content (m.field? decl.name)) := by
  simp only [Field.ofFields_eq_ok, FieldKind.read_eq_ok, Message.field?]
  constructor
  · rintro ⟨value, ⟨accepts, rfl⟩, rfl⟩
    exact ⟨accepts, rfl⟩
  · rintro ⟨accepts, rfl⟩
    exact ⟨_, ⟨accepts, rfl⟩, rfl⟩

end Fields

variable {τ : Type}

section Acceptance

/-- The message of an element that is not passed over. -/
def Message.isLive (m : Message) : Bool := m.deleted != some true

/-- The elements of a set in a message that are not passed over. -/
def Message.liveOf (m : Message) (set : String) : List Message :=
  (m.childrenOf set).filter Message.isLive

/-- The elements of a set fit together: their ids are distinct, and in an ordered set
their positions too, of which none is below zero. -/
structure SetDecl.Fits (decl : SetDecl τ) (ms : List Message) : Prop where
  distinct : (ms.map Message.id).Nodup
  placed : decl.kind = .ordered → ∀ m ∈ ms, ∃ p, m.position = some p ∧ 0 ≤ p
  spread : decl.kind = .ordered → (ms.filterMap Message.position).Nodup

variable [Catalog τ]

/-- The message describes a record of the type. -/
inductive Message.Acceptable : τ → Message → Prop
  | intro {type : τ} {m : Message} :
      (∀ decl ∈ Catalog.fields type, decl.kind.Accepts (m.field? decl.name) = true) →
      (∀ decl ∈ Catalog.sets type, decl.Fits (m.liveOf decl.name)) →
      (∀ decl ∈ Catalog.sets type, ∀ c ∈ m.liveOf decl.name, Acceptable decl.element c) →
      Acceptable type m

variable {s s' : ElementSet τ} {m : Message} {ms : List Message}

/-- Elements that are marked as deleted are passed over. -/
theorem ElementSet.load_live (s : ElementSet τ) (ms : List Message) :
    ElementSet.load s ms = ElementSet.load s (ms.filter Message.isLive) := by
  induction ms generalizing s with
  | nil => rfl
  | cons m ms ih =>
      by_cases dead : m.deleted = some true
      · rw [ElementSet.load, if_pos dead,
          List.filter_cons_of_neg (by simp [Message.isLive, dead])]
        exact ih s
      · rw [List.filter_cons_of_pos (by simpa [Message.isLive] using dead), ElementSet.load,
          ElementSet.load, if_neg dead, if_neg dead]
        simp only [ih]

/-- Elements that were loaded have distinct ids, which the set did not have before. -/
theorem ElementSet.ids_of_load (live : ∀ m ∈ ms, m.deleted ≠ some true)
    (h : ElementSet.load s ms = .ok s') :
    (ms.map Message.id).Nodup ∧ ∀ m ∈ ms, s.find? m.id = none := by
  induction ms generalizing s with
  | nil => exact ⟨List.nodup_nil, nofun⟩
  | cons m ms ih =>
      obtain ⟨position, record, after, -, decoded, added, h⟩ :=
        (load_cons_eq_ok (live m List.mem_cons_self)).mp h
      obtain ⟨distinct, fresh⟩ := ih (fun c hc => live c (List.mem_cons_of_mem m hc)) h
      have hid := Record.ofMessage_id decoded
      have apart : ∀ c ∈ ms, c.id ≠ m.id ∧ s.find? c.id = none := by
        intro c hc
        have there := fresh c hc
        rw [find?_addLoaded added, hid] at there
        split_ifs at there with same
        exact ⟨fun e => same e.symm, there⟩
      refine ⟨List.nodup_cons.mpr ⟨?_, distinct⟩, List.forall_mem_cons.mpr ⟨?_, ?_⟩⟩
      · intro shared
        obtain ⟨c, hc, same⟩ := List.mem_map.mp shared
        exact (apart c hc).1 same
      · exact hid ▸ (addLoaded_eq_ok.mp added).1
      · exact fun c hc => (apart c hc).2

theorem ElementSet.places_of_load (ordered : s.decl.kind = .ordered)
    (live : ∀ m ∈ ms, m.deleted ≠ some true) (h : ElementSet.load s ms = .ok s') :
    ∀ m ∈ ms, ∃ p, m.position = some p ∧ 0 ≤ p := by
  induction ms generalizing s with
  | nil => exact nofun
  | cons m ms ih =>
      obtain ⟨position, record, after, placed, -, added, h⟩ :=
        (load_cons_eq_ok (live m List.mem_cons_self)).mp h
      have decl : after.decl = s.decl := (addLoaded_eq_ok.mp added).2 ▸ rfl
      have rest := ih (decl ▸ ordered) (fun c hc => live c (List.mem_cons_of_mem m hc)) h
      refine List.forall_mem_cons.mpr ⟨?_, rest⟩
      obtain ⟨given, nonneg, -⟩ := (placeFor_ordered ordered).mp placed
      exact ⟨position, given, nonneg⟩

/-- A set is loaded from elements that fit together and describe records. -/
theorem ElementSet.load_iff_fits {decl : SetDecl τ}
    (live : ∀ m ∈ ms, m.deleted ≠ some true) :
    (∃ s, ElementSet.load (.blank decl) ms = .ok s) ↔
      decl.Fits ms ∧ ∀ m ∈ ms, ∃ r, Record.ofMessage decl.element m = .ok r := by
  constructor
  · rintro ⟨s, loaded⟩
    have distinct := (ids_of_load live loaded).1
    have placed : decl.kind = .ordered → _ := fun ordered =>
      places_of_load (s := .blank decl) ordered live loaded
    obtain ⟨decoded, spread⟩ := (load_succeeds_iff live distinct placed).mp ⟨s, loaded⟩
    exact ⟨⟨distinct, placed, spread⟩, decoded⟩
  · rintro ⟨fits, decoded⟩
    exact (load_succeeds_iff live fits.distinct fits.placed).mpr ⟨decoded, fits.spread⟩

theorem Message.live_of_liveOf {c : Message} {set : String} (h : c ∈ m.liveOf set) :
    c.deleted ≠ some true := by
  simpa [Message.isLive] using (List.mem_filter.mp h).2

theorem Message.mem_of_liveOf {c : Message} {set : String} (h : c ∈ m.liveOf set) :
    c ∈ m.childrenOf set :=
  (List.mem_filter.mp h).1

theorem ElementSet.loads_iff_fits {decl : SetDecl τ} :
    (∃ s, ElementSet.load (.blank decl) (m.childrenOf decl.name) = .ok s) ↔
      decl.Fits (m.liveOf decl.name) ∧
        ∀ c ∈ m.liveOf decl.name, ∃ r, Record.ofMessage decl.element c = .ok r := by
  rw [load_live]
  exact load_iff_fits (fun c hc => Message.live_of_liveOf hc)

/-- A record is decoded from the messages that describe one. -/
theorem Record.decodes_iff_acceptable (m : Message) :
    ∀ type : τ, (∃ r, Record.ofMessage type m = .ok r) ↔ m.Acceptable type := by
  induction m using Message.childrenOf_induction with
  | step m ih =>
      intro type
      have fields : ∀ decl : FieldDecl, (∃ f, Field.ofFields m.fields decl = .ok f) ↔
          decl.kind.Accepts (m.field? decl.name) = true := by
        intro decl
        simp only [Field.ofFields_iff, exists_and_left, exists_eq, and_true]
      have inner : ∀ decl : SetDecl τ, ∀ c ∈ m.liveOf decl.name,
          (∃ r, Record.ofMessage decl.element c = .ok r) ↔ c.Acceptable decl.element := by
        intro decl c hc
        exact ih decl.name c (Message.mem_of_liveOf hc) decl.element
      rw [Record.ofMessage_succeeds_iff]
      simp only [fields, ElementSet.loads_iff_fits]
      constructor
      · rintro ⟨accepts, loads⟩
        exact .intro accepts (fun decl hdecl => (loads decl hdecl).1)
          (fun decl hdecl c hc => (inner decl c hc).mp ((loads decl hdecl).2 c hc))
      · rintro ⟨accepts, fits, children⟩
        exact ⟨accepts, fun decl hdecl => ⟨fits decl hdecl,
          fun c hc => (inner decl c hc).mpr (children decl hdecl c hc)⟩⟩

end Acceptance

section Order

variable {s after : ElementSet τ} {record : Record τ} {position : Int}

theorem ElementSet.mem_addLoaded (sorted : SortedList.Sorted Element.id s.elements)
    (added : s.addLoaded record position = .ok after) {e : Element τ} :
    e ∈ after.elements ↔ e = .loaded record position ∨ e ∈ s.elements := by
  obtain ⟨fresh, rfl⟩ := addLoaded_eq_ok.mp added
  have apart := SortedList.find?_eq_none_iff.mp fresh
  show e ∈ SortedList.insert Element.id (.loaded record position) s.elements ↔ _
  rw [SortedList.mem_insert sorted]
  exact or_congr_right ⟨And.left, fun he => ⟨he, apart e he⟩⟩

/-- An element that was loaded takes its position and no other. -/
theorem ElementSet.placeFor_addLoaded (sorted : SortedList.Sorted Element.id s.elements)
    (added : s.addLoaded record position = .ok after) {id : Int}
    {given : Option Int} {p : Int} : after.placeFor id given = .ok p ↔
      s.placeFor id given = .ok p ∧ (s.decl.kind = .ordered → p ≠ position) := by
  have kind : after.decl.kind = s.decl.kind := (addLoaded_eq_ok.mp added).2 ▸ rfl
  cases hk : s.decl.kind with
  | unordered => simp [placeFor_unordered hk, placeFor_unordered (kind.trans hk)]
  | ordered =>
      rw [placeFor_ordered hk, placeFor_ordered (kind.trans hk)]
      simp only [mem_addLoaded sorted added, forall_eq_or_imp]
      show _ ∧ _ ∧ position ≠ p ∧ _ ↔ _
      grind

/-- Two elements can be added in either order. -/
theorem ElementSet.addLoaded_comm {s₁ s₂ : ElementSet τ} {a b : Record τ} {p q : Int}
    (sorted : SortedList.Sorted Element.id s.elements) (first : s.addLoaded b q = .ok s₁)
    (second : s₁.addLoaded a p = .ok s₂) :
    ∃ s₁', s.addLoaded a p = .ok s₁' ∧ s₁'.addLoaded b q = .ok s₂ := by
  obtain ⟨freshB, rfl⟩ := addLoaded_eq_ok.mp first
  obtain ⟨freshA, rfl⟩ := addLoaded_eq_ok.mp second
  rw [find?_addLoaded first] at freshA
  split_ifs at freshA with same
  have added : s.addLoaded a p = .ok _ := addLoaded_eq_ok.mpr ⟨freshA, rfl⟩
  refine ⟨_, added, addLoaded_eq_ok.mpr ⟨?_, ?_⟩⟩
  · rw [find?_addLoaded added, if_neg (Ne.symm same), freshB]
  · have elements : SortedList.insert Element.id (.loaded a p)
        (SortedList.insert Element.id (.loaded b q) s.elements) =
          SortedList.insert Element.id (.loaded b q)
            (SortedList.insert Element.id (.loaded a p) s.elements) := by
      refine SortedList.ext_find? ((sorted.insert _).insert _) ((sorted.insert _).insert _) ?_
      intro id
      simp only [SortedList.find?_insert]
      show (if a.id = id then _ else if b.id = id then _ else _) =
        if b.id = id then _ else if a.id = id then _ else _
      grind
    simp only [insert, elements, max_right_comm s.nextPosition]

variable [Catalog τ]

/-- The order in which elements are loaded is not seen in the set. -/
theorem ElementSet.load_perm {s' : ElementSet τ} {ms ms' : List Message}
    (perm : ms.Perm ms') (sorted : SortedList.Sorted Element.id s.elements)
    (live : ∀ m ∈ ms, m.deleted ≠ some true) (h : ElementSet.load s ms = .ok s') :
    ElementSet.load s ms' = .ok s' := by
  have stays : ∀ {s after : ElementSet τ} {record position},
      SortedList.Sorted Element.id s.elements → s.addLoaded record position = .ok after →
        SortedList.Sorted Element.id after.elements := by
    intro s after record position sorted added
    obtain ⟨-, rfl⟩ := addLoaded_eq_ok.mp added
    exact sorted.insert _
  induction perm generalizing s with
  | nil => exact h
  | @cons m ms ms' _ ih =>
      have first := live m List.mem_cons_self
      obtain ⟨position, record, after, placed, decoded, added, h⟩ :=
        (load_cons_eq_ok first).mp h
      have rest := ih (stays sorted added) (fun c hc => live c (List.mem_cons_of_mem m hc)) h
      exact (load_cons_eq_ok first).mpr ⟨position, record, after, placed, decoded, added, rest⟩
  | swap a b ms =>
      have liveA := live a (by simp)
      have liveB := live b (by simp)
      obtain ⟨q, rb, s₁, placedB, decodedB, addedB, h⟩ := (load_cons_eq_ok liveB).mp h
      obtain ⟨p, ra, s₂, placedA, decodedA, addedA, h⟩ := (load_cons_eq_ok liveA).mp h
      have decl : s₁.decl = s.decl := (addLoaded_eq_ok.mp addedB).2 ▸ rfl
      obtain ⟨placedA, apart⟩ := (placeFor_addLoaded sorted addedB).mp placedA
      obtain ⟨s₁', addedA, addedB⟩ := addLoaded_comm sorted addedB addedA
      have decl' : s₁'.decl = s.decl := (addLoaded_eq_ok.mp addedA).2 ▸ rfl
      refine (load_cons_eq_ok liveA).mpr ⟨p, ra, s₁', placedA, decl ▸ decodedA, addedA, ?_⟩
      refine (load_cons_eq_ok liveB).mpr ⟨q, rb, s₂, ?_, decl' ▸ decodedB, addedB, h⟩
      exact (placeFor_addLoaded sorted addedA).mpr
        ⟨placedB, fun ordered => (apart ordered).symm⟩
  | trans first second ihFirst ihSecond =>
      exact ihSecond sorted (fun m hm => live m (first.mem_iff.mpr hm))
        (ihFirst sorted live h)

/-- Elements are loaded alike from messages that place and describe them alike. -/
theorem ElementSet.load_map {s' : ElementSet τ} {ms : List Message}
    {f : Message → Message}
    (live : ∀ m ∈ ms, m.deleted ≠ some true ∧ (f m).deleted ≠ some true)
    (positions : s.decl.kind = .ordered → ∀ m ∈ ms, (f m).position = m.position)
    (decoded : ∀ m ∈ ms, ∀ r, Record.ofMessage s.decl.element m = .ok r →
      Record.ofMessage s.decl.element (f m) = .ok r)
    (h : ElementSet.load s ms = .ok s') : ElementSet.load s (ms.map f) = .ok s' := by
  induction ms generalizing s with
  | nil => exact h
  | cons m ms ih =>
      simp only [List.forall_mem_cons] at live positions decoded
      obtain ⟨position, record, after, placed, own, added, h⟩ :=
        (load_cons_eq_ok live.1.1).mp h
      have decl : after.decl = s.decl := (addLoaded_eq_ok.mp added).2 ▸ rfl
      refine (load_cons_eq_ok live.1.2).mpr
        ⟨position, record, after, ?_, decoded.1 record own, added, ?_⟩
      · cases hk : s.decl.kind with
        | unordered =>
            rw [placeFor_unordered hk] at placed ⊢
            exact placed
        | ordered =>
            rw [placeFor_ordered hk] at placed ⊢
            exact ⟨(positions hk).1.trans placed.1, placed.2⟩
      · refine ih live.2 (fun ordered => (positions (decl ▸ ordered)).2) ?_ h
        rw [decl]
        exact decoded.2

end Order

section Normal

/-- The sort key of an element in the normal form: its position in an ordered set, else
its id. -/
def SetKind.rank (kind : SetKind) (m : Message) : Int :=
  match kind with
  | .ordered => m.position.getD absentPosition
  | .unordered => m.id

/-- The elements of a set that fit together have sort keys of their own. -/
theorem SetDecl.Fits.rank_inj {decl : SetDecl τ} {ms : List Message} (h : decl.Fits ms)
    {a b : Message} (ha : a ∈ ms) (hb : b ∈ ms)
    (same : decl.kind.rank a = decl.kind.rank b) : a = b := by
  rw [SetKind.rank.eq_def, SetKind.rank.eq_def] at same
  cases kind : decl.kind with
  | unordered =>
      rw [kind] at same
      exact List.inj_on_of_nodup_map h.distinct ha hb same
  | ordered =>
      rw [kind] at same
      obtain ⟨p, givenA, -⟩ := h.placed kind a ha
      obtain ⟨q, givenB, -⟩ := h.placed kind b hb
      rw [givenA, givenB] at same
      by_contra apart
      have spread := List.pairwise_filterMap.mp (h.spread kind)
      have : Std.Symm (fun a b : Message =>
          ∀ p, a.position = some p → ∀ q, b.position = some q → p ≠ q) :=
        ⟨fun a b differ p hp q hq e => differ q hq p hp e.symm⟩
      exact spread.forall ha hb apart p givenA q givenB same

variable [Catalog τ]

mutual

/-- The normal form of a message of a record of a type. -/
def Message.normal (type : τ) : Message → Message
  | ⟨id, fields, children, _, _, _⟩ =>
    ⟨id,
      messageFields ((Catalog.fields type).map (fun decl => (decl.name,
        decl.kind.content ((SortedList.find? Prod.fst decl.name fields).map Prod.snd)))),
      messageGroups ((Catalog.sets type).map (fun decl => ⟨decl.name,
        placedMessages decl.kind (normalGroup decl children)⟩)),
      none, none, none⟩

/-- The normal forms of the elements of a set, with their sort keys. -/
def normalGroup (decl : SetDecl τ) : List Group → List (Int × Message)
  | [] => []
  | ⟨name, members⟩ :: rest =>
    if name = decl.name then normalMembers decl members else normalGroup decl rest

def normalMembers (decl : SetDecl τ) : List Message → List (Int × Message)
  | [] => []
  | message :: rest =>
    if message.deleted = some true then normalMembers decl rest
    else (decl.kind.rank message, Message.normal decl.element message) :: normalMembers
      decl rest

end

/-- The normal form of an element with its sort key. -/
def SetDecl.ranked (decl : SetDecl τ) (m : Message) : Int × Message :=
  (decl.kind.rank m, m.normal decl.element)

theorem normalMembers_eq (decl : SetDecl τ) (ms : List Message) :
    normalMembers decl ms = (ms.filter Message.isLive).map decl.ranked := by
  induction ms with
  | nil => rfl
  | cons m ms ih =>
      by_cases dead : m.deleted = some true
      · rw [normalMembers, if_pos dead,
          List.filter_cons_of_neg (by simp [Message.isLive, dead]), ih]
      · rw [normalMembers, if_neg dead,
          List.filter_cons_of_pos (by simpa [Message.isLive] using dead),
          List.map_cons, ih]
        rfl

theorem normalGroup_eq (decl : SetDecl τ) (m : Message) :
    normalGroup decl m.children = (m.liveOf decl.name).map decl.ranked := by
  rw [Message.liveOf, Message.childrenOf]
  induction m.children with
  | nil => rw [normalGroup]; rfl
  | cons g groups ih =>
      obtain ⟨name, members⟩ := g
      rw [normalGroup, SortedList.find?_cons]
      by_cases h : name = decl.name
      · simp [h, normalMembers_eq]
      · simpa [h] using ih

/-- The elements of a set in the normal form. -/
def SetDecl.normal (decl : SetDecl τ) (m : Message) : List Message :=
  placedMessages decl.kind ((m.liveOf decl.name).map decl.ranked)

theorem Message.normal_eq (type : τ) (m : Message) :
    m.normal type =
      ⟨m.id,
        messageFields ((Catalog.fields type).map (fun decl =>
          (decl.name, decl.kind.content (m.field? decl.name)))),
        messageGroups ((Catalog.sets type).map (fun decl => ⟨decl.name, decl.normal m⟩)),
        none, none, none⟩ := by
  simp only [SetDecl.normal, ← normalGroup_eq]
  obtain ⟨id, fields, children, position, swapPosition, deleted⟩ := m
  rw [Message.normal]
  rfl

variable {type : τ} {m : Message}

theorem Message.field?_normal {decl : FieldDecl} (h : decl ∈ Catalog.fields type) :
    (m.normal type).field? decl.name = some (decl.kind.content (m.field? decl.name)) := by
  have keys : (((Catalog.fields type).map (fun decl =>
      (decl.name, decl.kind.content (m.field? decl.name)))).map Prod.fst).Nodup := by
    rw [List.map_map]
    exact nodup_field_names type
  have found := SortedList.find?_of_mem keys (List.mem_map_of_mem h)
  rw [Message.field?, Message.normal_eq, messageFields, SortedList.find?_ofList keys, found]
  rfl

theorem Message.childrenOf_normal {decl : SetDecl τ} (h : decl ∈ Catalog.sets type) :
    (m.normal type).childrenOf decl.name = decl.normal m := by
  have grouped := childrenOf_messageGroups (nodup_set_names type)
    (congrArg Message.children (m.normal_eq type)) decl.name
  rw [grouped, SortedList.find?_of_mem (nodup_set_names type) h]
  rfl

end Normal

section Decoded

variable {s s' : ElementSet τ} {ms : List Message}

/-- The sort key of an element in the normal form. -/
def Element.rank (kind : SetKind) (e : Element τ) : Int :=
  match kind with
  | .ordered => e.position.current
  | .unordered => e.id

/-- The message of an element that the user sees, with that sort key. -/
def Element.ranked? (kind : SetKind) (e : Element τ) : Option (Int × Message) :=
  if e.isPresent kind then some (e.rank kind, e.record.localMessage) else none

/-- In a set without positions the elements that the user sees stand in the order of their
ids. -/
theorem ElementSet.localMessages_eq_ranked
    (sorted : SortedList.Sorted Element.id s.elements) : s.localMessages =
      placedMessages s.decl.kind (s.elements.filterMap (Element.ranked? s.decl.kind)) := by
  rw [localMessages_eq]
  cases s.decl.kind with
  | ordered => rfl
  | unordered =>
      have level : (s.elements.filterMap (Element.local? .unordered)).Pairwise
          (fun x y => x.1 ≤ y.1) := by
        refine List.pairwise_of_forall_mem_list (fun x hx y hy => ?_)
        have zero : ∀ z ∈ s.elements.filterMap (Element.local? .unordered), z.1 = 0 := by
          intro z hz
          obtain ⟨e, -, shown⟩ := List.mem_filterMap.mp hz
          rw [Element.local?] at shown
          split_ifs at shown
          exact (congrArg Prod.fst (Option.some.inj shown)).symm
        rw [zero x hx, zero y hy]
      have rising : SortedList.Sorted Prod.fst
          (s.elements.filterMap (Element.ranked? .unordered)) := by
        refine sorted.filterMap (fun e _ x hx => ?_)
        rw [Element.ranked?] at hx
        split_ifs at hx
        exact (congrArg Prod.fst (Option.some.inj hx)).symm
      rw [placedMessages_eq, placedMessages_eq, SortedList.sortOn_of_pairwise level,
        SortedList.sortOn_of_pairwise (rising.imp le_of_lt)]
      show List.map Prod.snd _ = List.map Prod.snd _
      rw [List.map_filterMap, List.map_filterMap]
      refine List.filterMap_congr (fun e _ => ?_)
      rw [Element.local?, Element.ranked?]
      split_ifs <;> rfl

variable [Catalog τ]

/-- An element that is loaded is seen as the normal form of its message. -/
theorem Element.ranked?_loaded {m : Message} {record : Record τ} {position : Int}
    (placed : s.placeFor m.id m.position = .ok position)
    (decoded : Record.ofMessage s.decl.element m = .ok record)
    (message : record.localMessage = m.normal s.decl.element) :
    Element.ranked? s.decl.kind (.loaded record position) = some (s.decl.ranked m) := by
  rw [SetDecl.ranked, ← message]
  cases kind : s.decl.kind with
  | unordered =>
      show some (record.id, record.localMessage) = some (m.id, record.localMessage)
      rw [Record.ofMessage_id decoded]
  | ordered =>
      obtain ⟨given, nonneg, -⟩ := (ElementSet.placeFor_ordered kind).mp placed
      have present : (loaded record position).isPresent .ordered = true := by
        have absent : position ≠ -1 := by omega
        exact decide_eq_true absent
      rw [ranked?, if_pos present]
      show some (position, record.localMessage) =
        some (m.position.getD absentPosition, record.localMessage)
      rw [given, Option.getD_some]

/-- The elements of a set that was loaded are seen as the normal forms of their
messages. -/
theorem ElementSet.ranked_of_load (sorted : SortedList.Sorted Element.id s.elements)
    (live : ∀ m ∈ ms, m.deleted ≠ some true)
    (inner : ∀ m ∈ ms, ∀ r, Record.ofMessage s.decl.element m = .ok r →
      r.localMessage = m.normal s.decl.element)
    (h : ElementSet.load s ms = .ok s') :
    (s'.elements.filterMap (Element.ranked? s.decl.kind)).Perm
      (s.elements.filterMap (Element.ranked? s.decl.kind) ++ ms.map s.decl.ranked) := by
  induction ms generalizing s with
  | nil =>
      rw [ElementSet.load] at h
      cases h
      simp
  | cons m ms ih =>
      obtain ⟨position, record, after, placed, decoded, added, h⟩ :=
        (load_cons_eq_ok (live m List.mem_cons_self)).mp h
      have own := Element.ranked?_loaded placed decoded
        (inner m List.mem_cons_self record decoded)
      obtain ⟨fresh, made⟩ := addLoaded_eq_ok.mp added
      have decl : after.decl = s.decl := made ▸ rfl
      have elements : after.elements =
          SortedList.insert Element.id (.loaded record position) s.elements := made ▸ rfl
      have rest := ih (elements ▸ sorted.insert _)
        (fun c hc => live c (List.mem_cons_of_mem m hc))
        (decl ▸ fun c hc => inner c (List.mem_cons_of_mem m hc)) h
      rw [decl, elements] at rest
      have inserted :
          (SortedList.insert Element.id (.loaded record position) s.elements).Perm
          (.loaded record position :: s.elements) := by
        have perm :=
          SortedList.insert_perm Element.id (Element.loaded record position) sorted
        rwa [SortedList.erase_of_find?_eq_none (k := Element.id (.loaded record position))
          fresh] at perm
      have first := inserted.filterMap (Element.ranked? s.decl.kind)
      rw [List.filterMap_cons_some own] at first
      rw [List.map_cons]
      exact rest.trans ((first.append_right _).trans List.perm_middle.symm)

/-- The user sees of a set that was loaded the normal form of its elements. -/
theorem ElementSet.localMessages_of_load {decl : SetDecl τ} {m : Message}
    (inner : ∀ c ∈ m.liveOf decl.name, ∀ r, Record.ofMessage decl.element c = .ok r →
      r.localMessage = c.normal decl.element)
    (h : ElementSet.load (.blank decl) (m.childrenOf decl.name) = .ok s) :
    s.localMessages = decl.normal m := by
  have kind : s.decl = decl := decl_of_load h
  have fits := (loads_iff_fits.mp ⟨s, h⟩).1
  have loaded := ((Loaded.blank decl).load (fun c _ => Record.made_of_ofMessage c) h).1
  rw [load_live] at h
  have perm := ranked_of_load (s := .blank decl) List.Pairwise.nil
    (fun c hc => Message.live_of_liveOf hc) inner h
  rw [localMessages_eq_ranked loaded.sorted, kind, SetDecl.normal, placedMessages_eq,
    placedMessages_eq]
  congr 1
  refine (SortedList.sortOn_eq_of_perm perm.symm ?_).symm
  intro x hx y hy same
  obtain ⟨a, ha, rfl⟩ := List.mem_map.mp hx
  obtain ⟨b, hb, rfl⟩ := List.mem_map.mp hy
  rw [fits.rank_inj ha hb same]

/-- The user sees of a record that was decoded the normal form of its message. -/
theorem Record.localMessage_of_ofMessage (m : Message) :
    ∀ (type : τ) r, Record.ofMessage type m = .ok r → r.localMessage = m.normal type := by
  induction m using Message.childrenOf_induction with
  | step m ih =>
      intro type r h
      obtain ⟨own, sets, ⟨hf, fields⟩, ⟨hs, loads⟩, rfl⟩ := Record.ofMessage_eq_ok.mp h
      have values : own.map (fun f => (f.name, f.value.current)) =
          (Catalog.fields type).map (fun decl =>
            (decl.name, decl.kind.content (m.field? decl.name))) := by
        rw [← hf, List.map_map]
        refine List.map_congr_left (fun f hf => ?_)
        rw [(Field.ofFields_iff.mp (fields f hf)).2]
        rfl
      have groups : sets.map (fun s => (⟨s.name, s.localMessages⟩ : Group)) =
          (Catalog.sets type).map (fun decl => ⟨decl.name, decl.normal m⟩) := by
        rw [← hs, List.map_map]
        refine List.map_congr_left (fun s hs => ?_)
        rw [ElementSet.localMessages_of_load _ (loads s hs)]
        · rfl
        · intro c hc
          exact ih s.name c (Message.mem_of_liveOf hc) s.decl.element
      rw [Record.localMessage_eq, Message.normal_eq, values, groups]

/-- The set that is loaded from elements is loaded from their normal forms too. -/
theorem ElementSet.load_normal {decl : SetDecl τ} {m : Message}
    (inner : ∀ c ∈ m.liveOf decl.name, ∀ r, Record.ofMessage decl.element c = .ok r →
      Record.ofMessage decl.element (c.normal decl.element) = .ok r)
    (h : ElementSet.load (.blank decl) (m.childrenOf decl.name) = .ok s) :
    ElementSet.load (.blank decl) (decl.normal m) = .ok s := by
  have fits := (loads_iff_fits.mp ⟨s, h⟩).1
  rw [load_live] at h
  have live : ∀ x, (placed decl.kind (decl.ranked x)).deleted ≠ some true := by
    intro x
    rw [placed_deleted, SetDecl.ranked, Message.normal_eq]
    exact nofun
  have mapped := load_map (s := .blank decl) (f := fun c => placed decl.kind (decl.ranked c))
    (fun c hc => ⟨Message.live_of_liveOf hc, live c⟩) ?_ ?_ h
  · have perm : ((m.liveOf decl.name).map (fun c => placed decl.kind (decl.ranked c))).Perm
        (decl.normal m) := by
      rw [SetDecl.normal, placedMessages_eq]
      have sorted :
          (SortedList.sortOn Prod.fst ((m.liveOf decl.name).map decl.ranked)).Perm _ :=
        SortedList.sortOn_perm _
      have shown := sorted.symm.map (placed decl.kind)
      rwa [List.map_map] at shown
    refine load_perm perm List.Pairwise.nil (fun x hx => ?_) mapped
    obtain ⟨c, -, rfl⟩ := List.mem_map.mp hx
    exact live c
  · intro ordered c hc
    have ordered : decl.kind = .ordered := ordered
    obtain ⟨p, given, -⟩ := fits.placed ordered c hc
    rw [ordered, given]
    show some (decl.kind.rank c) = some p
    rw [ordered]
    show some (c.position.getD absentPosition) = some p
    rw [given, Option.getD_some]
  · intro c hc r decoded
    rw [ofMessage_placed]
    exact inner c hc r decoded

/-- The record that is decoded from a message is decoded from its normal form too. -/
theorem Record.ofMessage_normal (m : Message) :
    ∀ (type : τ) r, Record.ofMessage type m = .ok r →
      Record.ofMessage type (m.normal type) = .ok r := by
  induction m using Message.childrenOf_induction with
  | step m ih =>
      intro type r h
      obtain ⟨own, sets, ⟨hf, fields⟩, ⟨hs, loads⟩, rfl⟩ := Record.ofMessage_eq_ok.mp h
      refine Record.ofMessage_eq_ok.mpr
        ⟨own, sets, ⟨hf, fun f hfo => ?_⟩, ⟨hs, fun s hso => ?_⟩, ?_⟩
      · obtain ⟨accepts, made⟩ := Field.ofFields_iff.mp (fields f hfo)
        have declared : f.decl ∈ Catalog.fields type := hf ▸ List.mem_map_of_mem hfo
        have again := FieldKind.read_eq_ok.mp (FieldKind.read_content f.decl.name accepts)
        rw [Field.ofFields_iff, Message.field?_normal declared, again.2]
        exact ⟨again.1, made⟩
      · have declared : s.decl ∈ Catalog.sets type := hs ▸ List.mem_map_of_mem hso
        rw [Message.childrenOf_normal declared]
        refine ElementSet.load_normal (fun c hc => ?_) (loads s hso)
        exact ih s.name c (Message.mem_of_liveOf hc) s.decl.element
      · rw [Message.normal_eq]

/-- A record is decoded from a message iff the message describes one.  The record is
clean, both of its sides are the normal form of the message, and it is decoded from the
normal form again, which is its own normal form. -/
theorem Record.decodes_to_normal_form (type : τ) (m : Message) :
    ((∃ r, Record.ofMessage type m = .ok r) ↔ m.Acceptable type) ∧
    ∀ r, Record.ofMessage type m = .ok r →
      r.dirty = 0 ∧ r.localMessage = m.normal type ∧ r.remoteMessage = m.normal type ∧
      Record.ofMessage type (m.normal type) = .ok r ∧
      (m.normal type).normal type = m.normal type := by
  refine ⟨Record.decodes_iff_acceptable m type, fun r h => ?_⟩
  have made := Record.made_of_ofMessage m type r h
  have seen := Record.localMessage_of_ofMessage m type r h
  have again := Record.ofMessage_normal m type r h
  refine ⟨made.clean, seen, ?_, again, ?_⟩
  · rw [← made.sound.localMessage_of_clean made.clean, seen]
  · rw [← Record.localMessage_of_ofMessage _ type r again, seen]

/-- A probe whose ratio is an integer and whose note is null, with a field that no probe
has, and with elements out of order, of which one is marked as deleted. -/
def looseProbe : Message :=
  ⟨7, [("note", .null), ("ratio", .integer 2), ("title", .text "probe")],
    [⟨"kims", [(Message.blank 4).withPosition 3,
        { Message.blank 5 with position := some 3, deleted := some true },
        (Message.blank 6).withPosition 1]⟩,
      ⟨"tasks", [Message.blank 9, Message.blank 8]⟩],
    some 2, none, some false⟩

/-- The probe is decoded to its normal form. -/
theorem Record.normal_form_of_loose_probe :
    ∃ r, Record.ofMessage Entity.probe looseProbe = .ok r ∧
      looseProbe.Acceptable Entity.probe ∧
      r.localMessage = looseProbe.normal Entity.probe ∧
      r.localMessage.field? "ratio" = some (.real (Binary64.ofInt 2)) ∧
      r.localMessage.field? "note" = some (.text "") ∧
      r.localMessage.field? "title" = none ∧
      (r.localMessage.childrenOf "kims").map (fun c => (c.id, c.position)) =
        [(6, some 1), (4, some 3)] ∧
      (r.localMessage.childrenOf "tasks").map Message.id = [8, 9] := by
  have holds := Record.decodes_to_normal_form Entity.probe looseProbe
  obtain ⟨r, decoded⟩ : ∃ r, Record.ofMessage Entity.probe looseProbe = .ok r := ⟨_, rfl⟩
  have seen := (holds.2 r decoded).2.1
  refine ⟨r, decoded, holds.1.mp ⟨r, decoded⟩, seen, ?_⟩
  rw [seen]
  exact ⟨rfl, rfl, rfl, rfl, rfl⟩

end Decoded
end RecordSync
