import RecordSync.Proofs.Record.Decoding
import RecordSync.Proofs.Store.Contents

/-!
# Typed trees

A patch fits a type if each field that it names and the type declares is given a value of
its kind, and no element of an ordered set is marked as deleted or as present: it comes
and goes by its position.  A store that is given none but such patches holds typed trees,
whatever it refused and in whatever state the senders thought it to be: an element of an
ordered set is never made without a position, and what the store checks by itself does the
rest.

**Results.**
* `Node.applyRecord_typed`: a patch that fits a type leaves a tree of the type.
* `Message.WellFormed.decodes`: a well-formed message describes a record.
* `Store.Fed.loads`: what is loaded from a store that was given none but fitting patches
  is well-formed.
-/

namespace RecordSync

variable {τ : Type} [Catalog τ]

/-- The fields that a type declares have values of their kinds. -/
def SuitFields (type : τ) (fields : List (String × Value)) : Prop :=
  ∀ decl ∈ Catalog.fields type, ∀ x ∈ fields, x.1 = decl.name → decl.kind.Holds x.2 = true

section Messages

/-- A patch for a record of a type. -/
inductive Message.Fits : τ → Message → Prop
  | intro {type : τ} {m : Message} :
      SuitFields type m.fields →
      (∀ decl ∈ Catalog.sets type, ∀ g ∈ m.children, g.name = decl.name →
        ∀ c ∈ g.members, decl.kind = .ordered → c.deleted = none) →
      (∀ decl ∈ Catalog.sets type, ∀ g ∈ m.children, g.name = decl.name →
        ∀ c ∈ g.members, Fits decl.element c) →
      Fits type m

/-- A patch for an element of a set. -/
def Message.FitsIn (decl : SetDecl τ) (c : Message) : Prop :=
  (decl.kind = .ordered → c.deleted = none) ∧ c.Fits decl.element

theorem Message.Fits.congr {type : τ} {m m' : Message} (h : m.Fits type)
    (fields : m'.fields = m.fields) (children : m'.children = m.children) :
    m'.Fits type := by
  obtain ⟨suit, unmarked, inner⟩ := h
  exact .intro (fields ▸ suit) (children ▸ unmarked) (children ▸ inner)

theorem Message.fits_blank (type : τ) (id : Int) : (Message.blank id).Fits type :=
  .intro (fun _ _ _ hx => absurd hx List.not_mem_nil)
    (fun _ _ _ hg => absurd hg List.not_mem_nil) (fun _ _ _ hg => absurd hg List.not_mem_nil)

/-- Whether a patch fits does not depend on the strings of bytes in it. -/
theorem Message.Fits.mapBytes {type : τ} {m : Message} (h : m.Fits type)
    (f : Bytes → Bytes) : (m.mapBytes f).Fits type := by
  induction h with
  | @intro type m fields unmarked _ ih =>
      refine .intro ?_ ?_ ?_
      · intro decl hd x hx name
        rw [mapBytes_fields] at hx
        obtain ⟨y, hy, rfl⟩ := List.mem_map.mp hx
        exact (decl.kind.holds_mapBytes f y.2).trans (fields decl hd y hy name)
      · intro decl hd g hg name c hc ordered
        rw [mapBytes_children] at hg
        obtain ⟨g', hg', rfl⟩ := List.mem_map.mp hg
        obtain ⟨c', hc', rfl⟩ := List.mem_map.mp hc
        rw [mapBytes_deleted]
        exact unmarked decl hd g' hg' name c' hc' ordered
      · intro decl hd g hg name c hc
        rw [mapBytes_children] at hg
        obtain ⟨g', hg', rfl⟩ := List.mem_map.mp hg
        obtain ⟨c', hc', rfl⟩ := List.mem_map.mp hc
        exact ih decl hd g' hg' name c' hc'

end Messages

namespace Node

/-- A tree of a type: its fields suit the type, and the elements of ordered sets have
positions. -/
inductive Typed : τ → Node → Prop
  | intro {type : τ} {n : Node} :
      SuitFields type n.fields →
      (∀ decl ∈ Catalog.sets type, ∀ c ∈ n.children, c.1 = decl.name →
        decl.kind = .ordered → c.2.position ≠ none) →
      (∀ decl ∈ Catalog.sets type, ∀ c ∈ n.children, c.1 = decl.name →
        Typed decl.element c.2) →
      Typed type n

section Parts

variable {type : τ} {n n' : Node} {set : String} {id : Int}

theorem Typed.blank (type : τ) (id : Int) : (Node.blank id).Typed type :=
  .intro (fun _ _ _ hx => absurd hx List.not_mem_nil)
    (fun _ _ _ hc => absurd hc List.not_mem_nil) (fun _ _ _ hc => absurd hc List.not_mem_nil)

theorem Typed.congr (h : n.Typed type) (fields : n'.fields = n.fields)
    (children : n'.children = n.children) : n'.Typed type := by
  obtain ⟨suit, seated, inner⟩ := h
  exact .intro (fields ▸ suit) (children ▸ seated) (children ▸ inner)

theorem Typed.writeFields (h : n.Typed type) {fields : List (String × Value)}
    (suit : SuitFields type fields) : (n.writeFields fields).Typed type := by
  obtain ⟨before, seated, inner⟩ := h
  refine .intro ?_ seated inner
  intro decl hd x hx name
  rcases SortedList.mem_of_mem_foldl_insert hx with hx | hx
  · exact suit decl hd x hx name
  · exact before decl hd x hx name

theorem Typed.withChild (h : n.Typed type) {new : Option Node}
    (child : ∀ decl ∈ Catalog.sets type, set = decl.name → ∀ c, new = some c →
      (decl.kind = .ordered → c.position ≠ none) ∧ c.Typed decl.element) :
    (n.withChild set id new).Typed type := by
  obtain ⟨fields, seated, inner⟩ := h
  refine .intro ?_ ?_ ?_
  · cases new <;> exact fields
  · intro decl hd c hc name ordered
    rcases mem_withChild hc with hc | ⟨x, made, rfl⟩
    · exact seated decl hd c hc name ordered
    · exact (child decl hd name x made).1 ordered
  · intro decl hd c hc name
    rcases mem_withChild hc with hc | ⟨x, made, rfl⟩
    · exact inner decl hd c hc name
    · exact (child decl hd name x made).2

end Parts

section Apply

variable {old : Option Node}

omit [Catalog τ]

/-- An element that its message does not mark stays where it is or is moved; it is not
made by the way. -/
theorem place_seated {set : String} {id : Int} {position swapPosition : Option Int}
    {node : Node} (seated : ∀ n, old = some n → n.position ≠ none)
    (h : place set false id old position swapPosition none = .ok (some node)) :
    node.position ≠ none := by
  rcases place_cases h with ⟨gone, -⟩ | ⟨target, moved, -⟩ | ⟨stays, -, -, made⟩
  · cases gone
  · obtain rfl := Option.some.inj moved
    exact Option.some_ne_none target
  · obtain rfl := Option.some.inj stays
    cases old with
    | none => rcases made rfl with create | marked <;> contradiction
    | some n => exact seated n rfl

theorem applyRecord_seated {set : String} {m : Message} {new : Node}
    (proper : ∀ n, old = some n → n.Proper ∧ n.id = m.id) (unmarked : m.deleted = none)
    (seated : ∀ n, old = some n → n.position ≠ none)
    (h : applyRecord set false old m = .ok (some new)) : new.position ≠ none := by
  obtain ⟨node, placed, h⟩ := applyRecord_eq_ok h
  rw [unmarked] at placed
  cases node with
  | none => cases h
  | some node =>
      obtain ⟨n', written, e⟩ := h
      obtain rfl := Option.some.inj e
      obtain ⟨hp, -⟩ := place_proper proper placed
      obtain ⟨-, -, position, -⟩ :=
        applyGroups_proper m.children (hp.writeFields m.fields) written
      rw [position]
      show node.position ≠ none
      exact place_seated seated placed

variable [Catalog τ]

mutual

/-- A patch that fits a type leaves a tree of the type. -/
theorem applyRecord_typed {type : τ} {m : Message} {new : Node} (set : String)
    (mayCreate : Bool) (old : Option Node) (fits : m.Fits type)
    (proper : ∀ n, old = some n → n.Proper ∧ n.id = m.id)
    (typed : ∀ n, old = some n → n.Typed type)
    (h : applyRecord set mayCreate old m = .ok (some new)) : new.Typed type := by
  obtain ⟨id, fields, children, position, swapPosition, deleted⟩ := m
  obtain ⟨node, placed, h⟩ := applyRecord_eq_ok h
  obtain ⟨suit, unmarked, inner⟩ := fits
  cases node with
  | none => cases h
  | some node =>
      obtain ⟨n', written, e⟩ := h
      obtain rfl := Option.some.inj e
      have start : node.Typed type := by
        obtain ⟨q, rfl, -⟩ := place_eq_ok placed
        cases old with
        | none => exact (Typed.blank type id).congr rfl rfl
        | some n => exact (typed n rfl).congr rfl rfl
      obtain ⟨hp, -⟩ := place_proper proper placed
      refine applyGroups_typed children (hp.writeFields fields)
        (start.writeFields suit) ?_ written
      exact fun decl hd g hg name c hc =>
        ⟨unmarked decl hd g hg name c hc, inner decl hd g hg name c hc⟩

theorem applyGroups_typed {type : τ} {n n' : Node} (groups : List Group) (h : n.Proper)
    (typed : n.Typed type)
    (fits : ∀ decl ∈ Catalog.sets type, ∀ g ∈ groups, g.name = decl.name →
      ∀ c ∈ g.members, c.FitsIn decl)
    (ha : applyGroups n groups = .ok n') : n'.Typed type := by
  match groups with
  | [] =>
      cases ha
      exact typed
  | ⟨set, members⟩ :: rest =>
      obtain ⟨n₁, inner, checked, ha⟩ := applyGroups_cons ha
      obtain ⟨branches, others, -, hp, -⟩ :=
        applyMembers_branches set members h.branches inner
      have typed₁ := applyMembers_typed members h.branches typed
        (fun decl hd name => fits decl hd _ List.mem_cons_self name) inner
      exact applyGroups_typed rest (h.checked branches others hp checked) typed₁
        (fun decl hd g hg => fits decl hd g (List.mem_cons_of_mem _ hg)) ha

theorem applyMembers_typed {type : τ} {n n' : Node} {set : String}
    (members : List Message) (h : n.Branches) (typed : n.Typed type)
    (fits : ∀ decl ∈ Catalog.sets type, set = decl.name → ∀ c ∈ members, c.FitsIn decl)
    (ha : applyMembers n set members = .ok n') : n'.Typed type := by
  match members with
  | [] =>
      cases ha
      exact typed
  | m :: rest =>
      obtain ⟨new, inner, ha⟩ := applyMembers_cons ha
      have proper : ∀ c, n.child? set m.id = some c → c.Proper ∧ c.id = m.id :=
        fun c found => ⟨h.child? found, id_of_child? found⟩
      have there : ∀ c, n.child? set m.id = some c → (set, c) ∈ n.children :=
        fun c found => ((child?_eq_some h.keys).mp found).1
      refine applyMembers_typed rest (h.withChild (h.child_proper inner))
        (typed.withChild ?_)
        (fun decl hd name c hc => fits decl hd name c (List.mem_cons_of_mem _ hc)) ha
      rintro decl hd name c rfl
      obtain ⟨unmarked, fit⟩ := fits decl hd name m List.mem_cons_self
      obtain ⟨-, seated, nested⟩ := typed
      refine ⟨fun ordered => ?_, ?_⟩
      · exact applyRecord_seated proper (unmarked ordered)
          (fun c found => seated decl hd _ (there c found) name ordered) inner
      · exact applyRecord_typed set false _ fit proper
          (fun c found => nested decl hd _ (there c found) name) inner

end

end Apply

end Node

section WellFormed

/-- A whole record of a type as a message: each field has a value of its kind, the ids of
a set are distinct, none of its elements is marked as deleted, and in an ordered set each
has a position of its own that is not below zero. -/
inductive Message.WellFormed : τ → Message → Prop
  | intro {type : τ} {m : Message} :
      (∀ decl ∈ Catalog.fields type, ∀ value, m.field? decl.name = some value →
        decl.kind.Holds value = true) →
      (∀ decl ∈ Catalog.sets type, ((m.childrenOf decl.name).map Message.id).Nodup) →
      (∀ decl ∈ Catalog.sets type, ∀ c ∈ m.childrenOf decl.name, c.deleted ≠ some true) →
      (∀ decl ∈ Catalog.sets type, decl.kind = .ordered →
        ∀ c ∈ m.childrenOf decl.name, ∃ p, c.position = some p ∧ 0 ≤ p) →
      (∀ decl ∈ Catalog.sets type, decl.kind = .ordered →
        ((m.childrenOf decl.name).filterMap Message.position).Nodup) →
      (∀ decl ∈ Catalog.sets type, ∀ c ∈ m.childrenOf decl.name, WellFormed decl.element c) →
      WellFormed type m

variable {type : τ} {m m' : Message}

theorem Message.WellFormed.congr (h : m.WellFormed type) (fields : m'.fields = m.fields)
    (children : m'.children = m.children) : m'.WellFormed type := by
  have childrenOf : m'.childrenOf = m.childrenOf := by
    funext set
    rw [Message.childrenOf, children]
    rfl
  have field? : m'.field? = m.field? := by
    funext name
    rw [Message.field?, fields]
    rfl
  obtain ⟨typed, ids, live, placed, spread, inner⟩ := h
  exact .intro (field? ▸ typed) (childrenOf ▸ ids) (childrenOf ▸ live)
    (childrenOf ▸ placed) (childrenOf ▸ spread) (childrenOf ▸ inner)

/-- A well-formed message describes a record. -/
theorem Message.WellFormed.decodes (h : m.WellFormed type) :
    ∃ r, Record.ofMessage type m = .ok r := by
  induction h with
  | @intro type m typed ids live placed spread _ ih =>
      refine Record.ofMessage_succeeds_iff.mpr ⟨?_, ?_⟩
      · intro decl hd
        rw [Field.ofFields]
        cases given : m.field? decl.name with
        | none =>
            rw [show (SortedList.find? Prod.fst decl.name m.fields).map Prod.snd =
              none from given,
              FieldKind.read_none]
            exact ⟨_, rfl⟩
        | some value =>
            rw [show (SortedList.find? Prod.fst decl.name m.fields).map Prod.snd =
              some value from
              given, FieldKind.read_of_holds decl.name (typed decl hd value given)]
            exact ⟨_, rfl⟩
      · intro decl hd
        exact ElementSet.load_succeeds (live decl hd) (ids decl hd) (fun _ _ => rfl)
          (ih decl hd) (placed decl hd) (fun _ _ he => absurd he List.not_mem_nil)
          (spread decl hd)

/-- The message of a proper tree of a type is well-formed. -/
theorem Node.Typed.message_wellFormed {n : Node} (h : n.Typed type) :
    n.Proper → n.message.WellFormed type := by
  induction h with
  | @intro type n fields seated _ ih =>
      intro proper
      have keys := proper.branches.keys
      have child : ∀ {set : String} {c : Node}, c ∈ n.members set →
          (set, c) ∈ n.children :=
        fun hc => ((child?_eq_some keys).mp ((mem_members keys).mp hc)).1
      refine .intro ?_ (fun decl _ => nodup_message_ids keys decl.name) ?_ ?_ ?_ ?_
      · intro decl hd value given
        obtain ⟨x, found, rfl⟩ := Option.map_eq_some_iff.mp given
        rw [message_fields] at found
        exact fields decl hd x (SortedList.mem_of_find? found) (SortedList.key_of_find? found)
      · intro decl hd m hm deleted
        obtain ⟨c, -, rfl⟩ := mem_childrenOf_message.mp hm
        rw [placedMessage, message_deleted] at deleted
        cases deleted
      · intro decl hd ordered m hm
        obtain ⟨c, hc, rfl⟩ := mem_childrenOf_message.mp hm
        obtain ⟨p, position⟩ :=
          Option.ne_none_iff_exists'.mp (seated decl hd _ (child hc) rfl ordered)
        exact ⟨p, position, (proper.branches.proper _ (child hc)).nonneg position⟩
      · intro decl hd ordered
        rw [((childrenOf_message_perm n decl.name).filterMap Message.position).nodup_iff,
          List.filterMap_map]
        exact proper.spread decl.name
      · intro decl hd m hm
        obtain ⟨c, hc, rfl⟩ := mem_childrenOf_message.mp hm
        have inner := ih decl hd _ (child hc) rfl (proper.branches.proper _ (child hc))
        exact inner.congr rfl rfl

end WellFormed

section Families

/-- A patch that fits the type of the records in a family of roots. -/
def FitsFamily (family : String → Option τ) (kind : String) (patch : Message) : Prop :=
  ∃ type, family kind = some type ∧ patch.Fits type

variable {family : String → Option τ}

/-- The roots are proper trees of the types of their families. -/
theorem Node.Grown.roots {forest : Node} (h : forest.Grown (FitsFamily family)) :
    forest.Branches ∧
      ∀ c ∈ forest.children, ∃ type, family c.1 = some type ∧ c.2.Typed type := by
  induction h with
  | bare =>
      exact ⟨⟨List.nodup_nil, fun _ hc => absurd hc List.not_mem_nil⟩,
        fun _ hc => absurd hc List.not_mem_nil⟩
  | @apply forest forest' kind patch _ fits applied ih =>
      obtain ⟨branches, typed⟩ := ih
      obtain ⟨new, made, rfl⟩ := apply_eq_ok applied
      refine ⟨branches.withChild (branches.child_proper made), ?_⟩
      intro c hc
      rcases mem_withChild hc with hc | ⟨x, rfl, rfl⟩
      · exact typed c hc
      · obtain ⟨type, named, fits⟩ := fits
        refine ⟨type, named, applyRecord_typed kind true _ fits
          (fun n found => ⟨branches.child? found, id_of_child? found⟩) ?_ made⟩
        intro n found
        obtain ⟨type', named', there⟩ :=
          typed _ ((child?_eq_some branches.keys).mp found).1
        obtain rfl : type' = type := Option.some.inj (named'.symm.trans named)
        exact there

/-- What is loaded from a store that was given none but fitting patches is well-formed,
and a root that is there is loaded. -/
theorem Store.Fed.loads {digest : Bytes → Bytes} {s : Store}
    (h : Fed (FitsFamily family) digest s) (kind : String) (id : Int) :
    s.load kind id = .error (.missingRoot kind id) ∨
      ∃ type content, family kind = some type ∧ s.load kind id = .ok content ∧
        content.WellFormed type := by
  have closed : ∀ kind patch f, FitsFamily family kind patch →
      FitsFamily family kind (patch.mapBytes f) := by
    rintro kind patch f ⟨type, named, fits⟩
    exact ⟨type, named, fits.mapBytes f⟩
  obtain ⟨U, forest, shows, grown⟩ := h.forest closed
  obtain ⟨branches, typed⟩ := grown.roots
  rw [shows.load, Node.load]
  cases found : forest.child? kind id with
  | none => exact .inl rfl
  | some n =>
      obtain ⟨type, named, there⟩ :=
        typed _ ((Node.child?_eq_some branches.keys).mp found).1
      exact .inr ⟨type, n.message, named, rfl,
        there.message_wellFormed (branches.child? found)⟩

end Families

end RecordSync
