import RecordSync.Proofs.Record.Decoding
import RecordSync.Proofs.Record.Seen
import RecordSync.Proofs.Store.Reading

/-!
# Records in the plain store

A node carries a record as a message tells it when each field reads as the value that the
message gives, and each set has just the elements of the message, in their places.  A
field that the node does not have reads as its default.

What a node carries is what is decoded from it: a record that is decoded from the message
of a node is carried by it, and from a proper node that carries a record this record is
decoded.

**Results.**
* `Node.carries_seen`: a node carries a side of a record, part by part.
* `Node.carries_of_decoded`: a node carries what is decoded from it.
* `Node.Carries.decodes`: what a proper node carries is decoded from it.
-/

namespace RecordSync

variable {τ : Type} [Catalog τ]

namespace Node

/-- A node carries what a message says of a record of a type. -/
inductive Carries : τ → Message → Node → Prop
  | intro {type : τ} {m : Message} {n : Node} :
      (∀ decl ∈ Catalog.fields type, ∀ value, m.field? decl.name = some value →
        decl.kind.read decl.name (n.field? decl.name) = .ok value) →
      (∀ decl ∈ Catalog.sets type, ∀ id, m.child? decl.name id = none →
        n.child? decl.name id = none) →
      (∀ decl ∈ Catalog.sets type, ∀ id x, m.child? decl.name id = some x →
        (n.child? decl.name id).isSome = true) →
      (∀ decl ∈ Catalog.sets type, ∀ id x c, m.child? decl.name id = some x →
        n.child? decl.name id = some c → decl.kind = .ordered → c.position = x.position) →
      (∀ decl ∈ Catalog.sets type, ∀ id x c, m.child? decl.name id = some x →
        n.child? decl.name id = some c → Carries decl.element x c) →
      Carries type m n

/-- A place among the children carries an element of a set, with its sort key, or
nothing. -/
def CarriesAt (decl : SetDecl τ) : Option (Int × Message) → Option Node → Prop
  | none, none => True
  | some x, some c =>
    (decl.kind = .ordered → c.position = some x.1) ∧ Carries decl.element x.2 c
  | none, some _ => False
  | some _, none => False

section Parts

variable {type : τ} {m m' : Message} {n : Node}

/-- Only the fields and the elements of a message matter. -/
theorem Carries.congr (h : Carries type m n) (fields : m'.fields = m.fields)
    (children : m'.children = m.children) : Carries type m' n := by
  have child? : m'.child? = m.child? := by
    funext set id
    rw [Message.child?, Message.childrenOf, children]
    rfl
  obtain ⟨values, gone, there, places, inner⟩ := h
  refine .intro ?_ (child? ▸ gone) (child? ▸ there) (child? ▸ places) (child? ▸ inner)
  intro decl hd value given
  rw [Message.field?, fields] at given
  exact values decl hd value given

theorem carries_placed {kind : SetKind} {x : Int × Message} :
    Carries type (placed kind x) n ↔ Carries type x.2 n := by
  have fields : (placed kind x).fields = x.2.fields := by cases kind <;> rfl
  have children : (placed kind x).children = x.2.children := by cases kind <;> rfl
  exact ⟨fun h => h.congr fields.symm children.symm, fun h => h.congr fields children⟩

variable {r : Record τ} {side : Side τ}

theorem carriesAt_iff {decl : SetDecl τ} {x? : Option (Int × Message)}
    {c? : Option Node} : CarriesAt decl x? c? ↔
      (x? = none → c? = none) ∧ (∀ x, x? = some x → c?.isSome = true) ∧
      (∀ x c, x? = some x → c? = some c → decl.kind = .ordered → c.position = some x.1) ∧
      ∀ x c, x? = some x → c? = some c → Carries decl.element x.2 c := by
  cases x? <;> cases c? <;> simp [CarriesAt]

/-- A node carries a side of a record iff each field reads as its value and each place
carries what the set has there. -/
theorem carries_seen (h : r.Tidy) :
    Carries r.type (r.seen side) n ↔
      (∀ f ∈ r.fields, f.decl.kind.read f.name (n.field? f.name) = .ok (side.value f.value)) ∧
        ∀ s ∈ r.sets, ∀ id, CarriesAt s.decl (s.seen? side id) (n.child? s.name id) := by
  constructor
  · rintro ⟨values, gone, there, places, inner⟩
    constructor
    · intro f hf
      exact values f.decl (h.fields_decl ▸ List.mem_map_of_mem hf) _ (h.field?_seen side hf)
    · intro s hs id
      have hd := h.set_decl_mem hs
      have child := h.child?_seen side hs id
      rw [carriesAt_iff]
      refine ⟨?_, ?_, ?_, ?_⟩
      · intro seen
        exact gone s.decl hd id (by rw [← ElementSet.name, child, seen]; rfl)
      · intro x seen
        exact there s.decl hd id _ (by rw [← ElementSet.name, child, seen]; rfl)
      · intro x c seen found ordered
        have := places s.decl hd id _ c (by rw [← ElementSet.name, child, seen]; rfl)
          found ordered
        rw [this, ordered]
        rfl
      · intro x c seen found
        exact carries_placed.mp
          (inner s.decl hd id _ c (by rw [← ElementSet.name, child, seen]; rfl) found)
  · rintro ⟨values, slots⟩
    have declared : ∀ decl ∈ Catalog.sets r.type, ∀ id, ∃ x?,
        (r.seen side).child? decl.name id = x?.map (placed decl.kind) ∧
          CarriesAt decl x? (n.child? decl.name id) := by
      intro decl hd id
      rw [← h.sets_decl] at hd
      obtain ⟨s, hs, rfl⟩ := List.mem_map.mp hd
      exact ⟨_, h.child?_seen side hs id, slots s hs id⟩
    refine .intro ?_ ?_ ?_ ?_ ?_
    · intro decl hd value given
      rw [← h.fields_decl] at hd
      obtain ⟨f, hf, rfl⟩ := List.mem_map.mp hd
      have same := h.field?_seen side hf
      rw [show f.name = f.decl.name from rfl, given] at same
      rw [Option.some.inj same]
      exact values f hf
    · intro decl hd id none
      obtain ⟨x?, child, slot⟩ := declared decl hd id
      rw [child, Option.map_eq_none_iff] at none
      exact (carriesAt_iff.mp slot).1 none
    · intro decl hd id x some
      obtain ⟨x?, child, slot⟩ := declared decl hd id
      rw [child] at some
      obtain ⟨y, seen, -⟩ := Option.map_eq_some_iff.mp some
      exact (carriesAt_iff.mp slot).2.1 y seen
    · intro decl hd id x c some found ordered
      obtain ⟨x?, child, slot⟩ := declared decl hd id
      rw [child] at some
      obtain ⟨y, seen, rfl⟩ := Option.map_eq_some_iff.mp some
      rw [(carriesAt_iff.mp slot).2.2.1 y c seen found ordered, ordered]
      rfl
    · intro decl hd id x c some found
      obtain ⟨x?, child, slot⟩ := declared decl hd id
      rw [child] at some
      obtain ⟨y, seen, rfl⟩ := Option.map_eq_some_iff.mp some
      exact carries_placed.mpr ((carriesAt_iff.mp slot).2.2.2 y c seen found)

theorem carries_blank (type : τ) (id : Int) :
    (Node.blank id).Carries type (Record.blank type id).remoteMessage := by
  have made := Record.blank_sound type id
  rw [Record.remoteMessage_eq_seen]
  refine (carries_seen (r := Record.blank type id) made.sound.tidy).mpr ⟨?_, ?_⟩
  · intro f hf
    obtain ⟨decl, -, rfl⟩ := List.mem_map.mp hf
    rfl
  · intro s hs _
    obtain ⟨decl, -, rfl⟩ := List.mem_map.mp hs
    trivial

end Parts

section Decode

theorem induction {P : Node → Prop} (step : ∀ n, (∀ c ∈ n.children, P c.2) → P n)
    (n : Node) : P n := by
  apply step
  intro c hc
  exact Node.induction step c.2
termination_by sizeOf n
decreasing_by
  have inner := List.sizeOf_lt_of_mem hc
  obtain ⟨id, position, fields, children⟩ := n
  obtain ⟨set, node⟩ := c
  simp_all only [Node.mk.sizeOf_spec, Prod.mk.sizeOf_spec]
  omega

variable {type : τ} {n : Node}

theorem ofMessage_placedMessage (type : τ) (n : Node) :
    Record.ofMessage type n.placedMessage = Record.ofMessage type n.message :=
  Record.ofMessage_congr rfl rfl rfl

theorem live_childrenOf_message (n : Node) (set : String) :
    ∀ m ∈ n.message.childrenOf set, m.deleted ≠ some true := by
  intro m hm
  obtain ⟨c, -, rfl⟩ := mem_childrenOf_message.mp hm
  rw [placedMessage, message_deleted]
  intro deleted
  cases deleted

/-- What a set has of an id that was loaded from the children of a node: the record that
the message of the child of the id describes, at the position of the child. -/
theorem seen?_loaded (h : n.Proper) {decl : SetDecl τ} {s : ElementSet τ}
    (loaded : ElementSet.load (.blank decl) (n.message.childrenOf decl.name) = .ok s)
    (id : Int) : match n.child? decl.name id with
    | none => s.seen? .user id = none
    | some c => ∃ record position,
        Record.ofMessage decl.element c.message = .ok record ∧
        (decl.kind = .ordered → c.position = some position) ∧
        s.seen? .user id =
          some (seenPosition decl.kind (.clean position), record.localMessage) := by
  have kind : s.decl = decl := ElementSet.decl_of_load loaded
  have found := ElementSet.find?_load (live_childrenOf_message n decl.name) loaded id
  have child := child?_message h.branches.keys decl.name id
  rw [Message.child?] at child
  rw [child] at found
  cases hc : n.child? decl.name id with
  | none =>
      rw [hc] at found
      have gone : s.find? id = none := found
      show s.seen? .user id = none
      rw [ElementSet.seen?, gone]
      rfl
  | some c =>
      rw [hc] at found
      obtain ⟨-, record, position, decoded, placed, there⟩ := found
      refine ⟨record, position, (ofMessage_placedMessage _ c).symm.trans decoded, placed, ?_⟩
      have present : (Element.loaded record position).isPresent decl.kind = true := by
        cases hk : decl.kind with
        | unordered => rfl
        | ordered =>
            have nonneg : 0 ≤ position := (h.branches.child? hc).nonneg (placed hk)
            exact decide_eq_true (fun e : position = absentPosition => by
              rw [e] at nonneg
              exact absurd nonneg (by decide))
      rw [ElementSet.seen?, there, kind]
      exact if_pos present

/-- A node carries what is decoded from it. -/
theorem carries_of_decoded (n : Node) : ∀ (type : τ) (r : Record τ), n.Proper →
    Record.ofMessage type n.message = .ok r → Carries type r.localMessage n := by
  induction n using Node.induction with
  | step n ih =>
      intro type r proper decoded
      have made := Record.made_of_ofMessage n.message type r decoded
      obtain ⟨own, sets, ⟨-, fields⟩, ⟨-, loads⟩, rfl⟩ :=
        Record.ofMessage_eq_ok.mp decoded
      rw [Record.localMessage_eq_seen]
      refine (carries_seen made.sound.tidy).mpr ⟨?_, ?_⟩
      · intro f hf
        obtain ⟨value, read, clean⟩ := Field.ofFields_eq_ok.mp (fields f hf)
        rw [message_fields] at read
        rw [clean]
        exact read
      · intro s hs id
        have seen := seen?_loaded proper (loads s hs) id
        show CarriesAt s.decl (s.seen? .user id) (n.child? s.decl.name id)
        cases hc : n.child? s.decl.name id with
        | none =>
            rw [hc] at seen
            rw [show s.seen? .user id = none from seen]
            trivial
        | some c =>
            rw [hc] at seen
            obtain ⟨record, position, decoded, placed, seen⟩ := seen
            rw [seen]
            refine ⟨?_, ?_⟩
            · intro ordered
              rw [placed ordered, ordered]
              rfl
            · have mem := ((child?_eq_some proper.branches.keys).mp hc).1
              exact ih _ mem _ _ (proper.branches.proper _ mem) decoded

/-- The children of a node that carries a set can be loaded. -/
theorem load_of_carries (h : n.Proper) {s : ElementSet τ}
    (slots : ∀ id, CarriesAt s.decl (s.seen? .user id) (n.child? s.name id))
    (decodes : ∀ e ∈ s.elements, ∀ c, n.child? s.name e.id = some c →
      Carries s.decl.element e.record.localMessage c →
        ∃ r, Record.ofMessage s.decl.element c.message = .ok r) :
    ∃ s', ElementSet.load (.blank s.decl) (n.message.childrenOf s.name) = .ok s' := by
  have keys := h.branches.keys
  have element : ∀ c ∈ n.members s.name, ∃ e ∈ s.elements,
      n.child? s.name e.id = some c ∧ Carries s.decl.element e.record.localMessage c ∧
      (s.decl.kind = .ordered → c.position = some e.position.current) := by
    intro c hc
    have found := (mem_members keys).mp hc
    have slot := slots c.id
    rw [found] at slot
    cases seen : s.seen? .user c.id with
    | none =>
        rw [seen] at slot
        exact slot.elim
    | some x =>
        rw [seen] at slot
        obtain ⟨e, he, hid, rfl⟩ := ElementSet.seen?_user_eq_some seen
        refine ⟨e, he, hid ▸ found, slot.2, ?_⟩
        intro ordered
        rw [slot.1 ordered, ordered]
        rfl
  refine ElementSet.load_succeeds (live_childrenOf_message n s.name)
    (nodup_message_ids keys s.name) (fun _ _ => rfl) ?_ ?_ (fun _ _ => nofun)
    (fun _ => ?_)
  · intro m hm
    obtain ⟨c, hc, rfl⟩ := mem_childrenOf_message.mp hm
    obtain ⟨e, he, found, carries, -⟩ := element c hc
    obtain ⟨r, decoded⟩ := decodes e he c found carries
    exact ⟨r, (ofMessage_placedMessage _ c).trans decoded⟩
  · intro ordered m hm
    obtain ⟨c, hc, rfl⟩ := mem_childrenOf_message.mp hm
    obtain ⟨e, -, -, -, position⟩ := element c hc
    have position := position ordered
    exact ⟨_, position, (h.branches.child? ((mem_members keys).mp hc)).nonneg position⟩
  · have perm := (childrenOf_message_perm n s.name).filterMap Message.position
    rw [perm.nodup_iff, List.filterMap_map]
    exact h.spread s.name

/-- A set as it is loaded from the children of a node. -/
def reload (n : Node) (s : ElementSet τ) : ElementSet τ :=
  match ElementSet.load (.blank s.decl) (n.message.childrenOf s.name) with
  | .ok s' => s'
  | .error _ => s

/-- A set that is loaded from the children that carry its elements shows the user the
same. -/
theorem seen_reload (h : n.Proper) {s s' : ElementSet τ} (tidy : s.Tidy)
    (slots : ∀ id, CarriesAt s.decl (s.seen? .user id) (n.child? s.name id))
    (loaded : ElementSet.load (.blank s.decl) (n.message.childrenOf s.name) = .ok s')
    (decodes : ∀ e ∈ s.elements, ∀ c, n.child? s.name e.id = some c →
      Carries s.decl.element e.record.localMessage c →
        ∃ r', Record.ofMessage s.decl.element c.message = .ok r' ∧
          r'.localMessage = e.record.localMessage) :
    s'.seen .user = s.seen .user := by
  have tidy' : s'.Tidy := by
    refine ((ElementSet.Loaded.blank s.decl).load ?_ loaded).1.tidy
    exact fun m _ type r => Record.made_of_ofMessage m type r
  apply SortedList.ext_find? (tidy'.sorted_seen _) (tidy.sorted_seen _)
  intro id
  rw [tidy'.find?_seen, tidy.find?_seen]
  have seen' := seen?_loaded h loaded id
  have slot := slots id
  change CarriesAt s.decl (s.seen? .user id) (n.child? s.decl.name id) at slot
  cases seen : s.seen? .user id with
  | none =>
      rw [seen] at slot
      cases hc : n.child? s.decl.name id with
      | none =>
          rw [hc] at seen'
          exact seen'
      | some c =>
          rw [hc] at slot
          exact slot.elim
  | some x =>
      rw [seen] at slot
      cases hc : n.child? s.decl.name id with
      | none =>
          rw [hc] at slot
          exact slot.elim
      | some c =>
          rw [hc] at slot seen'
          obtain ⟨record, position, decoded, placed, seen'⟩ := seen'
          obtain ⟨e, he, rfl, rfl⟩ := ElementSet.seen?_user_eq_some seen
          obtain ⟨r', decoded', same⟩ := decodes e he c hc slot.2
          rw [decoded] at decoded'
          obtain rfl := Except.ok.inj decoded'
          rw [seen', same]
          cases hk : s.decl.kind with
          | unordered => rfl
          | ordered =>
              have moved := slot.1 hk
              rw [placed hk, hk] at moved
              obtain rfl : position = e.position.current := Option.some.inj moved
              rfl

/-- What a proper node carries is decoded from it. -/
theorem Carries.decodes {r : Record τ} (h : r.Sound) :
    ∀ {n : Node}, n.Proper → n.id = r.id →
    Carries r.type r.localMessage n →
      ∃ r', Record.ofMessage r.type n.message = .ok r' ∧
      r'.localMessage = r.localMessage := by
  induction h with
  | @intro r tidy inner ih =>
      intro n proper hid carries
      rw [Record.localMessage_eq_seen, carries_seen tidy] at carries
      obtain ⟨values, slots⟩ := carries
      have decodes : ∀ s ∈ r.sets, ∀ e ∈ s.elements, ∀ c, n.child? s.name e.id = some c →
          Carries s.decl.element e.record.localMessage c →
            ∃ r', Record.ofMessage s.decl.element c.message = .ok r' ∧
              r'.localMessage = e.record.localMessage := by
        intro s hs e he c found carries
        have type := (tidy.sets_tidy s hs).typed e he
        rw [← type] at carries ⊢
        exact ih s hs e he (proper.branches.child? found) (id_of_child? found) carries
      have loads : ∀ s ∈ r.sets,
          ElementSet.load (.blank s.decl) (n.message.childrenOf s.name) =
            .ok (n.reload s) := by
        intro s hs
        obtain ⟨s', loaded⟩ :=
          load_of_carries proper (slots s hs) (fun e he c found carries =>
          (decodes s hs e he c found carries).imp (fun _ => And.left))
        rw [reload, loaded]
      have decls : ∀ s ∈ r.sets, (n.reload s).decl = s.decl := by
        intro s hs
        rw [ElementSet.decl_of_load (loads s hs)]
        rfl
      have decoded : Record.ofMessage r.type n.message =
          .ok ⟨r.type, n.message.id, 0, r.fields.map (fun f => .clean f.decl f.value.current),
            r.sets.map n.reload⟩ := by
        refine Record.ofMessage_eq_ok.mpr ⟨_, _, ⟨?_, ?_⟩, ⟨?_, ?_⟩, rfl⟩
        · rw [List.map_map]
          exact tidy.fields_decl
        · intro f hf
          obtain ⟨g, hg, rfl⟩ := List.mem_map.mp hf
          rw [message_fields]
          exact Field.ofFields_eq_ok.mpr ⟨_, values g hg, rfl⟩
        · rw [List.map_map, ← tidy.sets_decl]
          exact List.map_congr_left decls
        · intro s' hs'
          obtain ⟨s, hs, rfl⟩ := List.mem_map.mp hs'
          rw [decls s hs]
          exact loads s hs
      refine ⟨_, decoded, ?_⟩
      have tidy' := (Record.made_of_ofMessage _ _ _ decoded).sound.tidy
      rw [Record.localMessage_eq_seen, Record.localMessage_eq_seen]
      refine (Record.seen_grouped _ _).ext (Record.seen_grouped _ _)
        (n.message_id.trans hid) ?_ rfl rfl rfl ?_
      · rw [Record.seen, Record.seen, List.map_map]
        rfl
      · intro set
        rw [tidy'.childrenOf_seen, tidy.childrenOf_seen]
        have found : Record.set? ⟨r.type, n.message.id, 0,
            r.fields.map (fun f => Field.clean f.decl f.value.current),
            r.sets.map n.reload⟩ set =
              (r.set? set).map n.reload :=
          SortedList.find?_map (fun s hs => congrArg SetDecl.name (decls s hs))
        rw [found, Option.map_map]
        cases there : r.set? set with
        | none => rfl
        | some s =>
            have hs := SortedList.mem_of_find? there
            have same := seen_reload proper (tidy.sets_tidy s hs) (slots s hs)
              (loads s hs) (decodes s hs)
            show placedMessages (n.reload s).decl.kind ((n.reload s).seen .user) = _
            rw [decls s hs, same]
            rfl

end Decode

end Node

end RecordSync
