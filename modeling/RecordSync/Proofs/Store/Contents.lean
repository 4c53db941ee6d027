import RecordSync.Proofs.Record.Loading
import RecordSync.Proofs.Store.Reading

/-!
# Strings of bytes with one digest

The table keeps under each digest the first string of bytes that it is given, and reads
any later one with the same digest back as the first.  So it is as if each string had been
replaced in the patches by the one that is kept for it; and no two of these share a
digest.  What is known of tables without clashes is true of all tables in this way.

**Results.**
* `Store.apply_mapBytes`: a patch does the same when its strings are replaced by those
  that stand for them.
* `Store.Fed.forest`: a table shows a forest that was built by the patches that it was
  given, up to their strings of bytes.
-/

namespace RecordSync

section MapBytes

variable {f : Bytes → Bytes}

def Value.mapBytes (f : Bytes → Bytes) : Value → Value
  | .bytes content => .bytes (f content)
  | value => value

theorem FieldKind.holds_mapBytes (kind : FieldKind) (f : Bytes → Bytes) (value : Value) :
    kind.Holds (value.mapBytes f) = kind.Holds value := by
  cases value <;> cases kind <;> rfl

theorem Value.mem_range_of_mapBytes {value : Value} {b : Bytes}
    (h : value.mapBytes f = .bytes b) : b ∈ Set.range f := by
  cases value with
  | bytes content => exact ⟨content, Value.bytes.inj h⟩
  | null => cases h
  | text _ => cases h
  | integer _ => cases h
  | real _ => cases h
  | boolean _ => cases h

mutual

/-- The message with its strings of bytes replaced, at any depth. -/
def Message.mapBytes (f : Bytes → Bytes) : Message → Message
  | ⟨id, fields, children, position, swapPosition, deleted⟩ =>
    ⟨id, fields.map (fun x => (x.1, x.2.mapBytes f)), mapGroupBytes f children, position,
      swapPosition, deleted⟩

def mapGroupBytes (f : Bytes → Bytes) : List Group → List Group
  | [] => []
  | ⟨name, members⟩ :: rest => ⟨name, mapMemberBytes f members⟩ :: mapGroupBytes f rest

def mapMemberBytes (f : Bytes → Bytes) : List Message → List Message
  | [] => []
  | message :: rest => message.mapBytes f :: mapMemberBytes f rest

end

theorem mapMemberBytes_eq (members : List Message) :
    mapMemberBytes f members = members.map (Message.mapBytes f) := by
  induction members with
  | nil => rw [mapMemberBytes, List.map_nil]
  | cons m members ih => rw [mapMemberBytes, ih, List.map_cons]

theorem mapGroupBytes_eq (groups : List Group) :
    mapGroupBytes f groups =
      groups.map (fun g => ⟨g.name, g.members.map (Message.mapBytes f)⟩) := by
  induction groups with
  | nil => rw [mapGroupBytes, List.map_nil]
  | cons g groups ih =>
      obtain ⟨name, members⟩ := g
      rw [mapGroupBytes, ih, mapMemberBytes_eq, List.map_cons]

namespace Message

theorem mapBytes_eq (m : Message) :
    m.mapBytes f = { m with
      fields := m.fields.map (fun x => (x.1, x.2.mapBytes f))
      children := m.children.map (fun g => ⟨g.name, g.members.map (mapBytes f)⟩) } := by
  cases m
  rw [mapBytes, mapGroupBytes_eq]

theorem mapBytes_id (m : Message) : (m.mapBytes f).id = m.id := by
  rw [mapBytes_eq]

theorem mapBytes_fields (m : Message) :
    (m.mapBytes f).fields = m.fields.map (fun x => (x.1, x.2.mapBytes f)) := by
  rw [mapBytes_eq]

theorem mapBytes_children (m : Message) :
    (m.mapBytes f).children =
      m.children.map (fun g => ⟨g.name, g.members.map (mapBytes f)⟩) := by
  rw [mapBytes_eq]

theorem mapBytes_deleted (m : Message) : (m.mapBytes f).deleted = m.deleted := by
  rw [mapBytes_eq]

/-- After the replacement a message carries none but the strings that stand for others. -/
theorem bytesIn_mapBytes (f : Bytes → Bytes) (m : Message) :
    (m.mapBytes f).BytesIn (Set.range f) := by
  induction m using Message.induction with
  | step m ih =>
      refine .intro ?_ ?_
      · intro x hx b hb
        rw [mapBytes_fields] at hx
        obtain ⟨y, -, rfl⟩ := List.mem_map.mp hx
        exact Value.mem_range_of_mapBytes hb
      · intro g hg c hc
        rw [mapBytes_children] at hg
        obtain ⟨g', hg', rfl⟩ := List.mem_map.mp hg
        obtain ⟨c', hc', rfl⟩ := List.mem_map.mp hc
        exact ih g' hg' c' hc'

end Message

end MapBytes

namespace Store

variable {s s' s'' : Store} {f : Bytes → Bytes}

section Keeps

/-- Strings of bytes are kept under their digests. -/
def Named (s : Store) : Prop := ∀ e ∈ s.contents, e.1 = s.digest e.2

/-- A later table, as far as strings of bytes go: they have the same digests, and those
that were kept are kept. -/
structure Keeps (s s' : Store) : Prop where
  digest_eq : s'.digest = s.digest
  bytes : ∀ d b, s.bytes? d = some b → s'.bytes? d = some b
  named : s.Named → s'.Named

theorem Keeps.refl (s : Store) : s.Keeps s :=
  ⟨rfl, fun _ _ kept => kept, fun named => named⟩

theorem Keeps.trans (h : s.Keeps s') (h' : s'.Keeps s'') : s.Keeps s'' :=
  ⟨h'.digest_eq.trans h.digest_eq, fun d b kept => h'.bytes d b (h.bytes d b kept),
    fun named => h'.named (h.named named)⟩

theorem Keeps.of_contents (digest : s'.digest = s.digest)
    (contents : s'.contents = s.contents) : s.Keeps s' := by
  refine ⟨digest, fun d b kept => ?_, fun named => ?_⟩
  · rwa [bytes?, contents]
  · rwa [Named, digest, contents]

/-- Under the digest of a string that is to be kept there is this string afterwards,
unless there was one before. -/
theorem keeps_keep (s : Store) (b : Bytes) :
    s.Keeps (s.keep b) ∧
      (s.bytes? (s.digest b) = none → (s.keep b).bytes? (s.digest b) = some b) := by
  rw [keep]
  split
  next there => exact ⟨.refl s, fun none => by rw [none] at there; cases there⟩
  next gone =>
    have none : s.bytes? (s.digest b) = none := by simpa using gone
    refine ⟨⟨rfl, fun d c kept => ?_, fun named e he => ?_⟩, fun _ => ?_⟩
    · obtain ⟨e, found, rfl⟩ := Option.map_eq_some_iff.mp kept
      rw [bytes?, List.find?_append, found]
      rfl
    · rcases List.mem_append.mp he with he | he
      · exact named e he
      · obtain rfl := List.mem_singleton.mp he
        rfl
    · rw [bytes?, List.find?_append, Option.map_eq_none_iff.mp none]
      simp

theorem keeps_updateRow (s : Store) (number : Nat) (change : Row → Row) :
    s.Keeps (s.updateRow number change) := .of_contents rfl rfl

theorem contents_ensure (s : Store) (p : Nat) (set : String) (id : Int) :
    (s.ensure p set id).1.digest = s.digest ∧
      (s.ensure p set id).1.contents = s.contents := by
  rw [ensure]
  split
  · split <;> exact ⟨rfl, rfl⟩
  · exact ⟨rfl, rfl⟩

/-- No string of bytes is touched while a record is brought to its place. -/
theorem contents_place {p : Nat} {set : String} {mayCreate : Bool} {id : Int}
    {position swapPosition : Option Int} {deleted : Option Bool}
    {placed : Store × Option Nat}
    (h : s.place p set mayCreate id position swapPosition deleted = .ok placed) :
    placed.1.digest = s.digest ∧ placed.1.contents = s.contents := by
  have ensured := s.contents_ensure p set id
  rcases place_cases h with ⟨rfl | ⟨row, rfl⟩, -⟩ | ⟨target, rfl, -⟩ | ⟨rfl, -⟩
  · exact ⟨rfl, rfl⟩
  · exact ⟨rfl, rfl⟩
  · exact ensured
  · exact ensured

end Keeps

section StandIn

/-- A choice of one string of bytes for each digest, for which the table's are taken where
it has one. -/
structure StandIn (s : Store) (f : Bytes → Bytes) : Prop where
  digest : ∀ b, s.digest (f b) = s.digest b
  same : ∀ b c, s.digest b = s.digest c → f b = f c
  kept : ∀ d b, s.bytes? d = some b → f b = b

/-- A choice for a table was one for the earlier tables. -/
theorem StandIn.earlier (h : s'.StandIn f) (keeps : s.Keeps s') : s.StandIn f where
  digest := keeps.digest_eq ▸ h.digest
  same := keeps.digest_eq ▸ h.same
  kept := fun d b there => h.kept d b (keeps.bytes d b there)

/-- The digest tells the chosen strings apart. -/
theorem StandIn.injOn (h : s.StandIn f) : Set.InjOn s.digest (Set.range f) := by
  rintro _ ⟨b, rfl⟩ _ ⟨c, rfl⟩ same
  rw [h.digest, h.digest] at same
  exact h.same b c same

/-- A table that keeps strings under their digests has such a choice: where it has no
string, any of the digest will do. -/
theorem Named.exists_standIn (h : s.Named) : ∃ f, s.StandIn f := by
  have named : ∀ {d b}, s.bytes? d = some b → s.digest b = d := by
    intro d b there
    obtain ⟨e, found, rfl⟩ := Option.map_eq_some_iff.mp there
    rw [← h e (List.mem_of_find?_eq_some found)]
    simpa using List.find?_some found
  refine ⟨fun b => (s.bytes? (s.digest b)).getD (Function.invFun s.digest (s.digest b)),
    ?_, ?_, ?_⟩
  · intro b
    cases there : s.bytes? (s.digest b) with
    | none => exact Function.invFun_eq ⟨b, rfl⟩
    | some c => exact named there
  · intro b c same
    rw [same]
  · intro d b there
    rw [named there, there]
    rfl

end StandIn

section Replace

variable {p number : Nat} {set : String} {mayCreate : Bool}

/-- A string of bytes and the one that stands for it are kept alike. -/
theorem keep_standIn {b : Bytes} (stands : (s.keep b).StandIn f) :
    s.keep (f b) = s.keep b := by
  have before := stands.earlier (s.keeps_keep b).1
  cases there : s.bytes? (s.digest b) with
  | none =>
      rw [stands.kept _ _ ((s.keeps_keep b).2 there)]
  | some c =>
      have kept : ∀ a, s.digest a = s.digest b → s.keep a = s := by
        intro a same
        rw [keep, same, there]
        rfl
      rw [kept _ (before.digest b), kept b rfl]

theorem writeField_mapBytes (s : Store) (number : Nat) (field : String) (value : Value) :
    s.Keeps (s.writeField number field value) ∧
      ∀ f, (s.writeField number field value).StandIn f →
        s.writeField number field (value.mapBytes f) =
          s.writeField number field value := by
  cases value with
  | bytes b =>
      have kept := (s.keeps_keep b).1
      have written := (s.keep b).keeps_updateRow number (fun row => { row with
        fields := SortedList.insert Prod.fst (field, .stored (s.digest b)) row.fields })
      refine ⟨kept.trans written, fun f stands => ?_⟩
      have stands' : (s.keep b).StandIn f := stands.earlier written
      show (s.keep (f b)).updateRow number _ = (s.keep b).updateRow number _
      rw [keep_standIn stands', (stands'.earlier kept).digest]
  | null => exact ⟨s.keeps_updateRow _ _, fun _ _ => rfl⟩
  | text _ => exact ⟨s.keeps_updateRow _ _, fun _ _ => rfl⟩
  | integer _ => exact ⟨s.keeps_updateRow _ _, fun _ _ => rfl⟩
  | real _ => exact ⟨s.keeps_updateRow _ _, fun _ _ => rfl⟩
  | boolean _ => exact ⟨s.keeps_updateRow _ _, fun _ _ => rfl⟩

theorem writeFields_mapBytes (s : Store) (number : Nat) (fields : List (String × Value)) :
    s.Keeps (s.writeFields number fields) ∧
      ∀ f, (s.writeFields number fields).StandIn f →
        s.writeFields number (fields.map (fun x => (x.1, x.2.mapBytes f))) =
          s.writeFields number fields := by
  induction fields generalizing s with
  | nil => exact ⟨.refl s, fun _ _ => rfl⟩
  | cons x fields ih =>
      obtain ⟨first, replaced⟩ := s.writeField_mapBytes number x.1 x.2
      obtain ⟨rest, replaced'⟩ := ih (s.writeField number x.1 x.2)
      refine ⟨first.trans rest, fun f stands => ?_⟩
      show (s.writeField number x.1 (x.2.mapBytes f)).writeFields number _ = _
      rw [replaced f (stands.earlier rest)]
      exact replaced' f stands

mutual

/-- A message does the same with the strings that stand for its own. -/
theorem applyRecord_mapBytes {m : Message} {s s' : Store} {p : Nat} {set : String}
    {mayCreate : Bool} (h : s.applyRecord p set mayCreate m = .ok s') :
    s.Keeps s' ∧
      ∀ f, s'.StandIn f → s.applyRecord p set mayCreate (m.mapBytes f) = .ok s' := by
  obtain ⟨id, fields, children, position, swapPosition, deleted⟩ := m
  rw [applyRecord] at h
  obtain ⟨⟨s₁, found⟩, placed, h⟩ := of_bind_eq_ok h
  have kept : s.Keeps s₁ :=
    .of_contents (contents_place placed).1 (contents_place placed).2
  cases found with
  | none =>
      obtain rfl := Except.ok.inj h
      refine ⟨kept, fun f _ => ?_⟩
      rw [Message.mapBytes, applyRecord, placed]
      rfl
  | some number =>
      obtain ⟨written, fieldsAlike⟩ := s₁.writeFields_mapBytes number fields
      obtain ⟨below, childrenAlike⟩ := applyGroups_mapBytes children h
      refine ⟨(kept.trans written).trans below, fun f stands => ?_⟩
      rw [Message.mapBytes, applyRecord, placed]
      show (s₁.writeFields number _).applyGroups number _ = _
      rw [fieldsAlike f (stands.earlier below)]
      exact childrenAlike f stands

theorem applyGroups_mapBytes {s s' : Store} {number : Nat} (groups : List Group)
    (h : s.applyGroups number groups = .ok s') :
    s.Keeps s' ∧
      ∀ f, s'.StandIn f → s.applyGroups number (mapGroupBytes f groups) = .ok s' := by
  match groups with
  | [] =>
      rw [applyGroups] at h
      obtain rfl := Except.ok.inj h
      exact ⟨.refl s, fun f _ => by rw [mapGroupBytes, applyGroups]⟩
  | ⟨set, members⟩ :: rest =>
      rw [applyGroups] at h
      obtain ⟨s₁, inner, h⟩ := of_bind_eq_ok h
      obtain ⟨_, checked, h⟩ := of_bind_eq_ok h
      obtain ⟨first, membersAlike⟩ := applyMembers_mapBytes members inner
      obtain ⟨later, restAlike⟩ := applyGroups_mapBytes rest h
      refine ⟨first.trans later, fun f stands => ?_⟩
      rw [mapGroupBytes, applyGroups, membersAlike f (stands.earlier later)]
      show (s₁.checkPositions number set >>= fun _ => s₁.applyGroups number _) = _
      rw [checked]
      exact restAlike f stands

theorem applyMembers_mapBytes {s s' : Store} {number : Nat} {set : String}
    (members : List Message) (h : s.applyMembers number set members = .ok s') :
    s.Keeps s' ∧
      ∀ f, s'.StandIn f →
        s.applyMembers number set (mapMemberBytes f members) = .ok s' := by
  match members with
  | [] =>
      rw [applyMembers] at h
      obtain rfl := Except.ok.inj h
      exact ⟨.refl s, fun f _ => by rw [mapMemberBytes, applyMembers]⟩
  | m :: rest =>
      rw [applyMembers] at h
      obtain ⟨s₁, inner, h⟩ := of_bind_eq_ok h
      obtain ⟨first, memberAlike⟩ := applyRecord_mapBytes inner
      obtain ⟨later, restAlike⟩ := applyMembers_mapBytes rest h
      refine ⟨first.trans later, fun f stands => ?_⟩
      rw [mapMemberBytes, applyMembers, memberAlike f (stands.earlier later)]
      exact restAlike f stands

end

/-- A patch does the same with the strings that stand for its own. -/
theorem apply_mapBytes {kind : String} {patch : Message}
    (h : s.apply kind patch = .ok s') :
    s.Keeps s' ∧ ∀ f, s'.StandIn f → s.apply kind (patch.mapBytes f) = .ok s' :=
  applyRecord_mapBytes h

end Replace

section Fed

variable {allowed : String → Message → Prop} {digest : Bytes → Bytes}

/-- A table that was given none but certain patches, from its beginning on. -/
inductive Fed (allowed : String → Message → Prop) (digest : Bytes → Bytes) : Store → Prop
  | empty : Fed allowed digest (.empty digest)
  | apply {s s' : Store} {kind : String} {patch : Message} :
      Fed allowed digest s → allowed kind patch → s.apply kind patch = .ok s' →
        Fed allowed digest s'
  | reserve {s s' : Store} {count : Nat} {range : Int × Int} :
      Fed allowed digest s → s.reserve count = .ok (range, s') → Fed allowed digest s'

theorem keeps_reserve {count : Nat} {range : Int × Int}
    (h : s.reserve count = .ok (range, s')) : s.Keeps s' := by
  rw [Store.reserve] at h
  split_ifs at h
  obtain ⟨-, rfl⟩ := Prod.mk.inj (Except.ok.inj h)
  exact .of_contents rfl rfl

theorem Fed.named (h : Fed allowed digest s) : s.Named := by
  induction h with
  | empty => exact nofun
  | apply _ _ applied ih => exact (apply_mapBytes applied).1.named ih
  | reserve _ reserved ih => exact (keeps_reserve reserved).named ih

end Fed

end Store

/-- A forest that was built by none but certain patches. -/
inductive Node.Grown (allowed : String → Message → Prop) : Node → Prop
  | bare : Grown allowed (.blank 0)
  | apply {forest forest' : Node} {kind : String} {patch : Message} :
      Grown allowed forest → allowed kind patch → forest.apply kind patch = .ok forest' →
        Grown allowed forest'

namespace Store

variable {allowed : String → Message → Prop} {digest : Bytes → Bytes} {s : Store}

/-- A table shows a forest that was built by the patches that it was given, with one
string of bytes for all of a digest. -/
theorem Fed.forest (h : Fed allowed digest s)
    (closed : ∀ kind patch f, allowed kind patch → allowed kind (patch.mapBytes f)) :
    ∃ U forest, s.ShowsForest U forest ∧ forest.Grown allowed := by
  obtain ⟨f, stands⟩ := h.named.exists_standIn
  refine ⟨Set.range f, ?_⟩
  induction h with
  | empty => exact ⟨.blank 0, showsForest_empty stands.injOn, .bare⟩
  | @apply s s' kind patch fed fits applied ih =>
      obtain ⟨keeps, replaced⟩ := apply_mapBytes applied
      obtain ⟨forest, shows, grown⟩ := ih (stands.earlier keeps)
      obtain ⟨forest', applied', shows'⟩ :=
        (shows.apply kind (patch.bytesIn_mapBytes f)).of_ok (replaced f stands)
      exact ⟨forest', shows', grown.apply (closed kind patch f fits) applied'⟩
  | reserve _ reserved ih =>
      obtain ⟨forest, shows, grown⟩ := ih (stands.earlier (keeps_reserve reserved))
      exact ⟨forest, shows.reserve reserved, grown⟩

end Store

end RecordSync
