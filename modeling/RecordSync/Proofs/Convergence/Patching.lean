import RecordSync.Proofs.Convergence.Carrying
import RecordSync.Proofs.Record.Trunk
import RecordSync.Proofs.Store.Elementwise

/-!
# Patches of a record in the plain store

A record leaves out of its patch what its baseline has already.  That is right as long as
the server holds the baseline.  But the server starts an element blank that it does not
hold, while the element may come with a baseline of its own: what it then leaves out, the
server does not get.

`Record.tellsAll` says of a record, for a server that holds its baseline or a blank
record, that its patch leaves out nothing that the server lacks.

**Results.**
* `Record.Tidy.child?_patch`: what a patch names.
* `Node.place_patch`: where the patch of an element is applied.
* `Record.Sound.told`: after a patch that is accepted the server holds what the user sees
  iff the patch told all.
-/

namespace RecordSync

variable {τ : Type}

section TellsAll

/-- The patch leaves the server with the value of a field: it names the field, or the
server has the value from the baseline or as the default. -/
def Field.tellsAll (held : Bool) (f : Field) : Bool :=
  held || f.isDirty || decide (f.value.current = f.decl.kind.default)

mutual

/-- The patch of a record leaves the server with all that the user sees, if the server
holds the baseline (`held`) or else a blank record. -/
def Record.tellsAll (held : Bool) : Record τ → Bool
  | ⟨_, _, _, fields, sets⟩ => fields.all (Field.tellsAll held) && setsTellAll held sets

def setsTellAll (held : Bool) : List (ElementSet τ) → Bool
  | [] => true
  | ⟨decl, elements, _, _⟩ :: rest =>
      elementsTellAll decl.kind held elements && setsTellAll held rest

/-- The same of the elements that the user sees in a set: the server must hold those of
the baseline, and starts the others blank. -/
def elementsTellAll (kind : SetKind) (held : Bool) : List (Element τ) → Bool
  | [] => true
  | ⟨record, position, deleted, sent⟩ :: rest =>
    let e : Element τ := ⟨record, position, deleted, sent⟩
    (!e.isPresent kind ||
      (if e.isRemotePresent kind then held && record.tellsAll true
      else record.tellsAll false)) &&
      elementsTellAll kind held rest

end

/-- The patch leaves the server with all that the user sees of an element. -/
def Element.tellsAll (kind : SetKind) (held : Bool) (e : Element τ) : Bool :=
  !e.isPresent kind ||
    if e.isRemotePresent kind then held && e.record.tellsAll true
    else e.record.tellsAll false

theorem elementsTellAll_eq (kind : SetKind) (held : Bool) (es : List (Element τ)) :
    elementsTellAll kind held es = es.all (Element.tellsAll kind held) := by
  induction es with
  | nil => rw [elementsTellAll, List.all_nil]
  | cons e es ih =>
      obtain ⟨record, position, deleted, sent⟩ := e
      rw [elementsTellAll, List.all_cons, ih]
      rfl

theorem setsTellAll_eq (held : Bool) (sets : List (ElementSet τ)) :
    setsTellAll held sets =
      sets.all (fun s => s.elements.all (Element.tellsAll s.decl.kind held)) := by
  induction sets with
  | nil => rw [setsTellAll, List.all_nil]
  | cons s sets ih =>
      obtain ⟨decl, elements, dirty, next⟩ := s
      rw [setsTellAll, List.all_cons, ih, elementsTellAll_eq]

theorem Record.tellsAll_iff {held : Bool} {r : Record τ} :
    r.tellsAll held = true ↔
      (∀ f ∈ r.fields, f.tellsAll held = true) ∧
        ∀ s ∈ r.sets, ∀ e ∈ s.elements, e.tellsAll s.decl.kind held = true := by
  obtain ⟨type, id, dirty, fields, sets⟩ := r
  rw [Record.tellsAll, setsTellAll_eq, Bool.and_eq_true, List.all_eq_true, List.all_eq_true]
  simp only [List.all_eq_true]

theorem Record.Sound.tellsAll_of_clean [Catalog τ] {r : Record τ} (h : r.Sound)
    (clean : r.dirty = 0) : r.tellsAll true = true := by
  induction h with
  | @intro r tidy inner ih =>
      obtain ⟨-, sets⟩ := tidy.clean_iff_parts.mp clean
      refine Record.tellsAll_iff.mpr ⟨fun _ _ => rfl, ?_⟩
      intro s hs e he
      have own := (tidy.sets_tidy s hs).clean_iff.mp (sets s hs) e he
      obtain ⟨presence, record⟩ := Element.isDirty_eq_false.mp own
      rw [Element.tellsAll, ← Element.isPresent_eq_of_clean presence]
      cases present : e.isPresent s.decl.kind with
      | false => rfl
      | true => simp [ih s hs e he (record present)]

end TellsAll

section Patch

variable {r : Record τ}

theorem ElementSet.Tidy.find?_patches {s : ElementSet τ} (h : s.Tidy) (id : Int) :
    SortedList.find? Message.id id s.patches =
      (s.find? id).bind (Element.patch? s.decl.kind) := by
  rw [ElementSet.patches_eq]
  exact SortedList.find?_filterMap h.sorted.nodup_keys (fun e _ m => Element.id_of_patch? e m)

variable [Catalog τ]

/-- The fields after a patch: those that changed, and else the old ones. -/
theorem Record.Tidy.field?_patched (h : r.Tidy) {f : Field} (hf : f ∈ r.fields)
    (n : Node) :
    (n.writeFields r.patch.fields).field? f.name =
      f.value.delta?.or (n.field? f.name) := by
  have keys : ((fieldDeltas r.fields).map Prod.fst).Nodup :=
    SortedList.nodup_filterMap h.field_names (fun g _ _ => g.name_of_delta?)
  have sorted : SortedList.Sorted Prod.fst r.patch.fields :=
    r.patch_fields ▸ SortedList.sorted_ofList _
  rw [Node.field?_writeFields n sorted.nodup_keys, r.patch_fields, messageFields,
    SortedList.find?_ofList keys, h.find?_fieldDeltas hf, Option.map_map]
  cases f.value.delta? <;> rfl

/-- A patch has of each set the patches of the changed elements. -/
theorem Record.Tidy.child?_patch (h : r.Tidy) {s : ElementSet τ} (hs : s ∈ r.sets)
    (id : Int) :
    r.patch.child? s.name id = (s.find? id).bind (Element.patch? s.decl.kind) := by
  have found : SortedList.find? ElementSet.name s.name r.sets = some s := h.set?_of_mem hs
  rw [Message.child?, childrenOf_messageGroups h.set_names r.patch_children, found]
  exact (h.sets_tidy s hs).find?_patches id

/-- A patch names each set once, and in each set each element once. -/
theorem Record.Tidy.patch_plain (h : r.Tidy) : r.patch.Plain := by
  constructor
  · exact (grouped_messageGroups r.patch_children).sorted.nodup_keys
  · intro g hg
    rw [r.patch_children] at hg
    obtain ⟨s, hs, rfl⟩ := List.mem_map.mp (mem_of_mem_messageGroups hg).1
    show (s.patches.map Message.id).Nodup
    rw [ElementSet.patches_eq]
    exact SortedList.nodup_filterMap (h.sets_tidy s hs).sorted.nodup_keys
      (fun e _ m => Element.id_of_patch? e m)

/-- What a patch that is accepted makes of a child. -/
theorem Record.Tidy.answers (h : r.Tidy) {n n' : Node} (hn : n.Proper)
    (ha : Node.applyGroups n r.patch.children = .ok n') {s : ElementSet τ}
    (hs : s ∈ r.sets) (id : Int) :
    Node.Answers s.name (n.child? s.name id) (n'.child? s.name id)
      ((s.find? id).bind (Element.patch? s.decl.kind)) := by
  have answers :=
    Node.applyGroups_answers hn h.patch_plain.sets h.patch_plain.elements ha s.name id
  rwa [← Message.child?_eq, h.child?_patch hs] at answers

end Patch

section Place

/-- What a patch of an element begins with at the place of the element: the node that is
there, if the baseline has the element, or a blank one, at the position that the user
sees; and nothing, if the user does not see the element. -/
inductive Node.Begins (kind : SetKind) (e : Element τ) : Option Node → Option Node → Prop
  | kept {c : Node} {q : Option Int} :
      e.isPresent kind = true → e.isRemotePresent kind = true →
      (kind = .ordered → q = some e.position.current) →
      Begins kind e (some c) (some (c.moveTo q))
  | made {q : Option Int} :
      e.isPresent kind = true → e.isRemotePresent kind = false →
      (kind = .ordered → q = some e.position.current) →
        Begins kind e none (some ((Node.blank e.id).moveTo q))
  | gone {old : Option Node} : e.isPresent kind = false → Begins kind e old none

variable {kind : SetKind} {e : Element τ} {set : String} {old new : Option Node}

theorem Element.local?_of_present (h : e.isPresent kind = true) :
    e.local? kind = some (seenPosition kind e.position, e.record.localMessage) :=
  if_pos h

theorem Element.local?_of_absent (h : e.isPresent kind = false) :
    e.local? kind = none :=
  if_neg (by simp [h])

/-- A changed element whose presence did not change is one that the user sees. -/
theorem Element.isPresent_of_clean (dirty : e.isDirty kind = true)
    (clean : e.isPresenceDirty = false) : e.isPresent kind = true := by
  by_contra absent
  rw [Element.isDirty_eq_false.mpr ⟨clean, fun here => absurd here absent⟩] at dirty
  cases dirty

/-- A changed element whose presence did not change is the node that is there. -/
theorem Node.Begins.stays (dirty : e.isDirty kind = true)
    (clean : e.isPresenceDirty = false) {c : Node}
    (position : kind = .ordered → c.position = some e.position.remote) :
    Node.Begins kind e (some c) (some c) := by
  have here := Element.isPresent_of_clean dirty clean
  have begun : Node.Begins kind e (some c) (some (c.moveTo c.position)) := by
    refine .kept here (Element.isPresent_eq_of_clean clean ▸ here) (fun ordered => ?_)
    rw [position ordered, (Element.isPresenceDirty_eq_false.mp clean).1]
  rwa [c.moveTo_self] at begun

theorem Node.Begins.absent (h : Node.Begins kind e old none) :
    e.isPresent kind = false := by
  cases h
  assumption

theorem Node.place_patch_ordered (unmarked : e.deleted = .clean false)
    (dirty : e.isDirty .ordered = true)
    (there : old.isSome = true → e.isRemotePresent .ordered = true)
    (position : ∀ c, old = some c → c.position = some e.position.remote)
    (h : Node.place set false e.id old
      (if e.position.isDirty then some e.position.remote else none) e.position.delta?
      e.deleted.delta? = .ok new) : Node.Begins .ordered e old new := by
  rw [Node.place.eq_def, unmarked, Tracked.delta?] at h
  cases moved : e.position.isDirty with
  | true =>
      rw [moved, if_pos rfl, if_pos rfl] at h
      dsimp only [Option.getD_some] at h
      split_ifs at h with differ away below
      · obtain rfl := Except.ok.inj h
        exact .gone (by simp [Element.isPresent, away])
      · obtain rfl := Except.ok.inj h
        have here : e.isPresent .ordered = true := by simp [Element.isPresent, away]
        have found := not_not.mp differ
        cases old with
        | none => exact .made here (by simp [Element.isRemotePresent, ← found]) (fun _ => rfl)
        | some c => exact .kept here (there rfl) (fun _ => rfl)
  | false =>
      rw [moved, if_neg Bool.false_ne_true] at h
      have clean : e.isPresenceDirty = false := by
        rw [Element.isPresenceDirty, moved, unmarked]
        rfl
      cases old with
      | none => cases h
      | some c =>
          obtain rfl := Except.ok.inj h
          exact .stays dirty clean (fun _ => position c rfl)

theorem Node.place_patch_unordered (unplaced : e.position = .clean 0)
    (dirty : e.isDirty .unordered = true)
    (there : old.isSome = true → e.isRemotePresent .unordered = true)
    (h : Node.place set false e.id old
      (if e.position.isDirty then some e.position.remote else none) e.position.delta?
      e.deleted.delta? = .ok new) : Node.Begins .unordered e old new := by
  rw [Node.place.eq_def, unplaced, show (Tracked.clean (0 : Int)).delta? = none from rfl,
    Tracked.delta?] at h
  cases marked : e.deleted.isDirty with
  | true =>
      rw [marked, if_pos rfl] at h
      have differ : e.deleted.current ≠ e.deleted.remote := by
        simpa [Tracked.isDirty] using marked
      cases away : e.deleted.current with
      | true =>
          rw [away] at h
          cases old with
          | none => cases h
          | some c =>
              obtain rfl := Except.ok.inj h
              exact .gone (by simp [Element.isPresent, away])
      | false =>
          rw [away] at h differ
          have here : e.isPresent .unordered = true := by simp [Element.isPresent, away]
          have remote : e.isRemotePresent .unordered = false := by
            cases he : e.deleted.remote with
            | true => simp [Element.isRemotePresent, he]
            | false => exact absurd he.symm differ
          cases old with
          | none =>
              obtain rfl := Except.ok.inj h
              exact .made here remote (fun ordered => by cases ordered)
          | some c =>
              rw [there rfl] at remote
              cases remote
  | false =>
      rw [marked, if_neg Bool.false_ne_true] at h
      have clean : e.isPresenceDirty = false := by
        rw [Element.isPresenceDirty, marked, unplaced]
        rfl
      cases old with
      | none => cases h
      | some c =>
          obtain rfl := Except.ok.inj h
          exact .stays dirty clean (fun ordered => by cases ordered)

/-- The patch of an element, if it is accepted, begins with the right node. -/
theorem Node.place_patch (shaped : e.Shaped kind) (dirty : e.isDirty kind = true)
    (there : old.isSome = true → e.isRemotePresent kind = true)
    (position : ∀ c, old = some c → kind = .ordered → c.position = some e.position.remote)
    (h : Node.place set false e.id old
      (if e.position.isDirty then some e.position.remote else none) e.position.delta?
      e.deleted.delta? = .ok new) : Node.Begins kind e old new := by
  cases kind with
  | ordered =>
      exact Node.place_patch_ordered shaped dirty there (fun c e => position c e rfl) h
  | unordered => exact Node.place_patch_unordered shaped dirty there h

end Place

section Patched

variable [Catalog τ]

/-- What the server has of a record before a patch: it holds the baseline, or a blank
node. -/
inductive Node.Serves (r : Record τ) (n : Node) : Bool → Prop
  | held : Node.Carries r.type r.remoteMessage n → Serves r n true
  | blank : n.fields = [] → n.children = [] → Serves r n false

/-- What the server has at the place of an element before a patch of the record that holds
it. -/
inductive Node.ServesAt (decl : SetDecl τ) (e : Element τ) (old : Option Node) :
    Bool → Prop
  | held : Node.CarriesAt decl (e.remote? decl.kind) old → ServesAt decl e old true
  | blank : old = none → ServesAt decl e old false

/-- A patch of a record that is accepted leaves the server with what the user sees iff it
tells all. -/
def Record.Told (r : Record τ) : Prop :=
  ∀ {held : Bool} {n n' : Node}, n.Proper → Node.Serves r n held →
    Node.applyGroups (n.writeFields r.patch.fields) r.patch.children = .ok n' →
      (Node.Carries r.type r.localMessage n' ↔ r.tellsAll held = true)

variable {decl : SetDecl τ} {e : Element τ} {old new : Option Node} {held : Bool}

theorem Node.Carries.congr_node {type : τ} {m : Message} {n n' : Node}
    (h : Node.Carries type m n) (fields : n'.fields = n.fields)
    (children : n'.children = n.children) : Node.Carries type m n' := by
  have child? : n'.child? = n.child? := by
    funext set id
    rw [Node.child?, children, Node.child?]
  have field? : n'.field? = n.field? := by
    funext name
    rw [Node.field?, fields, Node.field?]
  obtain ⟨values, gone, there, places, inner⟩ := h
  exact .intro (field? ▸ values) (child? ▸ gone) (child? ▸ there) (child? ▸ places)
    (child? ▸ inner)

/-- The server has a node for an element only if the baseline has the element; the node
then carries the baseline. -/
theorem Node.ServesAt.eq_some (h : Node.ServesAt decl e old held) {c : Node}
    (hc : old = some c) : held = true ∧ e.isRemotePresent decl.kind = true ∧
      (decl.kind = .ordered → c.position = some e.position.remote) ∧
      Node.Carries decl.element e.record.remoteMessage c := by
  subst hc
  cases h with
  | held carries =>
      cases remote : e.isRemotePresent decl.kind with
      | false =>
          rw [show e.remote? decl.kind = none from if_neg (by simp [remote])] at carries
          exact carries.elim
      | true =>
          rw [show e.remote? decl.kind = some (e.position.remote, e.record.remoteMessage) from
            if_pos remote] at carries
          exact ⟨rfl, rfl, carries⟩
  | blank none => cases none

/-- The server has no node for an element that the baseline has only if it holds
nothing. -/
theorem Node.ServesAt.eq_none (h : Node.ServesAt decl e old held) (hold : old = none)
    (remote : e.isRemotePresent decl.kind = true) : held = false := by
  subst hold
  cases h with
  | held carries =>
      rw [show e.remote? decl.kind = some (e.position.remote, e.record.remoteMessage) from
        if_pos remote] at carries
      exact carries.elim
  | blank => rfl

theorem Node.ServesAt.begins (serves : Node.ServesAt decl e old held)
    (shaped : e.Shaped decl.kind) {m : Message} (hm : e.patch? decl.kind = some m)
    {placed : Option Node}
    (begun : Node.place decl.name false m.id old m.position m.swapPosition m.deleted =
      .ok placed) :
    Node.Begins decl.kind e old placed := by
  rw [e.id_of_patch? m hm] at begun
  obtain ⟨dirty, rfl⟩ := Element.patch?_eq_some.mp hm
  exact Node.place_patch shaped dirty
    (fun some => (serves.eq_some (Option.eq_some_of_isSome some)).2.1)
    (fun c hc => (serves.eq_some hc).2.2.1) begun

/-- What the patch of an element that the user sees begins with serves the record of the
element. -/
theorem Node.Begins.serves {node : Node} (h : Node.Begins decl.kind e old (some node))
    (type : e.record.type = decl.element) (serves : Node.ServesAt decl e old held) :
    e.isPresent decl.kind = true ∧ (e.isRemotePresent decl.kind = true → held = true) ∧
      (decl.kind = .ordered → node.position = some e.position.current) ∧
      Node.Serves e.record node (e.isRemotePresent decl.kind) := by
  cases h with
  | @kept c q present remote position =>
      obtain ⟨rfl, -, -, carries⟩ := serves.eq_some rfl
      rw [remote]
      exact ⟨present, fun _ => rfl, position, .held (type ▸ carries.congr_node rfl rfl)⟩
  | @made q present remote position =>
      rw [remote]
      exact ⟨present, nofun, position, .blank rfl rfl⟩

/-- An element without changes is left as it is. -/
theorem Node.carriesAt_kept (sound : e.record.Sound)
    (serves : Node.ServesAt decl e old held) (clean : e.isDirty decl.kind = false) :
    Node.CarriesAt decl (e.local? decl.kind) old ↔ e.tellsAll decl.kind held = true := by
  obtain ⟨presence, own⟩ := Element.isDirty_eq_false.mp clean
  have same : e.isPresent decl.kind = e.isRemotePresent decl.kind :=
    Element.isPresent_eq_of_clean presence
  cases present : e.isPresent decl.kind with
  | false =>
      rw [Element.local?_of_absent present, Element.tellsAll, present]
      cases old with
      | none => exact iff_of_true trivial rfl
      | some c =>
          obtain ⟨-, remote, -⟩ := serves.eq_some rfl
          rw [present, remote] at same
          cases same
  | true =>
      rw [Element.local?_of_present present, Element.tellsAll, present, ← same, present]
      cases old with
      | none =>
          obtain rfl := serves.eq_none rfl (same ▸ present)
          exact iff_of_false (fun carries => carries) Bool.false_ne_true
      | some c =>
          obtain ⟨rfl, -, position, carries⟩ := serves.eq_some rfl
          refine iff_of_true ⟨fun ordered => ?_, ?_⟩ ?_
          · rw [position ordered, ordered, ← (Element.isPresenceDirty_eq_false.mp presence).1]
            rfl
          · rwa [sound.localMessage_of_clean (own present)]
          · simp [sound.tellsAll_of_clean (own present)]

/-- A node at the position that the user sees carries an element iff it carries its
record. -/
theorem Node.carriesAt_some {c : Node}
    (position : decl.kind = .ordered → c.position = some e.position.current) :
    Node.CarriesAt decl (some (seenPosition decl.kind e.position, e.record.localMessage))
      (some c) ↔
      Node.Carries decl.element e.record.localMessage c := by
  refine and_iff_right (fun ordered => ?_)
  rw [position ordered, ordered]
  rfl

/-- An element with changes is made what the user sees iff its patch tells all. -/
theorem Node.carriesAt_patched (shaped : e.Shaped decl.kind)
    (type : e.record.type = decl.element) (told : e.record.Told)
    (serves : Node.ServesAt decl e old held)
    (proper : ∀ c, old = some c → c.Proper ∧ c.id = e.id)
    (dirty : e.isDirty decl.kind = true)
    (h : Node.Answers decl.name old new (e.patch? decl.kind)) :
    Node.CarriesAt decl (e.local? decl.kind) new ↔ e.tellsAll decl.kind held = true := by
  obtain ⟨m, hm⟩ : ∃ m, e.patch? decl.kind = some m := ⟨_, if_pos dirty⟩
  have hid : m.id = e.id := e.id_of_patch? m hm
  rw [hm] at h
  obtain ⟨placed, begun, applied⟩ := Node.applyRecord_eq_ok h
  have begins := serves.begins shaped hm begun
  have own :=
    fun node (e : placed = some node) => (Node.place_proper (hid ▸ proper) (e ▸ begun)).1
  obtain ⟨-, rfl⟩ := Element.patch?_eq_some.mp hm
  cases placed with
  | none =>
      have absent := begins.absent
      rw [Element.local?_of_absent absent, Element.tellsAll, absent,
        show new = none from applied]
      exact iff_of_true trivial rfl
  | some node =>
      obtain ⟨n', written, rfl⟩ := applied
      obtain ⟨present, remote, position, serves'⟩ := begins.serves type serves
      rw [if_pos present] at written
      have proper' := own node rfl
      obtain ⟨-, -, hq, -⟩ := Node.applyGroups_proper _ (proper'.writeFields _) written
      have whole := told proper' serves' written
      rw [Element.local?_of_present present, Element.tellsAll, present,
        Node.carriesAt_some (fun ordered => hq.trans (position ordered)), ← type, whole]
      cases there : e.isRemotePresent decl.kind with
      | true => simp [remote there]
      | false => simp

/-- A field reads as the user sees it iff the patch tells it. -/
theorem Record.Tidy.field_patched {r : Record τ} (h : r.Tidy) {n : Node}
    (serves : Node.Serves r n held) {f : Field} (hf : f ∈ r.fields) :
    f.decl.kind.read f.name ((n.writeFields r.patch.fields).field? f.name) =
      .ok f.value.current ↔
      f.tellsAll held = true := by
  rw [h.field?_patched hf, Field.tellsAll, Field.isDirty, Tracked.delta?]
  cases dirty : f.value.isDirty with
  | true =>
      rw [if_pos rfl, Option.some_or, FieldKind.read_of_holds f.name (h.typed f hf).1]
      exact iff_of_true rfl (by simp)
  | false =>
      rw [if_neg Bool.false_ne_true, Option.none_or]
      have same := Tracked.isDirty_eq_false.mp dirty
      cases serves with
      | held carries =>
          rw [Record.remoteMessage_eq_seen, Node.carries_seen h] at carries
          rw [carries.1 f hf, same]
          exact iff_of_true rfl rfl
      | blank fields _ =>
          rw [Node.field?, fields]
          show Except.ok f.decl.kind.default = .ok f.value.current ↔ _
          simp [eq_comm]

theorem Node.Serves.at {r : Record τ} (h : r.Tidy) {n : Node}
    (serves : Node.Serves r n held) {s : ElementSet τ} (hs : s ∈ r.sets) {id : Int}
    {e : Element τ} (found : s.find? id = some e) :
    Node.ServesAt s.decl e (n.child? s.name id) held := by
  cases serves with
  | held carries =>
      rw [Record.remoteMessage_eq_seen, Node.carries_seen h] at carries
      have slot := carries.2 s hs id
      rw [ElementSet.seen?, found] at slot
      exact .held slot
  | blank _ children =>
      refine .blank ?_
      rw [Node.child?, children]
      rfl

/-- The server has nothing under an id of which the record knows nothing. -/
theorem Node.Serves.none {r : Record τ} (h : r.Tidy) {n : Node}
    (serves : Node.Serves r n held) {s : ElementSet τ} (hs : s ∈ r.sets) {id : Int}
    (gone : s.find? id = none) : n.child? s.name id = none := by
  cases serves with
  | held carries =>
      rw [Record.remoteMessage_eq_seen, Node.carries_seen h] at carries
      have slot := carries.2 s hs id
      rw [ElementSet.seen?, gone] at slot
      cases found : n.child? s.name id with
      | none => rfl
      | some c =>
          rw [found] at slot
          exact slot.elim
  | blank _ children =>
      rw [Node.child?, children]
      rfl

/-- A patch of a record that is accepted leaves the server with what the user sees iff it
tells all. -/
theorem Record.Sound.told {r : Record τ} (h : r.Sound) : r.Told := by
  induction h with
  | @intro r tidy inner ih =>
      intro held n n' proper serves ha
      obtain ⟨-, -, -, fields⟩ := Node.applyGroups_proper _ (proper.writeFields _) ha
      rw [Record.localMessage_eq_seen, Node.carries_seen tidy, Record.tellsAll_iff]
      have field? (name : String) :
          n'.field? name = (n.writeFields r.patch.fields).field? name := by
        rw [Node.field?, fields, Node.field?]
      have answers := fun s hs id => tidy.answers (proper.writeFields _) ha (s := s) hs id
      have element : ∀ s ∈ r.sets, ∀ id e, s.find? id = some e →
          (Node.CarriesAt s.decl (s.seen? .user id) (n'.child? s.name id) ↔
            e.tellsAll s.decl.kind held = true) := by
        intro s hs id e found
        have set := tidy.sets_tidy s hs
        have he := SortedList.mem_of_find? found
        have hid : e.id = id := SortedList.key_of_find? found
        have answer := answers s hs id
        have serves' := serves.at tidy hs found
        rw [found, Option.bind_some] at answer
        rw [ElementSet.seen?, found, Option.bind_some]
        cases dirty : e.isDirty s.decl.kind with
        | false =>
            rw [show e.patch? s.decl.kind = none from if_neg (by simp [dirty])] at answer
            rw [show n'.child? s.name id = n.child? s.name id from answer]
            exact Node.carriesAt_kept (inner s hs e he) serves' dirty
        | true =>
            refine Node.carriesAt_patched (set.shaped e he) (set.typed e he)
              (ih s hs e he) serves' ?_ dirty answer
            intro c hc
            exact ⟨proper.branches.child? hc, (Node.id_of_child? hc).trans hid.symm⟩
      refine and_congr ?_ (forall₂_congr (fun s hs => ?_))
      · refine forall₂_congr (fun f hf => ?_)
        rw [field?]
        exact tidy.field_patched serves hf
      · constructor
        · intro slots e he
          have found := SortedList.find?_of_mem (tidy.sets_tidy s hs).sorted.nodup_keys he
          exact (element s hs e.id e found).mp (slots e.id)
        · intro all id
          cases found : s.find? id with
          | none =>
              have answer := answers s hs id
              rw [found] at answer
              rw [ElementSet.seen?, found, show n'.child? s.name id =
                n.child? s.name id from answer,
                serves.none tidy hs found]
              trivial
          | some e =>
              exact (element s hs id e found).mpr (all e (SortedList.mem_of_find? found))

omit [Catalog τ] in
/-- The patch of a record starts from its root, or from a blank one. -/
theorem Record.place_root (r : Record τ) (k : String) (old : Option Node) :
    Node.place k true r.patch.id old r.patch.position r.patch.swapPosition r.patch.deleted =
      .ok (some (old.getD (.blank r.id))) := by
  rw [Record.patch_eq, Node.place.eq_def]
  cases old <;> rfl

/-- The patch of a record makes of its root what the user sees iff it tells all, if the
server holds the baseline. -/
theorem Record.Sound.root_told {r : Record τ} (h : r.Sound) {k : String}
    {old new : Option Node} (proper : ∀ n, old = some n → n.Proper ∧ n.id = r.id)
    (carries : (old.getD (.blank r.id)).Carries r.type r.remoteMessage)
    (applied : Node.applyRecord k true old r.patch = .ok new) :
    ∃ n, new = some n ∧ (n.Carries r.type r.localMessage ↔ r.tellsAll true = true) := by
  obtain ⟨placed, begun, written⟩ := Node.applyRecord_eq_ok applied
  obtain rfl := Except.ok.inj ((r.place_root k old).symm.trans begun)
  obtain ⟨n, written, rfl⟩ := written
  refine ⟨n, rfl, h.told ?_ (.held carries) written⟩
  cases old with
  | none => exact .blank r.id
  | some n => exact (proper n rfl).1

end Patched

end RecordSync
