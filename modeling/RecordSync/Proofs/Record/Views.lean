import RecordSync.Proofs.Record.Structure
import RecordSync.Record.Attempt

/-!
# The views of a record, part by part

Each view of a record is put together from what its fields, its sets and their elements
tell one by one.  The lemmas here give every view in that form.

**Results.**
* `Record.delta_eq`, `Record.patch_eq`, `Record.remoteMessage_eq`,
  `Record.localMessage_eq` and `Record.markSent_eq`: a view of a record from the views of
  its parts.
* `ElementSet.delta_eq` and its likes: a view of a set from the views of its elements.
-/

namespace RecordSync

variable {τ : Type}

namespace Element

/-- The change of an element, if it has something to tell. -/
def delta? (kind : SetKind) (e : Element τ) : Option ElementDelta :=
  if e.isDirty kind then
    some ⟨e.id, if e.isPresent kind then e.record.delta else .empty, e.position.delta?,
      e.deleted.delta?⟩
  else none

def patch? (kind : SetKind) (e : Element τ) : Option Message :=
  if e.isDirty kind then
    some ((if e.isPresent kind then e.record.patch else .blank e.id).withPresence e.position
      e.deleted)
  else none

/-- The message of an element that the baseline has, with its position. -/
def remote? (kind : SetKind) (e : Element τ) : Option (Int × Message) :=
  if e.isRemotePresent kind then some (e.position.remote, e.record.remoteMessage)
  else none

/-- The message of an element that the user sees, with its sort key. -/
def local? (kind : SetKind) (e : Element τ) : Option (Int × Message) :=
  if e.isPresent kind then some (seenPosition kind e.position, e.record.localMessage)
  else none

def markSent (kind : SetKind) (e : Element τ) : Element τ :=
  if e.isDirty kind then { e with record := e.record.markSent, sent := true } else e

end Element

section Lists

variable (kind : SetKind)

theorem elementDeltas_eq (es : List (Element τ)) :
    elementDeltas kind es = es.filterMap (Element.delta? kind) := by
  induction es with
  | nil => rfl
  | cons e es ih =>
      obtain ⟨record, position, deleted, sent⟩ := e
      by_cases h : Element.isDirty kind ⟨record, position, deleted, sent⟩ = true
      · simp [elementDeltas, ih, Element.delta?, h, Element.id]
      · simp [elementDeltas, ih, Element.delta?, h]

theorem elementPatches_eq (es : List (Element τ)) :
    elementPatches kind es = es.filterMap (Element.patch? kind) := by
  induction es with
  | nil => rfl
  | cons e es ih =>
      obtain ⟨record, position, deleted, sent⟩ := e
      by_cases h : Element.isDirty kind ⟨record, position, deleted, sent⟩ = true
      · simp [elementPatches, ih, Element.patch?, h, Element.id]
      · simp [elementPatches, ih, Element.patch?, h]

theorem remoteElements_eq (es : List (Element τ)) :
    remoteElements kind es = es.filterMap (Element.remote? kind) := by
  induction es with
  | nil => rfl
  | cons e es ih =>
      obtain ⟨record, position, deleted, sent⟩ := e
      by_cases h : Element.isRemotePresent kind ⟨record, position, deleted, sent⟩ = true
      · simp [remoteElements, ih, Element.remote?, h]
      · simp [remoteElements, ih, Element.remote?, h]

theorem localElements_eq (es : List (Element τ)) :
    localElements kind es = es.filterMap (Element.local? kind) := by
  induction es with
  | nil => rfl
  | cons e es ih =>
      obtain ⟨record, position, deleted, sent⟩ := e
      by_cases h : Element.isPresent kind ⟨record, position, deleted, sent⟩ = true
      · simp [localElements, ih, Element.local?, h]
      · simp [localElements, ih, Element.local?, h]

theorem markElementsSent_eq (es : List (Element τ)) :
    markElementsSent kind es = es.map (Element.markSent kind) := by
  induction es with
  | nil => rfl
  | cons e es ih =>
      obtain ⟨record, position, deleted, sent⟩ := e
      rw [markElementsSent, List.map_cons, ih, Element.markSent]

end Lists

namespace ElementSet

def delta? (s : ElementSet τ) : Option SetDelta :=
  if s.delta = [] then none else some ⟨s.name, s.delta⟩

theorem delta_eq (s : ElementSet τ) :
    s.delta = s.elements.filterMap (Element.delta? s.decl.kind) :=
  elementDeltas_eq _ _

theorem patches_eq (s : ElementSet τ) :
    s.patches = s.elements.filterMap (Element.patch? s.decl.kind) :=
  elementPatches_eq _ _

theorem remoteMessages_eq (s : ElementSet τ) :
    s.remoteMessages =
      placedMessages s.decl.kind (s.elements.filterMap (Element.remote? s.decl.kind)) :=
  congrArg _ (remoteElements_eq _ _)

theorem localMessages_eq (s : ElementSet τ) :
    s.localMessages =
      placedMessages s.decl.kind (s.elements.filterMap (Element.local? s.decl.kind)) :=
  congrArg _ (localElements_eq _ _)

theorem markSent_eq (s : ElementSet τ) :
    s.markSent = { s with elements := s.elements.map (Element.markSent s.decl.kind) } := by
  rw [markSent, markElementsSent_eq]

end ElementSet

section Sets

theorem setDeltas_eq (sets : List (ElementSet τ)) :
    setDeltas sets = sets.filterMap ElementSet.delta? := by
  induction sets with
  | nil => rfl
  | cons s sets ih =>
      obtain ⟨decl, elements, dirty, next⟩ := s
      cases h : elementDeltas decl.kind elements with
      | nil => simp [setDeltas, ElementSet.delta?, ElementSet.delta, h, ih]
      | cons d ds =>
          simp [setDeltas, ElementSet.delta?, ElementSet.delta, ElementSet.name, h, ih]

theorem setPatches_eq (sets : List (ElementSet τ)) :
    setPatches sets = sets.map (fun s => ⟨s.name, s.patches⟩) := by
  induction sets with
  | nil => rfl
  | cons s sets ih =>
      obtain ⟨decl, elements, dirty, next⟩ := s
      rw [setPatches, List.map_cons, ih]
      rfl

theorem setRemoteGroups_eq (sets : List (ElementSet τ)) :
    setRemoteGroups sets = sets.map (fun s => ⟨s.name, s.remoteMessages⟩) := by
  induction sets with
  | nil => rfl
  | cons s sets ih =>
      obtain ⟨decl, elements, dirty, next⟩ := s
      rw [setRemoteGroups, List.map_cons, ih]
      rfl

theorem setLocalGroups_eq (sets : List (ElementSet τ)) :
    setLocalGroups sets = sets.map (fun s => ⟨s.name, s.localMessages⟩) := by
  induction sets with
  | nil => rfl
  | cons s sets ih =>
      obtain ⟨decl, elements, dirty, next⟩ := s
      rw [setLocalGroups, List.map_cons, ih]
      rfl

theorem markSetsSent_eq (sets : List (ElementSet τ)) :
    markSetsSent sets = sets.map ElementSet.markSent := by
  induction sets with
  | nil => rfl
  | cons s sets ih =>
      obtain ⟨decl, elements, dirty, next⟩ := s
      rw [markSetsSent, List.map_cons, ih]
      rfl

end Sets

namespace Record

theorem delta_eq (r : Record τ) :
    r.delta = ⟨fieldDeltas r.fields, r.sets.filterMap ElementSet.delta?⟩ := by
  obtain ⟨type, id, dirty, fields, sets⟩ := r
  rw [delta, setDeltas_eq]

theorem patch_eq (r : Record τ) :
    r.patch =
      ⟨r.id, messageFields (fieldDeltas r.fields),
        messageGroups (r.sets.map (fun s => ⟨s.name, s.patches⟩)), none, none, none⟩ := by
  obtain ⟨type, id, dirty, fields, sets⟩ := r
  rw [patch, setPatches_eq]

theorem remoteMessage_eq (r : Record τ) :
    r.remoteMessage =
      ⟨r.id, messageFields (r.fields.map (fun f => (f.name, f.value.remote))),
        messageGroups (r.sets.map (fun s => ⟨s.name, s.remoteMessages⟩)), none,
        none, none⟩ := by
  obtain ⟨type, id, dirty, fields, sets⟩ := r
  rw [remoteMessage, setRemoteGroups_eq]

theorem localMessage_eq (r : Record τ) :
    r.localMessage =
      ⟨r.id, messageFields (r.fields.map (fun f => (f.name, f.value.current))),
        messageGroups (r.sets.map (fun s => ⟨s.name, s.localMessages⟩)), none,
        none, none⟩ := by
  obtain ⟨type, id, dirty, fields, sets⟩ := r
  rw [localMessage, setLocalGroups_eq]

theorem markSent_eq (r : Record τ) :
    r.markSent = { r with sets := r.sets.map ElementSet.markSent } := by
  obtain ⟨type, id, dirty, fields, sets⟩ := r
  rw [markSent, markSetsSent_eq]

end Record

section Patch

theorem Element.patch?_eq_some {kind : SetKind} {e : Element τ} {m : Message} :
    e.patch? kind = some m ↔ e.isDirty kind = true ∧
      m = (if e.isPresent kind then e.record.patch else .blank e.id).withPresence e.position
        e.deleted := by
  rw [Element.patch?, Option.ite_none_right_eq_some, Option.some.injEq, eq_comm (a := m)]

theorem Element.id_of_patch? {kind : SetKind} (e : Element τ) (m : Message)
    (h : e.patch? kind = some m) : m.id = e.id := by
  obtain ⟨-, rfl⟩ := Element.patch?_eq_some.mp h
  split_ifs
  · rw [Record.patch_eq]
    rfl
  · rfl

theorem Record.patch_fields (r : Record τ) :
    r.patch.fields = messageFields (fieldDeltas r.fields) := by
  rw [Record.patch_eq]

theorem Record.patch_children (r : Record τ) :
    r.patch.children = messageGroups (r.sets.map (fun s => ⟨s.name, s.patches⟩)) := by
  rw [Record.patch_eq]

end Patch

section Sent

theorem ElementSet.markSent_name (s : ElementSet τ) : s.markSent.name = s.name := rfl

theorem Element.markSent_id (kind : SetKind) (e : Element τ) :
    (e.markSent kind).id = e.id := by
  rw [Element.markSent]
  split
  · rw [Element.id, Record.markSent_eq]
    rfl
  · rfl

end Sent

end RecordSync
