import RecordSync.Record.Messages

/-!
# Attempts to send

To send its changes a record gives out a patch and keeps the delta of the same moment.
When the server has taken the patch the delta is committed: the baseline advances to it,
and edits made meanwhile stay dirty.  When the server has not, the delta is rolled back,
which only forgets what was marked as sent.

**Commit.**  A delta that names an element which a set does not hold is refused and
nothing changes.
-/

namespace RecordSync

variable {τ : Type}

section Check

mutual

/-- Refuses a delta that names an element which the record does not hold. -/
def Record.checkCommit (r : Record τ) : Delta → Except RecordError Unit
  | ⟨_, sets⟩ => checkSets r.sets sets

def checkSets (own : List (ElementSet τ)) : List SetDelta → Except RecordError Unit
  | [] => .ok ()
  | ⟨name, elements⟩ :: rest =>
    match SortedList.find? ElementSet.name name own with
    | none => checkSets own rest
    | some s => do
      checkElements s elements
      checkSets own rest

def checkElements (s : ElementSet τ) : List ElementDelta → Except RecordError Unit
  | [] => .ok ()
  | ⟨id, record, _, _⟩ :: rest =>
    match s.find? id with
    | none => .error (.unknownElement id)
    | some e => do
      e.record.checkCommit record
      checkElements s rest

end

def ElementSet.checkCommit (s : ElementSet τ) (elements : List ElementDelta) :
    Except RecordError Unit :=
  checkElements s elements

end Check

section Commit

/-- Advances the baseline of a field if it is among the given values. -/
def Field.commitFrom (changed : List (String × Value)) (f : Field) : Field :=
  let taken := (SortedList.find? Prod.fst f.name changed).map Prod.snd
  { f with value := f.value.commit? taken }

mutual

/-- Advances the baseline of a record by a delta that the server took. -/
def Record.commit (r : Record τ) : Delta → Except RecordError (Record τ)
  | ⟨fields, sets⟩ => do
    r.checkCommit ⟨fields, sets⟩
    let own ← commitSets r.sets sets
    .ok { r with sets := own, fields := r.fields.map (Field.commitFrom fields) }.recount

/-- Advances the baselines of the sets that a delta names. -/
def commitSets (own : List (ElementSet τ)) : List SetDelta →
    Except RecordError (List (ElementSet τ))
  | [] => .ok own
  | ⟨name, elements⟩ :: rest =>
    match SortedList.find? ElementSet.name name own with
    | none => commitSets own rest
    | some s => do
      checkElements s elements
      let s ← commitElements s elements
      commitSets (SortedList.modify ElementSet.name name (fun _ => s.recount) own) rest

/-- Advances the baselines of the elements that a delta names. -/
def commitElements (s : ElementSet τ) :
    List ElementDelta → Except RecordError (ElementSet τ)
  | [] => .ok s
  | ⟨id, changes, position, deleted⟩ :: rest =>
    match s.find? id with
    | none => commitElements s rest
    | some e => do
      let record ← e.record.commit changes
      commitElements (s.settle { e with
        record := record
        position := e.position.commit? position
        deleted := e.deleted.commit? deleted }) rest

end

/-- Advances the baseline of a set by a delta that the server took, and tells if the
number of dirty elements changed. -/
def ElementSet.commit (s : ElementSet τ) (elements : List ElementDelta) :
    Except RecordError (ElementSet τ × Option Notice) := do
  s.checkCommit elements
  let after ← commitElements s elements
  let after := after.recount
  .ok (after, if after.dirty ≠ s.dirty then some (.ofMove s.dirty after.dirty) else none)

end Commit

section Send

mutual

/-- Notes that what the record has to tell is about to leave. -/
def Record.markSent : Record τ → Record τ
  | ⟨type, id, dirty, fields, sets⟩ => ⟨type, id, dirty, fields, markSetsSent sets⟩

def markSetsSent : List (ElementSet τ) → List (ElementSet τ)
  | [] => []
  | ⟨decl, elements, dirty, next⟩ :: rest =>
    ⟨decl, markElementsSent decl.kind elements, dirty, next⟩ :: markSetsSent rest

def markElementsSent (kind : SetKind) : List (Element τ) → List (Element τ)
  | [] => []
  | ⟨record, position, deleted, sent⟩ :: rest =>
    let e : Element τ := ⟨record, position, deleted, sent⟩
    (if e.isDirty kind then ⟨record.markSent, position, deleted, true⟩ else e) ::
      markElementsSent kind rest

end

def ElementSet.markSent (s : ElementSet τ) : ElementSet τ :=
  { s with elements := markElementsSent s.decl.kind s.elements }

/-- The patch to send, the delta to commit when it has been taken, and the record
afterwards; nothing if the record is clean. -/
def Record.synchronize (r : Record τ) : Option (Message × Delta × Record τ) :=
  if r.dirty = 0 then none else some (r.patch, r.delta, r.markSent)

end Send

section Rollback

mutual

/-- Forgets that a delta was sent. -/
def Record.rollback (r : Record τ) : Delta → Record τ
  | ⟨_, sets⟩ => { r with sets := rollbackSets r.sets sets }.recount

def rollbackSets (own : List (ElementSet τ)) : List SetDelta → List (ElementSet τ)
  | [] => own
  | ⟨name, elements⟩ :: rest =>
    match SortedList.find? ElementSet.name name own with
    | none => rollbackSets own rest
    | some s =>
      let s := rollbackElements s elements
      rollbackSets (SortedList.modify ElementSet.name name (fun _ => s.recount) own) rest

/-- Forgets that the changes of some elements were sent: one that the baseline does not
have counts as never sent. -/
def rollbackElements (s : ElementSet τ) : List ElementDelta → ElementSet τ
  | [] => s
  | ⟨id, changes, _, _⟩ :: rest =>
    match s.find? id with
    | none => rollbackElements s rest
    | some e =>
      let e := { e with record := e.record.rollback changes }
      let e := if e.isRemotePresent s.decl.kind then e else { e with sent := false }
      rollbackElements (s.settle e) rest

end

def ElementSet.rollback (s : ElementSet τ) (elements : List ElementDelta) :
    ElementSet τ :=
  (rollbackElements s elements).recount

end Rollback
end RecordSync
