import RecordSync.Proofs.Convergence.Patching
import RecordSync.Proofs.Record.Seating

/-!
# Records whose patches tell all

A patch leaves out what the baseline has already.  So nothing is lost as long as the
baseline of every element is one that the server holds, or is blank.  A record that was
decoded is so, and it stays so under edits that make new elements from their ids alone: a
new element then has a blank baseline, and one that comes back has the baseline with which
it went.

An element that is made from a message has the content of the message for its baseline,
though the server has nothing of it, and that content is not told.

**Results.**
* `Record.Grounded.editAll`: a record stays grounded under such edits.
* `Record.Grounded.tellsAll`: the patch of a grounded record tells all.
-/

namespace RecordSync

variable {τ : Type}

section Definition

def Seed.isBlank : Seed → Bool
  | .blank _ => true
  | .message _ => false

mutual

/-- An edit makes new elements from their ids alone, at every depth. -/
def Edit.addsBlank : Edit → Bool
  | .write _ _ => true
  | .within _ edit => edit.addsBlank

def Edit.allAddBlank : List Edit → Bool
  | [] => true
  | edit :: rest => edit.addsBlank && Edit.allAddBlank rest

def SetEdit.addsBlank : SetEdit → Bool
  | .add seed edits => seed.isBlank && Edit.allAddBlank edits
  | .update _ edits => Edit.allAddBlank edits
  | .remove _ | .swap _ _ => true

end

/-- The server holds the baseline of a record (`held`), or the baseline is blank; and so
for every element, of which the server holds the baseline if the baseline of the record
has it. -/
inductive Record.Grounded : Bool → Record τ → Prop
  | intro {held : Bool} {r : Record τ} :
      (∀ f ∈ r.fields, held = true ∨ f.value.remote = f.decl.kind.default) →
      (∀ s ∈ r.sets, ∀ e ∈ s.elements, e.isRemotePresent s.decl.kind = true → held = true) →
      (∀ s ∈ r.sets, ∀ e ∈ s.elements, Grounded (e.isRemotePresent s.decl.kind) e.record) →
      Grounded held r

/-- The same of an element, in a record of which the server holds the baseline or not. -/
structure Element.Grounded (kind : SetKind) (held : Bool) (e : Element τ) : Prop where
  held : e.isRemotePresent kind = true → held = true
  record : e.record.Grounded (e.isRemotePresent kind)

def ElementSet.Grounded (held : Bool) (s : ElementSet τ) : Prop :=
  ∀ e ∈ s.elements, e.Grounded s.decl.kind held

end Definition

section Basics

variable {r : Record τ} {s : ElementSet τ} {e e' : Element τ} {kind : SetKind}
    {held : Bool}

theorem Record.Grounded.field (h : r.Grounded held) {f : Field} (hf : f ∈ r.fields) :
    held = true ∨ f.value.remote = f.decl.kind.default := by
  cases h with
  | intro fields => exact fields f hf

theorem Record.Grounded.set (h : r.Grounded held) (hs : s ∈ r.sets) :
    s.Grounded held := by
  cases h with
  | intro _ remote nested => exact fun e he => ⟨remote s hs e he, nested s hs e he⟩

theorem Record.Grounded.of_parts
    (fields : ∀ f ∈ r.fields, held = true ∨ f.value.remote = f.decl.kind.default)
    (sets : ∀ s ∈ r.sets, s.Grounded held) : r.Grounded held :=
  .intro fields (fun s hs e he => (sets s hs e he).held)
    (fun s hs e he => (sets s hs e he).record)

/-- Only the baseline of the presence matters. -/
theorem Element.Grounded.shifts (h : e.Grounded kind held) (shifts : e.Shifts e') :
    e'.Grounded kind held := by
  refine ⟨?_, ?_⟩
  · rw [shifts.isRemotePresent_eq]
    exact h.held
  · rw [shifts.isRemotePresent_eq, shifts.record_eq]
    exact h.record

theorem Element.isRemotePresent_fresh (kind : SetKind) (record : Record τ)
    (position : Int) :
    (Element.fresh kind record position).isRemotePresent kind = false := by
  cases kind <;> rfl

/-- A new element that is blank is grounded. -/
theorem Element.grounded_fresh {record : Record τ} (h : record.Grounded false)
    (position : Int) : (Element.fresh kind record position).Grounded kind held := by
  refine ⟨?_, ?_⟩
  · rw [Element.isRemotePresent_fresh]
    exact nofun
  · rwa [Element.isRemotePresent_fresh, Element.record_fresh]

theorem Element.Grounded.withRecord (h : e.Grounded kind held) {record : Record τ}
    (grounded : record.Grounded (e.isRemotePresent kind)) :
    Element.Grounded kind held { e with record := record } := by
  refine ⟨?_, ?_⟩
  · rw [Element.isRemotePresent_withRecord]
    exact h.held
  · rwa [Element.isRemotePresent_withRecord]

end Basics

section Made

variable [Catalog τ]

theorem Record.grounded_blank (type : τ) (id : Int) (held : Bool) :
    (Record.blank type id).Grounded held := by
  refine .of_parts ?_ ?_
  · intro f hf
    obtain ⟨decl, -, rfl⟩ := List.mem_map.mp hf
    exact .inr rfl
  · intro s hs
    obtain ⟨decl, -, rfl⟩ := List.mem_map.mp hs
    exact nofun

/-- A record that was decoded is grounded on a server that holds it. -/
theorem Record.grounded_of_ofMessage (m : Message) :
    ∀ (type : τ) r, Record.ofMessage type m = .ok r → r.Grounded true := by
  induction m using Message.childrenOf_induction with
  | step m ih =>
      intro type r h
      obtain ⟨own, sets, -, ⟨-, loads⟩, rfl⟩ := Record.ofMessage_eq_ok.mp h
      refine .of_parts (fun _ _ => .inl rfl) ?_
      intro s hs e he
      rcases ElementSet.elements_of_load (loads s hs) e he with there | ⟨c, hc, loaded⟩
      · cases there
      · have remote : e.isRemotePresent s.decl.kind = true := loaded.remote
        refine ⟨fun _ => rfl, ?_⟩
        rw [remote]
        exact ih s.name c hc _ _ loaded.decoded

end Made

section Edits

variable {held : Bool}

/-- A record stays grounded when one of its fields is written to. -/
theorem Record.Grounded.writeField {r : Record τ} (h : r.Grounded held) (field : String)
    (value : Value) : (r.writeField field value).1.Grounded held := by
  rw [Record.writeField]
  split
  next => exact h
  next f found =>
    split
    next =>
      have own := h.field (SortedList.mem_of_find? found)
      refine .of_parts ?_ (fun s hs => h.set hs)
      intro g hg
      obtain ⟨g', hg', rfl⟩ := List.mem_map.mp hg
      split
      · exact own
      · exact h.field hg'
    next => exact h

/-- A record stays grounded when one of its sets becomes another one that is grounded. -/
theorem Record.Grounded.putSet {r : Record τ} (h : r.Grounded held) {s : ElementSet τ}
    (hs : s.Grounded held) {name : String} {dirty : Nat} :
    Record.Grounded held { r with
      dirty := dirty,
      sets := SortedList.modify ElementSet.name name (fun _ => s) r.sets } := by
  refine .of_parts (fun f hf => h.field hf) ?_
  intro t ht
  rcases SortedList.eq_or_mem_of_mem_modify ht with rfl | ht
  · exact hs
  · exact h.set ht

variable [Catalog τ]

theorem Seed.grounded {type : τ} {seed : Seed} (blank : seed.isBlank = true)
    {record : Record τ} (h : seed.record type = .ok record) : record.Grounded false := by
  cases seed with
  | blank id =>
      cases h
      exact Record.grounded_blank type id false
  | message content => cases blank

mutual

theorem Record.Grounded.edit {r : Record τ} {held : Bool} (h : r.Grounded held) :
    (edit : Edit) → edit.addsBlank = true → (r.edit edit).1.Grounded held
  | .write field value => by
      intro _
      rw [Record.edit]
      exact h.writeField field value
  | .within set edit => by
      intro blank
      rw [Record.edit]
      cases found : r.set? set with
      | none => exact h
      | some s =>
          have own := h.set (SortedList.mem_of_find? found)
          exact h.putSet (ElementSet.Grounded.edit own edit blank)

/-- A record stays grounded under edits that make new elements from their ids alone. -/
theorem Record.Grounded.editAll {r : Record τ} {held : Bool} (h : r.Grounded held) :
    (edits : List Edit) → Edit.allAddBlank edits = true →
      (r.editAll edits).1.Grounded held
  | [] => by
      intro _
      rw [Record.editAll]
      exact h
  | edit :: rest => by
      intro blank
      rw [Edit.allAddBlank, Bool.and_eq_true] at blank
      rw [Record.editAll]
      exact Record.Grounded.editAll (Record.Grounded.edit h edit blank.1) rest blank.2

theorem ElementSet.Grounded.edit {s : ElementSet τ} {held : Bool} (h : s.Grounded held) :
    (edit : SetEdit) → edit.addsBlank = true → (s.edit edit).1.Grounded held
  | .add seed edits => by
      intro blank x hx
      rw [SetEdit.addsBlank, Bool.and_eq_true] at blank
      rw [s.edit_decl]
      cases s.origin_of_edit (.add seed edits) x hx with
      | kept hold shifts => exact (h _ hold).shifts shifts
      | @added _ _ _ _ e made fresh =>
          have own : e.Grounded s.decl.kind held :=
            fresh ▸ Element.grounded_fresh (Seed.grounded blank.1 made) _
          exact own.withRecord (Record.Grounded.editAll own.record edits blank.2)
      | restored hold shifts =>
          have own := (h _ hold).shifts shifts
          exact own.withRecord (Record.Grounded.editAll own.record edits blank.2)
  | .update id edits => by
      intro blank x hx
      rw [s.edit_decl]
      cases s.origin_of_edit (.update id edits) x hx with
      | kept hold shifts => exact (h _ hold).shifts shifts
      | updated he =>
          have own := h _ he
          exact own.withRecord (Record.Grounded.editAll own.record edits blank)
  | .remove id => by
      intro _ x hx
      rw [s.edit_decl]
      cases s.origin_of_edit (.remove id) x hx with
      | kept hold shifts => exact (h _ hold).shifts shifts
  | .swap first second => by
      intro _ x hx
      rw [s.edit_decl]
      cases s.origin_of_edit (.swap first second) x hx with
      | kept hold shifts => exact (h _ hold).shifts shifts

end

end Edits

/-- The patch of a grounded record tells all. -/
theorem Record.Grounded.tellsAll {r : Record τ} {held : Bool} (h : r.Grounded held) :
    r.tellsAll held = true := by
  induction h with
  | @intro held r fields remote _ ih =>
      refine Record.tellsAll_iff.mpr ⟨?_, ?_⟩
      · intro f hf
        rw [Field.tellsAll, Field.isDirty]
        rcases fields f hf with rfl | blank
        · rfl
        · cases dirty : f.value.isDirty with
          | true => simp
          | false => simp [Tracked.isDirty_eq_false.mp dirty, blank]
      · intro s hs e he
        have told := ih s hs e he
        rw [Element.tellsAll]
        cases there : e.isRemotePresent s.decl.kind with
        | true =>
            rw [there] at told
            simp [told, remote s hs e he there]
        | false =>
            rw [there] at told
            simp [told]

end RecordSync
