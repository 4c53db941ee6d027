import RecordSync.Proofs.Record.Seating
import RecordSync.Proofs.Record.Standing

/-!
# Records without ghosts

A set may hold more than the user sees: an element that was removed stays while its
removal is to be told, or while the server may hear of its creation.  An element that is
held although neither the user nor the baseline has it, and no attempt is out that creates
it, is a ghost: its id, when added again, brings back the old record.

**Places.**  `Record.Reaches` goes from a record to the records nested in it and takes
along what a delta says there.  The delta is that of the attempt that is out, or the empty
one.

**Clear records.**  That a record has no ghosts says nothing of what a removal leaves, for
this depends on what is marked as sent.  A record is clear (`Record.Clear`) if besides, at
every place, the elements that are marked as sent are in the baseline or created by the
delta.

**Results.**
* `Record.Clear.edit`: local edits keep a record clear.
* `Record.Sound.ghostFree_iff_clear`: a record is clear iff at no place there is a ghost
  and at no place the removal of an element that is on neither side leaves a trace of it.
-/

namespace RecordSync

variable {τ : Type}

section Changes

/-- A change that says nothing of an element. -/
def ElementDelta.blank (id : Int) : ElementDelta := ⟨id, .empty, none, none⟩

/-- The change that a delta names for an element. -/
def Delta.change? (d : Delta) (set : String) (id : Int) : Option ElementDelta :=
  (d.set? set).bind (fun x => SortedList.find? ElementDelta.id id x.elements)

/-- What a delta says of an element: nothing if it does not name it. -/
def Delta.changeOf (d : Delta) (set : String) (id : Int) : ElementDelta :=
  (d.change? set id).getD (.blank id)

/-- The change puts the element into the baseline. -/
def ElementDelta.creates (kind : SetKind) (y : ElementDelta) : Bool :=
  match kind with
  | .ordered => y.position.any (· ≠ absentPosition)
  | .unordered => y.deleted == some false

/-- The change takes the element from the baseline. -/
def ElementDelta.removes (kind : SetKind) (y : ElementDelta) : Bool :=
  match kind with
  | .ordered => y.position == some absentPosition
  | .unordered => y.deleted == some true

theorem ElementDelta.creates_blank (kind : SetKind) (id : Int) :
    (ElementDelta.blank id).creates kind = false := by
  cases kind <;> rfl

theorem ElementDelta.removes_blank (kind : SetKind) (id : Int) :
    (ElementDelta.blank id).removes kind = false := by
  cases kind <;> rfl

theorem Delta.changeOf_empty (set : String) (id : Int) :
    Delta.empty.changeOf set id = .blank id := rfl

theorem Delta.changeOf_of_named {d : Delta} {set : String} {id : Int} {y : ElementDelta}
    (h : d.change? set id = some y) : d.changeOf set id = y := by
  rw [changeOf, h]
  rfl

theorem Delta.changeOf_of_unnamed {d : Delta} {set : String} {id : Int}
    (h : d.change? set id = none) : d.changeOf set id = .blank id := by
  rw [changeOf, h]
  rfl

/-- One record is the other or nested in it, with what a delta of the other says of it. -/
inductive Record.Reaches : Record τ → Delta → Record τ → Delta → Prop
  | here (r : Record τ) (d : Delta) : Reaches r d r d
  | nested {r x : Record τ} {d c : Delta} {s : ElementSet τ} {e : Element τ} :
      s ∈ r.sets → e ∈ s.elements →
        Reaches e.record (d.changeOf s.name e.id).record x c → Reaches r d x c

/-- The record of an element that is held is reached. -/
theorem Record.Reaches.found {r : Record τ} {d : Delta} (set : String) (id : Int)
    (named : (r.set? set).isSome = true)
    (held : (((r.set? set).get named).find? id).isSome = true) :
    let s := (r.set? set).get named
    let e := (s.find? id).get held
    r.Reaches d e.record (d.changeOf s.name e.id).record :=
  .nested (SortedList.mem_of_find? (Option.some_get named).symm)
    (SortedList.mem_of_find? (Option.some_get held).symm) (.here _ _)

end Changes

section Definition

/-- At no place is there a ghost, nor an element that was sent without being known or
created. -/
inductive Record.Clear : Record τ → Delta → Prop
  | intro {r : Record τ} {d : Delta} :
      (∀ s ∈ r.sets, ∀ e ∈ s.elements, e.isPresent s.decl.kind = true ∨
        e.isRemotePresent s.decl.kind = true ∨
          (d.changeOf s.name e.id).creates s.decl.kind = true) →
      (∀ s ∈ r.sets, ∀ e ∈ s.elements, e.sent = true → e.isRemotePresent s.decl.kind = true ∨
        (d.changeOf s.name e.id).creates s.decl.kind = true) →
      (∀ s ∈ r.sets, ∀ e ∈ s.elements, Clear e.record (d.changeOf s.name e.id).record) →
      Clear r d

/-- The same of an element, with what the delta says of it. -/
structure Element.Clear (kind : SetKind) (y : ElementDelta) (e : Element τ) : Prop where
  held : e.isPresent kind = true ∨ e.isRemotePresent kind = true ∨ y.creates kind = true
  sent : e.sent = true → e.isRemotePresent kind = true ∨ y.creates kind = true
  record : e.record.Clear y.record

def ElementSet.Clear (d : Delta) (s : ElementSet τ) : Prop :=
  ∀ e ∈ s.elements, e.Clear s.decl.kind (d.changeOf s.name e.id)

theorem Record.clear_iff {r : Record τ} {d : Delta} :
    r.Clear d ↔ ∀ s ∈ r.sets, s.Clear d := by
  constructor
  · rintro ⟨held, sent, record⟩ s hs e he
    exact ⟨held s hs e he, sent s hs e he, record s hs e he⟩
  · intro h
    exact .intro (fun s hs e he => (h s hs e he).held) (fun s hs e he => (h s hs e he).sent)
      (fun s hs e he => (h s hs e he).record)

theorem Record.Clear.set {r : Record τ} {d : Delta} (h : r.Clear d) {s : ElementSet τ}
    (hs : s ∈ r.sets) : s.Clear d := Record.clear_iff.mp h s hs

/-- A clear record is clear at every place. -/
theorem Record.Clear.reaches {r x : Record τ} {d c : Delta} (reaches : r.Reaches d x c)
    (h : r.Clear d) : x.Clear c := by
  induction reaches with
  | here => exact h
  | nested hs he _ ih => exact ih (h.set hs _ he).record

/-- A record stays clear when one of its sets becomes another one that is clear. -/
theorem Record.Clear.putSet {r : Record τ} {d : Delta} (h : r.Clear d) {s : ElementSet τ}
    (hs : s.Clear d) {name : String} {dirty : Nat} :
    Record.Clear { r with
      dirty := dirty, sets := SortedList.modify ElementSet.name name (fun _ => s) r.sets }
        d := by
  refine Record.clear_iff.mpr ?_
  intro t ht
  rcases SortedList.eq_or_mem_of_mem_modify ht with rfl | ht
  · exact hs
  · exact h.set ht

end Definition

section Made

variable [Catalog τ]

theorem Record.clear_blank (type : τ) (id : Int) (d : Delta) :
    (Record.blank type id).Clear d := by
  refine Record.clear_iff.mpr ?_
  intro s hs e he
  obtain ⟨decl, -, rfl⟩ := List.mem_map.mp hs
  cases he

/-- A record that a message describes is clear, whatever is out: the baseline has all of
it. -/
theorem Record.clear_of_ofMessage (m : Message) :
    ∀ (type : τ) r, Record.ofMessage type m = .ok r → ∀ d, r.Clear d := by
  induction m using Message.childrenOf_induction with
  | step m ih =>
      intro type r h d
      obtain ⟨own, sets, -, ⟨-, loads⟩, rfl⟩ := Record.ofMessage_eq_ok.mp h
      refine Record.clear_iff.mpr ?_
      intro s hs e he
      rcases ElementSet.elements_of_load (loads s hs) e he with there | ⟨c, hc, loaded⟩
      · cases there
      · have remote : e.isRemotePresent s.decl.kind = true := loaded.remote
        exact ⟨.inr (.inl remote), fun _ => .inl remote, ih s.name c hc _ _ loaded.decoded _⟩

theorem Seed.clear {type : τ} {seed : Seed} {record : Record τ}
    (h : seed.record type = .ok record) (d : Delta) : record.Clear d := by
  cases seed with
  | blank id =>
      cases h
      exact Record.clear_blank type id d
  | message content => exact Record.clear_of_ofMessage content type record h d

end Made

section Edits

variable {s : ElementSet τ} {clashed : Bool}

/-- The user sees an element that was added. -/
theorem ElementSet.isPresent_of_open?
    (room : s.decl.kind = .ordered → s.nextPosition ≠ absentPosition) {record : Record τ}
    {opened : ElementSet τ} {e : Element τ} {was : Bool}
    (h : s.open? record = .ok (opened, e, was)) : e.isPresent s.decl.kind = true := by
  rw [ElementSet.open?] at h
  cases hk : s.decl.kind with
  | ordered =>
      cases found : s.find? record.id with
      | none =>
          simp only [found, hk] at h
          cases h
          exact decide_eq_true (room hk)
      | some old =>
          simp only [found, hk] at h
          split at h
          · cases h
          · cases h
            cases there : old.isRemotePresent .ordered with
            | true =>
                have remote : old.position.remote ≠ absentPosition :=
                  of_decide_eq_true there
                simp [Element.isPresent, Element.reinstate, there, Tracked.write, remote]
            | false =>
                simp [Element.isPresent, Element.reinstate, there, Tracked.write, room hk]
  | unordered =>
      cases found : s.find? record.id with
      | none =>
          simp only [found, hk] at h
          cases h
          rfl
      | some old =>
          simp only [found, hk] at h
          split at h
          · cases h
          · cases h
            rfl

/-- An element whose presence an edit took is held only if the server may know of it. -/
theorem ElementSet.held_of_remove (id : Int) :
    ∀ x ∈ (s.removeElement id).1.elements, x.isRemotePresent s.decl.kind = true ∨
      x.sent = true ∨ x ∈ s.elements := by
  intro x hx
  rw [ElementSet.removeElement] at hx
  cases present : s.present? id with
  | none =>
      rw [present] at hx
      exact .inr (.inr hx)
  | some e =>
      rw [present] at hx
      dsimp only at hx
      split at hx
      next => exact .inr (.inr (SortedList.mem_erase.mp hx).1)
      next kept =>
        rcases SortedList.mem_of_mem_insert hx with rfl | hx
        · have shifts := e.shifts_markAbsent s.decl.kind
          rw [shifts.isRemotePresent_eq, shifts.sent_eq]
          simp only [Bool.and_eq_true, Bool.not_eq_true', not_and, Bool.not_eq_false] at kept
          cases there : e.isRemotePresent s.decl.kind with
          | true => exact .inl rfl
          | false => exact .inr (.inl (kept there))
        · exact .inr (.inr hx)

theorem ElementSet.held_of_swap (first second : Int) :
    ∀ x ∈ (s.swapElements first second).1.elements, x.isPresent s.decl.kind = true ∨
      x ∈ s.elements := by
  intro x hx
  rcases s.swapElements_cases first second with same |
    ⟨a, b, ordered, ha, hb, -, exchanged⟩
  · rw [same] at hx
    exact .inr hx
  · rw [exchanged] at hx
    have herea := (find?_of_present? ha).2.2
    have hereb := (find?_of_present? hb).2.2
    rw [ordered, Element.isPresent] at herea hereb
    rcases mem_of_mem_exchange hx with current | current | hx
    · left
      rwa [ordered, Element.isPresent, current]
    · left
      rwa [ordered, Element.isPresent, current]
    · exact .inr hx

variable [Catalog τ]

/-- What a set holds after an edit: what the user sees, what the server may know, and what
it held before. -/
theorem ElementSet.held_of_edit
    (room : s.decl.kind = .ordered → s.nextPosition ≠ absentPosition) (edit : SetEdit) :
    ∀ x ∈ (s.edit edit).1.elements, x.isPresent s.decl.kind = true ∨
      x.isRemotePresent s.decl.kind = true ∨ x.sent = true ∨ x ∈ s.elements := by
  intro x hx
  cases edit with
  | add seed edits =>
      rw [ElementSet.edit] at hx
      cases added : (seed.record s.decl.element).bind s.open? with
      | error e =>
          rw [added] at hx
          exact .inr (.inr (.inr hx))
      | ok result =>
          obtain ⟨opened, e, was⟩ := result
          obtain ⟨record, -, opens⟩ := record_of_bind added
          have here := isPresent_of_open? room opens
          obtain ⟨-, elements, -⟩ := origin_of_open? opens
          simp only [added, close, insert, elements] at hx
          rcases SortedList.mem_of_mem_insert hx with rfl | hx
          · exact .inl ((e.isPresent_withRecord _).trans here)
          · exact .inr (.inr (.inr hx))
  | update id edits =>
      rw [ElementSet.edit] at hx
      cases present : s.present? id with
      | none =>
          rw [present] at hx
          exact .inr (.inr (.inr hx))
      | some e =>
          have here := (find?_of_present? present).2.2
          simp only [present, close, insert] at hx
          rcases SortedList.mem_of_mem_insert hx with rfl | hx
          · exact .inl ((e.isPresent_withRecord _).trans here)
          · exact .inr (.inr (.inr hx))
  | remove id =>
      rw [ElementSet.edit] at hx
      exact .inr (held_of_remove id x hx)
  | swap first second =>
      rw [ElementSet.edit] at hx
      exact (held_of_swap first second x hx).imp_right (.inr ∘ .inr)

/-- The set holds an element of the id that was marked as sent, with the same standing in
the baseline. -/
def ElementSet.Sent (s : ElementSet τ) (x : Element τ) : Prop :=
  ∃ old ∈ s.elements, old.id = x.id ∧ old.sent = true ∧
    old.isRemotePresent s.decl.kind = x.isRemotePresent s.decl.kind

omit [Catalog τ] in
theorem ElementSet.sent_of_shifts {old x : Element τ} (hold : old ∈ s.elements)
    (shifts : old.Shifts x) (sent : x.sent = true) : s.Sent x :=
  ⟨old, hold, shifts.id_eq.symm, shifts.sent_eq.symm.trans sent,
    shifts.isRemotePresent_eq.symm⟩

theorem ElementSet.Sent.editAll {e : Element τ} (h : s.Sent e) (edits : List Edit) :
    s.Sent { e with record := (e.record.editAll edits).1 } := by
  obtain ⟨old, hold, same, sent, there⟩ := h
  exact ⟨old, hold, same.trans (e.record.editAll_id edits).symm, sent,
    there.trans (e.isRemotePresent_withRecord _).symm⟩

/-- An element that was marked as sent was so before the edit. -/
theorem ElementSet.sent_of_edit (edit : SetEdit) :
    ∀ x ∈ (s.edit edit).1.elements, x.sent = true → s.Sent x := by
  intro x hx sent
  cases s.origin_of_edit edit x hx with
  | kept hold shifts => exact sent_of_shifts hold shifts sent
  | added made fresh =>
      rw [fresh] at sent
      cases hk : s.decl.kind <;> rw [hk] at sent <;> cases sent
  | restored hold shifts => exact (sent_of_shifts hold shifts sent).editAll _
  | updated he => exact (sent_of_shifts he (.refl _) sent).editAll _

/-- A set is clear after an edit if the records in it are. -/
theorem ElementSet.Clear.edit_own {d : Delta} (h : s.Clear d)
    (seated : s.DeepSeated clashed) (edit : SetEdit)
    (nested : ∀ x ∈ (s.edit edit).1.elements,
      x.record.Clear (d.changeOf s.name x.id).record) : (s.edit edit).1.Clear d := by
  have room : s.decl.kind = .ordered → s.nextPosition ≠ absentPosition := by
    intro ordered
    have nonneg := (seated.own ordered).nonneg
    have absent : absentPosition = -1 := rfl
    omega
  intro x hx
  rw [ElementSet.name, s.edit_decl]
  have sent : x.sent = true → x.isRemotePresent s.decl.kind = true ∨
      (d.changeOf s.name x.id).creates s.decl.kind = true := by
    intro sent
    obtain ⟨old, hold, same, sent, there⟩ := sent_of_edit edit x hx sent
    rw [← there, ← same]
    exact (h old hold).sent sent
  refine ⟨?_, sent, nested x hx⟩
  rcases held_of_edit room edit x hx with here | there | left | hx
  · exact .inl here
  · exact .inr (.inl there)
  · exact .inr (sent left)
  · exact (h x hx).held

mutual

/-- A record that is clear stays so when the user edits it. -/
theorem Record.Clear.edit {r : Record τ} {d : Delta} {clashed : Bool} (h : r.Clear d)
    (seated : r.Seated clashed) : (edit : Edit) → (r.edit edit).1.Clear d
  | .write field value => by
      rw [Record.edit, Record.writeField]
      split
      · exact h
      · split
        · have sets := Record.clear_iff.mp h
          exact Record.clear_iff.mpr sets
        · exact h
  | .within set edit => by
      rw [Record.edit]
      cases found : r.set? set with
      | none => exact h
      | some s =>
          have hs := SortedList.mem_of_find? found
          have own := h.set hs
          exact h.putSet (own.edit_own (seated.set hs) edit
            (ElementSet.Clear.edit_nested own (seated.set hs) edit))

/-- A record that is clear stays so when the user edits it many times. -/
theorem Record.Clear.editAll {r : Record τ} {d : Delta} {clashed : Bool} (h : r.Clear d)
    (seated : r.Seated clashed) : (edits : List Edit) → (r.editAll edits).1.Clear d
  | [] => by
      rw [Record.editAll]
      exact h
  | edit :: rest => by
      rw [Record.editAll]
      exact Record.Clear.editAll (Record.Clear.edit h seated edit) (seated.edit edit) rest

/-- The records in a set stay clear. -/
theorem ElementSet.Clear.edit_nested {s : ElementSet τ} {d : Delta} {clashed : Bool}
    (h : s.Clear d) (seated : s.DeepSeated clashed) :
    (edit : SetEdit) → ∀ x ∈ (s.edit edit).1.elements,
      x.record.Clear (d.changeOf s.name x.id).record
  | .add seed edits => by
      intro x hx
      cases s.origin_of_edit (.add seed edits) x hx with
      | kept hold shifts => exact shifts.id_eq ▸ shifts.record_eq ▸ (h _ hold).record
      | added made fresh _ =>
          subst fresh
          rw [Element.record_fresh]
          exact Record.Clear.editAll (Seed.clear made _) (Seed.seated made) edits
      | @restored _ _ old e hold shifts _ =>
          have nested := shifts.record_eq ▸ seated.nested _ hold
          have clear : e.record.Clear (d.changeOf s.name e.id).record :=
            shifts.id_eq ▸ shifts.record_eq ▸ (h _ hold).record
          rw [Element.id, e.record.editAll_id]
          exact Record.Clear.editAll clear nested edits
  | .update id edits => by
      intro x hx
      cases s.origin_of_edit (.update id edits) x hx with
      | kept hold shifts => exact shifts.id_eq ▸ shifts.record_eq ▸ (h _ hold).record
      | @updated _ _ e he _ =>
          rw [Element.id, e.record.editAll_id]
          exact Record.Clear.editAll (h _ he).record (seated.nested _ he) edits
  | .remove id => by
      intro x hx
      cases s.origin_of_edit (.remove id) x hx with
      | kept hold shifts => exact shifts.id_eq ▸ shifts.record_eq ▸ (h _ hold).record
  | .swap first second => by
      intro x hx
      cases s.origin_of_edit (.swap first second) x hx with
      | kept hold shifts => exact shifts.id_eq ▸ shifts.record_eq ▸ (h _ hold).record

end

end Edits

section Ghosts

variable [Catalog τ] {s : ElementSet τ}

/-- Adding the id starts from the record that is added. -/
def ElementSet.StartsNew (s : ElementSet τ) (id : Int) : Prop :=
  ∀ (seed : Seed) (edits : List Edit) (record : Record τ),
    seed.record s.decl.element = .ok record → record.id = id →
      ∃ position, (s.edit (.add seed edits)).1.find? id =
        some (.fresh s.decl.kind (record.editAll edits).1 position)

/-- The set holds no ghost, an element that neither the baseline nor the delta has goes
without a trace, and an id that is on no side starts from the record that is added. -/
structure ElementSet.GhostFree (d : Delta) (s : ElementSet τ) : Prop where
  held : ∀ e ∈ s.elements, e.isPresent s.decl.kind = true ∨
    e.isRemotePresent s.decl.kind = true ∨
    (d.changeOf s.name e.id).creates s.decl.kind = true
  removal : ∀ id e, s.present? id = some e → e.isRemotePresent s.decl.kind = false →
    (d.changeOf s.name id).creates s.decl.kind = false →
      (s.edit (.remove id)).1.elements = SortedList.erase Element.id id s.elements ∧
        (s.edit (.remove id)).1.StartsNew id
  renewal : ∀ id, (∀ e ∈ s.elements, e.id = id → e.isPresent s.decl.kind = false ∧
      e.isRemotePresent s.decl.kind = false ∧
        (d.changeOf s.name id).creates s.decl.kind = false) → s.StartsNew id

/-- The sets at every place are free of ghosts. -/
def Record.GhostFree (r : Record τ) (d : Delta) : Prop :=
  ∀ x c, r.Reaches d x c → ∀ s ∈ x.sets, s.GhostFree c

theorem ElementSet.startsNew_of_not_held {id : Int} (gone : s.find? id = none) :
    s.StartsNew id := by
  intro seed edits record made same
  have gone : s.find? record.id = none := same ▸ gone
  have opens : ∃ opened position, (seed.record s.decl.element).bind s.open? =
      .ok (opened, .fresh s.decl.kind record position, false) := by
    cases hk : s.decl.kind <;> simp [made, Except.bind, open?, gone, hk]
  obtain ⟨opened, position, opens⟩ := opens
  refine ⟨position, ?_⟩
  have renamed : { Element.fresh s.decl.kind record position with
      record := ((Element.fresh s.decl.kind record position).record.editAll edits).1 } =
        Element.fresh s.decl.kind (record.editAll edits).1 position := by
    cases s.decl.kind <;> rfl
  have own : (Element.fresh s.decl.kind (record.editAll edits).1 position).id = id := by
    rw [Element.id, Element.record_fresh, record.editAll_id, same]
  rw [edit, opens]
  simp only [renamed, close, insert, find?]
  rw [SortedList.find?_insert, if_pos own]

/-- An element that was never sent and that the baseline does not have goes without a
trace. -/
theorem ElementSet.elements_of_remove {id : Int} {e : Element τ}
    (present : s.present? id = some e) (there : e.isRemotePresent s.decl.kind = false)
    (sent : e.sent = false) :
    (s.edit (.remove id)).1.elements = SortedList.erase Element.id id s.elements := by
  rw [edit, removeElement, present]
  simp only [there, sent]
  rfl

theorem ElementSet.Clear.ghostFree {d : Delta} (h : s.Clear d) : s.GhostFree d where
  held e he := (h e he).held
  removal id e present there created := by
    obtain ⟨found, -, -⟩ := find?_of_present? present
    have clear := h e (SortedList.mem_of_find? found)
    rw [SortedList.key_of_find? found] at clear
    have sent : e.sent = false := by
      by_contra left
      rcases clear.sent (by simpa using left) with here | here
      · rw [there] at here
        cases here
      · rw [created] at here
        cases here
    have erased := elements_of_remove present there sent
    refine ⟨erased, startsNew_of_not_held ?_⟩
    rw [find?, erased, SortedList.find?_erase, if_pos rfl]
  renewal id none := by
    refine startsNew_of_not_held (SortedList.find?_eq_none_iff.mpr ?_)
    intro e he same
    obtain ⟨here, there, created⟩ := none e he same
    have held := (h e he).held
    rw [same, here, there, created] at held
    simp at held

/-- A record is clear iff it has no ghosts and removals leave none, at every place. -/
theorem Record.Sound.ghostFree_iff_clear {r : Record τ} (h : r.Sound) {d : Delta} :
    r.GhostFree d ↔ r.Clear d := by
  constructor
  · induction h generalizing d with
    | @intro r tidy inner ih =>
        intro free
        refine Record.clear_iff.mpr ?_
        intro s hs e he
        have own := free r d (.here r d) s hs
        refine ⟨own.held e he, ?_,
          ih s hs e he (fun x c reaches => free x c (.nested hs he reaches))⟩
        intro sent
        by_contra unknown
        simp only [not_or, Bool.not_eq_true] at unknown
        obtain ⟨there, created⟩ := unknown
        have present : s.present? e.id = some e := by
          rw [ElementSet.present?_eq_some]
          refine ⟨SortedList.find?_of_mem (tidy.sets_tidy s hs).sorted.nodup_keys he, ?_⟩
          simpa [there, created] using own.held e he
        -- The removal keeps the element, since it was sent.
        have left : (s.edit (.remove e.id)).1.find? e.id =
            some (e.markAbsent s.decl.kind) := by
          rw [ElementSet.edit, ElementSet.removeElement, present]
          simp only [there, sent]
          refine (SortedList.find?_insert _ _ _ _).trans (if_pos ?_)
          rw [Element.id, Element.record_markAbsent]
          rfl
        obtain ⟨erased, -⟩ := own.removal e.id e present there created
        rw [ElementSet.find?, erased, SortedList.find?_erase, if_pos rfl] at left
        cases left
  · exact fun clear x c reaches s hs => ((clear.reaches reaches).set hs).ghostFree

end Ghosts

end RecordSync
