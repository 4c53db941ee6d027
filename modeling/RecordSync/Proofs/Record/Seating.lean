import RecordSync.Proofs.Record.Clashes
import RecordSync.Proofs.Record.Counters
import RecordSync.Proofs.Record.Decoding

/-!
# Positions at every depth

The positions of the sets of a record and of all records nested in it are kept together.
A nested set is edited only through the elements that hold it, so an edit clashes when it,
or an edit that it holds, puts an element on a position that is taken.

An attempt may be committed when a nested set is no longer the one that it was taken of,
because its element was removed for good and made anew.  The positions of nested sets are
therefore bounded only from below.

**Results.**
* `ElementSet.origin_of_edit`: where the elements of a set that was edited come from.
* `Record.Seated.edit`, `Record.Seated.advance`, `Record.Seated.rollback`,
  `Record.Seated.markSent`: a record stays seated.
* `Record.History.seated`: a record that can be reached is seated.
-/

namespace RecordSync

variable {τ : Type}

/-- The ordered sets of a record and of every record nested in it are seated. -/
inductive Record.Seated (clashed : Bool) : Record τ → Prop
  | intro {r : Record τ} :
      (∀ s ∈ r.sets, s.decl.kind = .ordered → s.Seated clashed) →
      (∀ s ∈ r.sets, ∀ e ∈ s.elements, Seated clashed e.record) → Seated clashed r

/-- No change of an element tells a position below `absentPosition`. -/
inductive Delta.Placed : Delta → Prop
  | intro {d : Delta} :
      (∀ x ∈ d.sets, ∀ p, ElementSet.Tells x.elements p → absentPosition ≤ p) →
      (∀ x ∈ d.sets, ∀ y ∈ x.elements, Placed y.record) → Placed d

/-- A set is seated if it is ordered, and so are the records in it. -/
structure ElementSet.DeepSeated (clashed : Bool) (s : ElementSet τ) : Prop where
  own : s.decl.kind = .ordered → s.Seated clashed
  nested : ∀ e ∈ s.elements, e.record.Seated clashed

section Clashes

variable [Catalog τ]

mutual

/-- An edit puts an element on a position that is taken, in a set at some depth. -/
def Record.clashes (r : Record τ) : Edit → Bool
  | .write _ _ => false
  | .within set edit =>
    match r.set? set with
    | none => false
    | some s => s.clashesWithin edit

def Record.clashesAll (r : Record τ) : List Edit → Bool
  | [] => false
  | edit :: rest => r.clashes edit || (r.edit edit).1.clashesAll rest

def ElementSet.clashesWithin (s : ElementSet τ) : SetEdit → Bool
  | .add seed edits =>
    s.clashes (.add seed edits) ||
      match (seed.record s.decl.element).bind s.open? with
      | .error _ => false
      | .ok (_, e, _) => e.record.clashesAll edits
  | .update id edits =>
    match s.present? id with
    | none => false
    | some e => e.record.clashesAll edits
  | .remove _ | .swap _ _ => false

end

end Clashes

section Basics

variable {r : Record τ} {s : ElementSet τ} {e : Element τ} {clashed : Bool}

theorem ElementSet.Seated.mono (h : s.Seated clashed) {clashed' : Bool}
    (later : clashed' = false → clashed = false) : s.Seated clashed' :=
  ⟨h.sorted, h.nonneg, h.above, fun free => h.apart (later free)⟩

namespace Record.Seated

theorem set (h : r.Seated clashed) (hs : s ∈ r.sets) : s.DeepSeated clashed := by
  cases h with
  | intro own nested => exact ⟨own s hs, nested s hs⟩

theorem of_sets (h : ∀ s ∈ r.sets, s.DeepSeated clashed) : r.Seated clashed :=
  .intro (fun s hs => (h s hs).own) (fun s hs => (h s hs).nested)

theorem mono (h : r.Seated clashed) {clashed' : Bool}
    (later : clashed' = false → clashed = false) : r.Seated clashed' := by
  induction h with
  | intro own _ ih => exact .intro (fun s hs ordered => (own s hs ordered).mono later) ih

/-- What is seated after some edits still is after more of them. -/
theorem or (h : r.Seated clashed) (more : Bool) : r.Seated (clashed || more) :=
  h.mono (fun free => (Bool.or_eq_false_iff.mp free).1)

/-- A record stays seated when one of its sets becomes another one that is seated. -/
theorem putSet (h : r.Seated clashed) (hs : s.DeepSeated clashed) {name : String}
    {dirty : Nat} : Record.Seated clashed { r with
      dirty := dirty,
      sets := SortedList.modify ElementSet.name name (fun _ => s) r.sets } := by
  refine of_sets ?_
  intro t ht
  rcases SortedList.eq_or_mem_of_mem_modify ht with rfl | ht
  · exact hs
  · exact h.set ht

end Record.Seated

theorem Delta.placed_empty : Delta.empty.Placed :=
  .intro (fun _ hx => absurd hx List.not_mem_nil) (fun _ hx => absurd hx List.not_mem_nil)

theorem Delta.Placed.tells {d : Delta} (h : d.Placed) {x : SetDelta}
    (hx : x ∈ d.sets) {p : Int} (told : ElementSet.Tells x.elements p) :
    absentPosition ≤ p := by
  cases h with
  | intro own _ => exact own x hx p told

theorem Delta.Placed.nested {d : Delta} (h : d.Placed) {x : SetDelta} (hx : x ∈ d.sets)
    {y : ElementDelta} (hy : y ∈ x.elements) : y.record.Placed := by
  cases h with
  | intro _ inner => exact inner x hx y hy

end Basics

section Made

variable [Catalog τ]

theorem Record.seated_blank (type : τ) (id : Int) :
    (Record.blank type id).Seated false := by
  refine .of_sets ?_
  intro s hs
  obtain ⟨decl, -, rfl⟩ := List.mem_map.mp hs
  exact ⟨fun _ => ElementSet.seated_blank decl, nofun⟩

/-- The message describes the record of an element that the baseline has. -/
structure Element.LoadedFrom (decl : SetDecl τ) (m : Message) (e : Element τ) : Prop where
  decoded : Record.ofMessage decl.element m = .ok e.record
  remote : e.isRemotePresent decl.kind = true

theorem ElementSet.loadedFrom {s : ElementSet τ} {m : Message} {record : Record τ}
    {position : Int} (decoded : Record.ofMessage s.decl.element m = .ok record)
    (placed : s.placeFor m.id m.position = .ok position) :
    (Element.loaded record position).LoadedFrom s.decl m := by
  refine ⟨decoded, ?_⟩
  cases hk : s.decl.kind with
  | unordered => rfl
  | ordered =>
      have nonneg := ((placeFor_ordered hk).mp placed).2.1
      have absent : absentPosition = -1 := rfl
      have present : position ≠ absentPosition := by omega
      exact decide_eq_true present

/-- The elements of a set that was loaded are those that it had and those that messages
describe. -/
theorem ElementSet.elements_of_load {s s' : ElementSet τ} {messages : List Message}
    (h : ElementSet.load s messages = .ok s') :
    ∀ e ∈ s'.elements, e ∈ s.elements ∨ ∃ m ∈ messages, e.LoadedFrom s.decl m := by
  induction messages generalizing s with
  | nil =>
      rw [ElementSet.load] at h
      cases h
      exact fun e he => .inl he
  | cons m rest ih =>
      have later (e : Element τ) (h : ∃ c ∈ rest, e.LoadedFrom s.decl c) :
          ∃ c ∈ m :: rest, e.LoadedFrom s.decl c :=
        h.imp (fun c => And.imp_left (List.mem_cons_of_mem m))
      by_cases dead : m.deleted = some true
      · rw [ElementSet.load, if_pos dead] at h
        exact fun e he => (ih h e he).imp_right (later e)
      · obtain ⟨position, record, after, placed, decoded, added,
            h⟩ := (load_cons_eq_ok dead).mp h
        obtain ⟨-, rfl⟩ := addLoaded_eq_ok.mp added
        intro e he
        rcases ih h e he with he | there
        · rcases SortedList.mem_of_mem_insert he with rfl | he
          · exact .inr ⟨m, List.mem_cons_self, loadedFrom decoded placed⟩
          · exact .inl he
        · exact .inr (later e there)

/-- A record that a message describes is seated. -/
theorem Record.seated_of_ofMessage (m : Message) :
    ∀ (type : τ) r, Record.ofMessage type m = .ok r → r.Seated false := by
  induction m using Message.childrenOf_induction with
  | step m ih =>
      intro type r h
      obtain ⟨own, sets, -, ⟨-, loads⟩, rfl⟩ := Record.ofMessage_eq_ok.mp h
      refine .of_sets (fun s hs => ⟨?_, ?_⟩)
      · exact fun ordered => (ElementSet.seated_of_load (loads s hs) ordered).1
      · intro e he
        rcases ElementSet.elements_of_load (loads s hs) e he with there | ⟨c, hc, loaded⟩
        · cases there
        · exact ih s.name c hc _ _ loaded.decoded

theorem Seed.seated {type : τ} {seed : Seed} {record : Record τ}
    (h : seed.record type = .ok record) : record.Seated false := by
  cases seed with
  | blank id =>
      cases h
      exact Record.seated_blank type id
  | message content => exact Record.seated_of_ofMessage content type record h

end Made

section Edits

variable {s : ElementSet τ} {clashed : Bool}

/-- One element is the other after the user changed its presence or position. -/
structure Element.Shifts (e e' : Element τ) : Prop where
  record_eq : e'.record = e.record
  position_eq : e'.position.remote = e.position.remote
  deleted_eq : e'.deleted.remote = e.deleted.remote
  sent_eq : e'.sent = e.sent

theorem Element.Shifts.refl (e : Element τ) : e.Shifts e := ⟨rfl, rfl, rfl, rfl⟩

theorem Element.Shifts.id_eq {e e' : Element τ} (h : e.Shifts e') : e'.id = e.id :=
  congrArg Record.id h.record_eq

theorem Element.Shifts.isRemotePresent_eq {kind : SetKind} {e e' : Element τ}
    (h : e.Shifts e') : e'.isRemotePresent kind = e.isRemotePresent kind := by
  cases kind with
  | ordered => rw [Element.isRemotePresent, Element.isRemotePresent, h.position_eq]
  | unordered => rw [Element.isRemotePresent, Element.isRemotePresent, h.deleted_eq]

theorem Element.shifts_markAbsent (kind : SetKind) (e : Element τ) :
    e.Shifts (e.markAbsent kind) := by
  cases kind <;> exact ⟨rfl, rfl, rfl, rfl⟩

theorem Element.shifts_reinstate (kind : SetKind) (position : Int) (e : Element τ) :
    e.Shifts (e.reinstate kind position) := by
  cases kind <;> exact ⟨rfl, rfl, rfl, rfl⟩

/-- An added element is a new one, or an element that comes back. -/
theorem ElementSet.origin_of_open? {record : Record τ} {opened : ElementSet τ}
    {e : Element τ} {was : Bool} (h : s.open? record = .ok (opened, e, was)) :
    opened.decl = s.decl ∧ opened.elements = s.elements ∧
      ((∃ position, e = .fresh s.decl.kind record position) ∨
        ∃ old ∈ s.elements, old.Shifts e) := by
  rw [ElementSet.open?] at h
  cases found : s.find? record.id with
  | none =>
      rw [found] at h
      cases hk : s.decl.kind <;> simp only [hk] at h <;> cases h <;>
        exact ⟨rfl, rfl, .inl ⟨_, rfl⟩⟩
  | some old =>
      simp only [found] at h
      split at h
      · cases h
      · cases h
        exact ⟨rfl, rfl, .inr ⟨old, SortedList.mem_of_find? found, old.shifts_reinstate _ _⟩⟩

/-- Removing an element changes presences at most. -/
theorem ElementSet.shifts_removeElement (id : Int) :
    ∀ x ∈ (s.removeElement id).1.elements, ∃ y ∈ s.elements, y.Shifts x := by
  intro x hx
  rw [ElementSet.removeElement] at hx
  cases present : s.present? id with
  | none =>
      rw [present] at hx
      exact ⟨x, hx, .refl x⟩
  | some e =>
      have he := SortedList.mem_of_find? (find?_of_present? present).1
      rw [present] at hx
      dsimp only at hx
      split at hx
      · exact ⟨x, (SortedList.mem_erase.mp hx).1, .refl x⟩
      · rcases SortedList.mem_of_mem_insert hx with rfl | hx
        · exact ⟨e, he, e.shifts_markAbsent _⟩
        · exact ⟨x, hx, .refl x⟩

/-- Exchanging two elements changes positions at most. -/
theorem ElementSet.shifts_swapElements (first second : Int) :
    ∀ x ∈ (s.swapElements first second).1.elements, ∃ y ∈ s.elements, y.Shifts x := by
  intro x hx
  rw [ElementSet.swapElements] at hx
  split at hx
  · exact ⟨x, hx, .refl x⟩
  · split at hx
    next => exact ⟨x, hx, .refl x⟩
    next => exact ⟨x, hx, .refl x⟩
    next a b ha hb =>
      split at hx
      · exact ⟨x, hx, .refl x⟩
      · rcases SortedList.mem_of_mem_insert hx with rfl | hx
        · exact ⟨b, SortedList.mem_of_find? (find?_of_present? hb).1, rfl, rfl, rfl, rfl⟩
        · rcases SortedList.mem_of_mem_insert hx with rfl | hx
          · exact ⟨a, SortedList.mem_of_find? (find?_of_present? ha).1, rfl, rfl, rfl, rfl⟩
          · exact ⟨x, hx, .refl x⟩

variable [Catalog τ]

/-- An ordered set stays seated when it is edited. -/
theorem ElementSet.Seated.edit (ordered : s.decl.kind = .ordered) (h : s.Seated clashed)
    (edit : SetEdit) : (s.edit edit).1.Seated (clashed || s.clashes edit) := by
  have moved := reseats_edit ordered h.sorted edit
  refine h.reseats moved ?_
  have nonneg := h.nonneg
  have absent : absentPosition = -1 := rfl
  rintro p (rfl | ⟨rfl, -⟩) <;> omega

theorem ElementSet.edit_decl (s : ElementSet τ) (edit : SetEdit) :
    (s.edit edit).1.decl = s.decl := by
  rw [ElementSet.edit.eq_def]
  cases edit with
  | add seed edits =>
      cases added : (seed.record s.decl.element).bind s.open? with
      | error e => simp only [added]
      | ok result =>
          obtain ⟨opened, e, was⟩ := result
          obtain ⟨record, -, opens⟩ := record_of_bind added
          simp only [added]
          exact (origin_of_open? opens).1
  | update id edits =>
      dsimp only
      split <;> rfl
  | remove id =>
      dsimp only
      rw [removeElement]
      split
      · rfl
      · dsimp only
        split <;> rfl
  | swap first second =>
      dsimp only
      rw [swapElements]
      split
      · rfl
      · split
        · rfl
        · rfl
        · split <;> rfl

/-- Where an element of a set that was edited comes from; when the edit does not clash,
the edits of the element do not. -/
inductive ElementSet.Origin (s : ElementSet τ) : SetEdit → Element τ → Prop
  | kept {edit : SetEdit} {old x : Element τ} : old ∈ s.elements → old.Shifts x →
      Origin s edit x
  /-- It is a new one. -/
  | added {seed : Seed} {edits : List Edit} {record : Record τ} {position : Int}
      {e : Element τ} :
      seed.record s.decl.element = .ok record → e = .fresh s.decl.kind record position →
      (s.clashesWithin (.add seed edits) = false → e.record.clashesAll edits = false) →
        Origin s (.add seed edits) { e with record := (e.record.editAll edits).1 }
  /-- It comes back. -/
  | restored {seed : Seed} {edits : List Edit} {old e : Element τ} :
      old ∈ s.elements → old.Shifts e →
      (s.clashesWithin (.add seed edits) = false → e.record.clashesAll edits = false) →
        Origin s (.add seed edits) { e with record := (e.record.editAll edits).1 }
  | updated {id : Int} {edits : List Edit} {e : Element τ} :
      e ∈ s.elements →
      (s.clashesWithin (.update id edits) = false → e.record.clashesAll edits = false) →
        Origin s (.update id edits) { e with record := (e.record.editAll edits).1 }

theorem ElementSet.origin_of_edit (s : ElementSet τ) (edit : SetEdit) :
    ∀ x ∈ (s.edit edit).1.elements, s.Origin edit x := by
  intro x hx
  rw [ElementSet.edit.eq_def] at hx
  cases edit with
  | add seed edits =>
      cases added : (seed.record s.decl.element).bind s.open? with
      | error e =>
          simp only [added] at hx
          exact .kept hx (.refl x)
      | ok result =>
          obtain ⟨opened, e, was⟩ := result
          obtain ⟨record, made, opens⟩ := record_of_bind added
          obtain ⟨-, elements, origin⟩ := origin_of_open? opens
          have free : s.clashesWithin (.add seed edits) = false →
              e.record.clashesAll edits = false := by
            rw [clashesWithin, added, Bool.or_eq_false_iff]
            exact And.right
          simp only [added, close, insert, elements] at hx
          rcases SortedList.mem_of_mem_insert hx with rfl | hx
          · rcases origin with ⟨position, fresh⟩ | ⟨old, hold, shifts⟩
            · exact .added made fresh free
            · exact .restored hold shifts free
          · exact .kept hx (.refl x)
  | update id edits =>
      cases present : s.present? id with
      | none =>
          simp only [present] at hx
          exact .kept hx (.refl x)
      | some e =>
          have he := SortedList.mem_of_find? (find?_of_present? present).1
          have free : s.clashesWithin (.update id edits) = false →
              e.record.clashesAll edits = false := by
            rw [clashesWithin, present]
            exact fun free => free
          simp only [present, close, insert] at hx
          rcases SortedList.mem_of_mem_insert hx with rfl | hx
          · exact .updated he free
          · exact .kept hx (.refl x)
  | remove id =>
      obtain ⟨y, hy, shifts⟩ := shifts_removeElement id x hx
      exact .kept hy shifts
  | swap first second =>
      obtain ⟨y, hy, shifts⟩ := shifts_swapElements first second x hx
      exact .kept hy shifts

/-- An edit that does not clash at any depth does not clash in the set itself. -/
theorem ElementSet.clashes_of_within {s : ElementSet τ} {edit : SetEdit}
    (free : s.clashesWithin edit = false) : s.clashes edit = false := by
  cases edit with
  | add seed edits =>
      rw [ElementSet.clashesWithin, Bool.or_eq_false_iff] at free
      exact free.1
  | update | remove | swap => rfl

mutual

theorem Record.Seated.edit {r : Record τ} {clashed : Bool} (h : r.Seated clashed) :
    (edit : Edit) → (r.edit edit).1.Seated (clashed || r.clashes edit)
  | .write field value => by
      rw [Record.edit, Record.writeField, Record.clashes, Bool.or_false]
      split
      · exact h
      · split
        · cases h with
          | intro own nested => exact .intro own nested
        · exact h
  | .within set edit => by
      rw [Record.edit, Record.clashes]
      cases found : r.set? set with
      | none => exact (Bool.or_false clashed).symm ▸ h
      | some s =>
          have own := h.set (SortedList.mem_of_find? found)
          have nested := ElementSet.DeepSeated.edit_nested own edit
          refine Record.Seated.putSet (h.or _) ⟨?_, nested⟩
          intro ordered
          rw [s.edit_decl] at ordered
          refine ((own.own ordered).edit ordered edit).mono ?_
          simp only [Bool.or_eq_false_iff]
          exact And.imp_right ElementSet.clashes_of_within

theorem Record.Seated.editAll {r : Record τ} {clashed : Bool} (h : r.Seated clashed) :
    (edits : List Edit) → (r.editAll edits).1.Seated (clashed || r.clashesAll edits)
  | [] => by
      rw [Record.editAll, Record.clashesAll, Bool.or_false]
      exact h
  | edit :: rest => by
      rw [Record.editAll, Record.clashesAll, ← Bool.or_assoc]
      exact Record.Seated.editAll (Record.Seated.edit h edit) rest

/-- The records in a set stay seated. -/
theorem ElementSet.DeepSeated.edit_nested {s : ElementSet τ} {clashed : Bool}
    (h : s.DeepSeated clashed) : (edit : SetEdit) → ∀ x ∈ (s.edit edit).1.elements,
      x.record.Seated (clashed || s.clashesWithin edit)
  | .add seed edits => by
      intro x hx
      cases s.origin_of_edit (.add seed edits) x hx with
      | kept hold shifts => exact shifts.record_eq ▸ (h.nested _ hold).or _
      | added made fresh free =>
          subst fresh
          rw [Element.record_fresh] at free ⊢
          refine (Record.Seated.editAll (Seed.seated made) edits).mono ?_
          simp only [Bool.or_eq_false_iff]
          exact fun none => ⟨trivial, free none.2⟩
      | restored hold shifts free =>
          have seated := shifts.record_eq ▸ h.nested _ hold
          refine (Record.Seated.editAll seated edits).mono ?_
          simp only [Bool.or_eq_false_iff]
          exact And.imp_right free
  | .update id edits => by
      intro x hx
      cases s.origin_of_edit (.update id edits) x hx with
      | kept hold shifts => exact shifts.record_eq ▸ (h.nested _ hold).or _
      | updated he free =>
          refine (Record.Seated.editAll (h.nested _ he) edits).mono ?_
          simp only [Bool.or_eq_false_iff]
          exact And.imp_right free
  | .remove id => by
      intro x hx
      cases s.origin_of_edit (.remove id) x hx with
      | kept hold shifts => exact shifts.record_eq ▸ (h.nested _ hold).or _
  | .swap first second => by
      intro x hx
      cases s.origin_of_edit (.swap first second) x hx with
      | kept hold shifts => exact shifts.record_eq ▸ (h.nested _ hold).or _

end

end Edits

section Attempts

variable {r : Record τ} {s : ElementSet τ} {clashed : Bool}

/-- The delta of a seated record tells no position below `absentPosition`. -/
theorem Record.Seated.delta_placed [Catalog τ] (h : r.Seated clashed) (sound : r.Sound) :
    r.delta.Placed := by
  induction h with
  | @intro r own nested ih =>
      have tidy := sound.tidy
      have set : ∀ x ∈ r.delta.sets, ∃ s ∈ r.sets, x.elements = s.delta := by
        intro x hx
        rw [Record.delta_eq] at hx
        obtain ⟨s, hs, hx⟩ := List.mem_filterMap.mp hx
        exact ⟨s, hs, by rw [ElementSet.delta?_eq_some hx]⟩
      refine .intro ?_ ?_
      · intro x hx p told
        obtain ⟨s, hs, elements⟩ := set x hx
        rw [elements] at told
        cases hk : s.decl.kind with
        | ordered => exact (own s hs hk).above p (ElementSet.uses_of_tells told)
        | unordered =>
            obtain ⟨y, hy, hp⟩ := told
            obtain ⟨e, he, -, rfl⟩ := ElementSet.mem_delta.mp hy
            have shaped := (tidy.sets_tidy s hs).shaped e he
            rw [hk] at shaped
            have shaped : e.position = .clean 0 := shaped
            simp [shaped, Tracked.delta?, Tracked.isDirty_clean] at hp
      · intro x hx y hy
        obtain ⟨s, hs, elements⟩ := set x hx
        rw [elements] at hy
        obtain ⟨e, he, -, rfl⟩ := ElementSet.mem_delta.mp hy
        dsimp only
        split
        · exact ih s hs e he (sound.nested hs he)
        · exact Delta.placed_empty

theorem ElementSet.Seated.unclashed {given : Int → Prop} {s' : ElementSet τ}
    (h : s.Seated clashed) (moved : s.Reseats given false s')
    (above : ∀ p, given p → absentPosition ≤ p) : s'.Seated clashed :=
  (h.reseats moved above).mono (fun free => Bool.or_eq_false_iff.mpr ⟨free, rfl⟩)

theorem Record.Seated.markSent (h : r.Seated clashed) : r.markSent.Seated clashed := by
  induction h with
  | @intro r own nested ih =>
      rw [Record.markSent_eq]
      refine .of_sets ?_
      intro s' hs'
      obtain ⟨s, hs, rfl⟩ := List.mem_map.mp hs'
      refine ⟨?_, ?_⟩
      · intro ordered
        have seated := own s hs ordered
        exact seated.unclashed (ElementSet.reseats_markSent seated.sorted) nofun
      · rw [ElementSet.markSent_eq]
        intro e' he'
        obtain ⟨e, he, rfl⟩ := List.mem_map.mp he'
        rw [Element.markSent]
        split
        · exact ih s hs e he
        · exact nested s hs e he

/-- A record stays seated when the elements that a delta names are settled by a change
that leaves the user's positions alone. -/
theorem Record.Seated.settle (h : r.Seated clashed) {d : Delta} (hd : d.Placed)
    (move : Field → Field) (change : SetKind → ElementDelta → Element τ → Element τ)
    (keeps : ∀ kind x e, (change kind x e).id = e.id ∧
      (change kind x e).position.current = e.position.current)
    (remote : ∀ kind x e, (change kind x e).position.remote = e.position.remote ∨
      x.position = some (change kind x e).position.remote)
    (inner : ∀ s ∈ r.sets, ∀ e ∈ s.elements, ∀ x,
      SortedList.find? SetDelta.name s.name d.sets = some x → ∀ y ∈ x.elements,
        (change s.decl.kind y e).record.Seated clashed) :
    (Record.recount { r with
      fields := r.fields.map move
      sets := r.sets.map (ElementSet.visited (fun changes s => { s with
        elements := s.elements.filterMap
          (Element.settled s.decl.kind (change s.decl.kind) changes) }.recount)
          d.sets) }).Seated
      clashed := by
  refine .of_sets ?_
  intro s' hs'
  obtain ⟨s, hs, rfl⟩ := List.mem_map.mp hs'
  rw [ElementSet.visited]
  split
  next => exact h.set hs
  next x found =>
    have hx := SortedList.mem_of_find? found
    refine ⟨?_, ?_⟩
    · intro ordered
      have seated := (h.set hs).own ordered
      have moved : s.Reseats (ElementSet.Tells x.elements) false _ :=
        ElementSet.reseats_settled (keeps s.decl.kind)
          (fun y hy e => (remote s.decl.kind y e).imp_right (fun told => ⟨y, hy, told⟩))
          seated.sorted false
      exact seated.unclashed moved.recount (fun p told => hd.tells hx told)
    · intro e' he'
      obtain ⟨e, he, settled⟩ := List.mem_filterMap.mp he'
      rcases Element.settled_eq_some.mp settled with ⟨-, rfl⟩ | ⟨y, hy, -, rfl⟩
      · exact (h.set hs).nested _ he
      · exact inner s hs e he x found y (SortedList.mem_of_find? hy)

/-- A record stays seated when its baseline moves. -/
theorem Record.Seated.advance (h : r.Seated clashed) {d : Delta} (hd : d.Placed) :
    (r.advance d).Seated clashed := by
  induction h generalizing d with
  | @intro r own nested ih =>
      have settled := Record.Seated.settle (.intro own nested) hd (Field.commitFrom d.fields)
        (fun _ => Element.advance)
        (fun _ x e => ⟨Element.advance_id x e, (e.position_advance x).1⟩)
        (fun _ x e => (e.position_advance x).2) (fun s hs e he x found y hy =>
          ih s hs e he (hd.nested (SortedList.mem_of_find? found) hy))
      rw [Record.advance_eq]
      exact settled

variable [Catalog τ]

/-- A record stays seated when an attempt is rolled back. -/
theorem Record.Seated.rollback (h : r.Seated clashed) (sound : r.Sound) {d : Delta}
    (suits : d.Suits r.type) (hd : d.Placed) : (r.rollback d).Seated clashed := by
  induction sound generalizing d with
  | @intro r tidy inner ih =>
      have sound : r.Sound := .intro tidy inner
      rw [(sound.accords suits rfl).rollback_eq]
      refine h.settle hd _ Element.retract ?_ ?_ ?_
      · intro kind x e
        exact ⟨e.retract_id kind x, by rw [(e.retract_presence kind x).1]⟩
      · intro kind x e
        exact .inl (by rw [(e.retract_presence kind x).1])
      · intro s hs e he x found y hy
        have own := ((tidy.suits suits hs found).2 y hy).2
        rw [Element.retract_record]
        exact ih s hs e he ((h.set hs).nested e he) ((tidy.sets_tidy s hs).typed e he ▸ own)
          (hd.nested (SortedList.mem_of_find? found) hy)

end Attempts

section History

variable [Catalog τ]

/-- A record that can be reached from one just made, with the deltas of the attempts so
far; it is noted if an edit clashed, in a set at any depth. -/
inductive Record.History (type : τ) : Record τ → List Delta → Bool → Prop
  | blank (id : Int) : History type (.blank type id) [] false
  | decoded {content : Message} {r : Record τ} :
      Record.ofMessage type content = .ok r → History type r [] false
  | edit {r : Record τ} {attempts : List Delta} {clashed : Bool} (edit : Edit) :
      History type r attempts clashed →
        History type (r.edit edit).1 attempts (clashed || r.clashes edit)
  | send {r r' : Record τ} {attempts : List Delta} {clashed : Bool} {patch : Message}
      {d : Delta} :
      History type r attempts clashed → r.synchronize = some (patch, d, r') →
        History type r' (d :: attempts) clashed
  | commit {r r' : Record τ} {attempts : List Delta} {clashed : Bool} {d : Delta} :
      History type r attempts clashed → d ∈ attempts → r.commit d = .ok r' →
        History type r' attempts clashed
  | rollback {r : Record τ} {attempts : List Delta} {clashed : Bool} {d : Delta} :
      History type r attempts clashed → d ∈ attempts →
      History type (r.rollback d) attempts clashed

namespace Record.History

variable {type : τ} {r : Record τ} {attempts : List Delta} {clashed : Bool}

theorem reachable (h : History type r attempts clashed) :
    Record.Reachable type r attempts := by
  induction h with
  | blank id => exact .blank id
  | decoded made => exact .decoded made
  | edit edit _ ih => exact ih.edit edit
  | send _ sent ih => exact ih.send sent
  | commit _ hd committed ih => exact ih.commit hd committed
  | rollback _ hd ih => exact ih.rollback hd

/-- Every record that can be reached has a history. -/
theorem of_reachable (h : Record.Reachable type r attempts) :
    ∃ clashed, History type r attempts clashed := by
  induction h with
  | blank id => exact ⟨_, .blank id⟩
  | decoded made => exact ⟨_, .decoded made⟩
  | edit edit _ ih => exact ih.imp' _ (fun _ past => past.edit edit)
  | send _ sent ih => exact ih.imp (fun _ past => past.send sent)
  | commit _ hd committed ih => exact ih.imp (fun _ past => past.commit hd committed)
  | rollback _ hd ih => exact ih.imp (fun _ past => past.rollback hd)

/-- A record that can be reached is seated, and its attempts tell no position below
`absentPosition`. -/
theorem seated (h : History type r attempts clashed) :
    r.Seated clashed ∧ ∀ d ∈ attempts, d.Placed := by
  induction h with
  | blank id => exact ⟨seated_blank type id, nofun⟩
  | decoded made => exact ⟨seated_of_ofMessage _ type _ made, nofun⟩
  | edit edit _ ih => exact ⟨ih.1.edit edit, ih.2⟩
  | send past sent ih =>
      obtain ⟨-, -, rfl, rfl⟩ := synchronize_eq_some.mp sent
      have placed := ih.1.delta_placed past.reachable.sound.1
      exact ⟨ih.1.markSent, List.forall_mem_cons.mpr ⟨placed, ih.2⟩⟩
  | commit past hd committed ih =>
      obtain ⟨sound, rfl, suits⟩ := past.reachable.sound
      obtain ⟨-, rfl⟩ := (sound.commit_eq_ok_iff (suits _ hd)).mp committed
      exact ⟨ih.1.advance (ih.2 _ hd), ih.2⟩
  | rollback past hd ih =>
      obtain ⟨sound, rfl, suits⟩ := past.reachable.sound
      exact ⟨ih.1.rollback sound (suits _ hd) (ih.2 _ hd), ih.2⟩

end Record.History

end History

end RecordSync
