import RecordSync.Controller
import RecordSync.Proofs.Record.Counters

/-!
# Notices as a trace

Whoever watches a record learns of an edit by at most one notice, and can follow the
record's count by the notices alone: each says what the count is after the edit and how
far it moved.

**Idle edits.**  `Record.idles` tells from a record, without running the edit, that the
edit is to change nothing: it writes the value that the field has, exchanges an element
with itself, opens an element for edits that are idle themselves, or asks for what is
refused.  Opening an element to change a value and change it back is not idle; the notice
of it tells of a move by zero.

**Folding.**  What is edited inside an element reaches the record as one move of the set's
count, which can be by two elements at once.  The record makes of it the move of its own
count, by `Notice.enclose`; this is right because the count of a record with a dirty set
is not zero.

**Results.**
* `Record.Sound.reports`: what is told of one edit.
* `Record.Sound.traces`: what is told of a run of edits.
* `Record.Reachable.notices_exact`: both for every record that can be reached, and that
  its controller misses no change.
-/

namespace RecordSync

variable {τ : Type}

section Idle

def Record.idlesWriting (r : Record τ) (field : String) (value : Value) : Bool :=
  match SortedList.find? Field.name field r.fields with
  | none => true
  | some f => !f.decl.kind.Holds value || decide (f.value.current = value)

def ElementSet.idlesSwapping (s : ElementSet τ) (first second : Int) : Bool :=
  s.decl.kind != .ordered || (s.present? first).isNone || (s.present? second).isNone ||
    decide (first = second)

variable [Catalog τ]

mutual

/-- The edit asks for what is already so, or for what the record refuses. -/
def Record.idles (r : Record τ) : Edit → Bool
  | .write field value => r.idlesWriting field value
  | .within set edit =>
    match r.set? set with
    | none => true
    | some s => s.idles edit

/-- Each of the edits asks for what is already so, or for what the record refuses. -/
def Record.idlesAll (r : Record τ) : List Edit → Bool
  | [] => true
  | edit :: rest => r.idles edit && r.idlesAll rest

def ElementSet.idles (s : ElementSet τ) : SetEdit → Bool
  | .add seed _ =>
    match (seed.record s.decl.element).bind s.open? with
    | .error _ => true
    | .ok _ => false
  | .update id edits =>
    match s.present? id with
    | none => true
    | some e => e.record.idlesAll edits
  | .remove id => (s.present? id).isNone
  | .swap first second => s.idlesSwapping first second

end

end Idle

/-- The edit was not carried out. -/
def Outcome.failed : Outcome → Bool
  | .ignored => true
  | .within (.refused _) _ _ => true
  | _ => false

section Told

variable [Catalog τ]

/-- What a view tells of an edit of its record. -/
structure Record.Reports (r : Record τ) (edit : Edit) : Prop where
  /-- Exactly the idle edits are passed over in silence. -/
  silent_iff : (r.edit edit).2.1 = none ↔ r.idles edit = true
  idle_same : r.idles edit = true → (r.edit edit).1 = r
  failed_idle : (r.edit edit).2.2.failed = true → r.idles edit = true
  /-- The notice holds the count right after the edit and how far that is from the count
  right before it. -/
  exact : ∀ notice, (r.edit edit).2.1 = some notice →
    notice = ⟨(r.edit edit).1.dirty, ((r.edit edit).1.dirty : Int) - r.dirty⟩
  /-- What the user sees, what there is to send and the count do not change in silence. -/
  complete : (r.edit edit).1.localMessage ≠ r.localMessage ∨
    (r.edit edit).1.delta ≠ r.delta ∨
    (r.edit edit).1.dirty ≠ r.dirty → (r.edit edit).2.1 ≠ none

/-- The notices of a run: each takes the count from where the one before left it. -/
inductive Traces : Nat → List Notice → Nat → Prop
  | done (count : Nat) : Traces count [] count
  | told {before after last : Nat} {rest : List Notice} :
      Traces after rest last → Traces before (.ofMove before after :: rest) last

end Told

section Folding

/-- The notice of a set's move becomes a notice of the move of the record's count. -/
theorem Notice.enclose_exact {parent before after : Nat} (h : 0 < before → 0 < parent) :
    Notice.enclose parent (.ofMove before after) =
      .ofMove parent (Notice.enclose parent (.ofMove before after)).dirty := by
  have dirty : (Notice.ofMove before after).dirty = after := rfl
  have change : (Notice.ofMove before after).change = (after : Int) - before := rfl
  rw [Notice.enclose, dirty, change]
  split
  next emptied =>
    have := h (by omega)
    simp only [Notice.ofMove, Notice.mk.injEq, true_and]
    omega
  next =>
    split
    · simp only [Notice.ofMove, Notice.mk.injEq, true_and]
      omega
    · simp [Notice.ofMove]

/-- The notice of a field's transition is a notice of the move of the record's count. -/
theorem Tracked.notice?_exact {α : Type} [DecidableEq α] {t : Tracked α} {x : α}
    {count : Nat} (h : t.isDirty = true → 0 < count) {notice : Notice}
    (told : (t.writeTransition x).notice? count = some notice) :
    notice = .ofMove count notice.dirty := by
  rw [Tracked.writeTransition] at told
  split at told
  next => cases told
  next =>
    cases was : t.isDirty <;> cases is : (t.write x).isDirty <;>
      simp only [was, is, Transition.between, Transition.notice?] at told <;>
      cases told <;>
      simp only [Notice.ofMove, Notice.mk.injEq, true_and]
    · omega
    · have := h was
      omega
    · omega

/-- A write is passed over in silence exactly when the content is the same. -/
theorem Tracked.notice?_eq_none_iff {α : Type} [DecidableEq α] {t : Tracked α} {x : α}
    {count : Nat} : (t.writeTransition x).notice? count = none ↔ t.current = x := by
  constructor
  · intro silent
    exact (congrArg Tracked.current (Tracked.writeTransition_silent silent)).symm
  · intro same
    rw [Tracked.writeTransition, if_pos same]
    rfl

end Folding

section Parts

variable {r : Record τ} {s : ElementSet τ}

theorem Record.writeField_silent_iff (r : Record τ) (field : String) (value : Value) :
    (r.writeField field value).2.1 = none ↔ r.idlesWriting field value = true := by
  rw [Record.writeField, Record.idlesWriting]
  cases SortedList.find? Field.name field r.fields with
  | none => simp
  | some f =>
      dsimp only
      split
      next holds => simp [holds, Tracked.notice?_eq_none_iff]
      next other => simp [other]

theorem Record.failed_writeField {field : String} {value : Value}
    (failed : (r.writeField field value).2.2.failed = true) :
    r.idlesWriting field value = true := by
  rw [← Record.writeField_silent_iff]
  rw [Record.writeField] at failed ⊢
  split
  next => rfl
  next f found =>
    rw [found] at failed
    dsimp only at failed ⊢
    split
    next holds =>
      rw [if_pos holds] at failed
      cases failed
    next => rfl

theorem ElementSet.removeElement_silent_iff (s : ElementSet τ) (id : Int) :
    (s.removeElement id).2.1 = none ↔ (s.present? id).isNone = true := by
  rw [ElementSet.removeElement]
  cases s.present? id with
  | none => simp
  | some e => simp

theorem ElementSet.swapElements_silent_iff (s : ElementSet τ) (first second : Int) :
    (s.swapElements first second).2.1 = none ↔ s.idlesSwapping first second = true := by
  rw [ElementSet.swapElements, ElementSet.idlesSwapping]
  split
  next unordered => simp [unordered]
  next ordered =>
    cases s.present? first with
    | none => simp
    | some a =>
        cases s.present? second with
        | none => simp
        | some b =>
            dsimp only
            split
            next same => simp [same]
            next differ => simp [differ, not_not.mp ordered]

/-- The set tells nothing when an element is put back as it was and nothing is to be
announced. -/
theorem ElementSet.close_silent_iff {was announce : Bool} {e : Element τ} :
    (s.close was announce e).2 = none ↔
      announce = false ∧ (s.close was announce e).1.dirty = s.dirty := by
  rw [ElementSet.close]
  cases announce <;> simp

theorem ElementSet.close_same (s : ElementSet τ) (announce : Bool) (e : Element τ) :
    (s.close (e.isDirty s.decl.kind) announce e).1.dirty = s.dirty := by
  cases h : e.isDirty s.decl.kind <;> simp [ElementSet.close, adjust, h]

variable [Catalog τ]

theorem Record.Sound.writeField_exact (h : r.Sound) {field : String} {value : Value}
    {notice : Notice} (told : (r.writeField field value).2.1 = some notice) :
    notice = .ofMove r.dirty (r.writeField field value).1.dirty := by
  rw [Record.writeField] at told ⊢
  cases found : SortedList.find? Field.name field r.fields with
  | none => simp [found] at told
  | some f =>
      rw [found] at told
      dsimp only at told ⊢
      split
      next holds =>
        rw [if_pos holds] at told
        have told : (f.value.writeTransition value).notice? r.dirty = some notice := told
        have exact := Tracked.notice?_exact
          (h.tidy.dirty_pos_of_field (SortedList.mem_of_find? found)) told
        dsimp only
        rwa [told, dirtyAfter]
      next other =>
        rw [if_neg other] at told
        cases told

theorem Record.Sound.afterSetEdit_exact (h : r.Sound) {s' : ElementSet τ}
    (hs : s ∈ r.sets) {inner : Option Notice} (inside : s.Told s' inner)
    (result : SetOutcome) {notice : Notice}
    (told : (r.afterSetEdit s' inner result).2.1 = some notice) :
    notice = .ofMove r.dirty (r.afterSetEdit s' inner result).1.dirty := by
  cases inside with
  | silent => cases told
  | moved =>
      cases told
      refine Notice.enclose_exact (fun dirty => h.tidy.dirty_pos_of_set hs ?_)
      simpa [ElementSet.isDirty] using dirty

end Parts

section Edits

variable [Catalog τ]

mutual

/-- The view of a sound record is silent exactly about the idle edits. -/
theorem Record.Sound.silent_iff {r : Record τ} (h : r.Sound) : (edit : Edit) →
    ((r.edit edit).2.1 = none ↔ r.idles edit = true)
  | .write field value => by
      rw [Record.edit, Record.idles]
      exact r.writeField_silent_iff field value
  | .within set edit => by
      rw [Record.edit, Record.idles]
      cases found : r.set? set with
      | none => simp
      | some s =>
          have hs := SortedList.mem_of_find? found
          have silent :=
            ElementSet.Sound.silent_iff ⟨h.set hs, fun e he => h.nested hs he⟩ edit
          simpa [Record.afterSetEdit] using silent

/-- A silent edit leaves the record as it was, so that the edits after it are idle
there. -/
theorem Record.Sound.silentAll_iff {r : Record τ} (h : r.Sound) : (edits : List Edit) →
    ((r.editAll edits).2.any (·.1.isSome) = false ↔ r.idlesAll edits = true)
  | [] => by simp [Record.editAll, Record.idlesAll]
  | edit :: rest => by
      have first := Record.Sound.silent_iff h edit
      rw [Record.editAll, Record.idlesAll]
      simp only [List.any_cons, Bool.or_eq_false_iff, Option.isSome_eq_false_iff,
        Option.isNone_iff_eq_none, Bool.and_eq_true]
      rw [first]
      refine and_congr_right (fun idle => ?_)
      rw [(h.edit edit).2 (first.mpr idle)]
      exact Record.Sound.silentAll_iff h rest

/-- A sound set is silent exactly about the idle edits. -/
theorem ElementSet.Sound.silent_iff {s : ElementSet τ} (h : s.Sound) : (edit : SetEdit) →
    ((s.edit edit).2.1 = none ↔ s.idles edit = true)
  | .add seed edits => by
      rw [ElementSet.edit, ElementSet.idles]
      cases (seed.record s.decl.element).bind s.open? with
      | error e => simp
      | ok result => simp [ElementSet.close]
  | .update id edits => by
      rw [ElementSet.edit, ElementSet.idles]
      cases present : s.present? id with
      | none => simp
      | some e =>
          obtain ⟨found, -⟩ := ElementSet.present?_eq_some.mp present
          have sound := (h.opened found).sound
          have inner := Record.Sound.silentAll_iff sound edits
          dsimp only
          rw [ElementSet.close_silent_iff, inner]
          refine and_iff_left_of_imp (fun idle => ?_)
          -- the element goes back as it was
          rw [(sound.editAll edits).2 (inner.mpr idle)]
          exact s.close_same ((e.record.editAll edits).2.any (·.1.isSome)) e
  | .remove id => by
      rw [ElementSet.edit, ElementSet.idles]
      exact s.removeElement_silent_iff id
  | .swap first second => by
      rw [ElementSet.edit, ElementSet.idles]
      exact s.swapElements_silent_iff first second

end

/-- A set edit that is refused is idle. -/
theorem ElementSet.idles_of_refused {s : ElementSet τ} {edit : SetEdit}
    {error : RecordError} (refused : (s.edit edit).2.2 = .refused error) :
    s.idles edit = true := by
  cases edit with
  | add seed edits =>
      rw [ElementSet.edit] at refused
      rw [ElementSet.idles]
      cases opened : (seed.record s.decl.element).bind s.open? with
      | error e => rfl
      | ok result =>
          rw [opened] at refused
          cases refused
  | update id edits =>
      rw [ElementSet.edit] at refused
      rw [ElementSet.idles]
      cases present : s.present? id with
      | none => rfl
      | some e =>
          rw [present] at refused
          cases refused
  | remove id =>
      rw [ElementSet.edit, ElementSet.removeElement] at refused
      rw [ElementSet.idles]
      cases present : s.present? id with
      | none => rfl
      | some e =>
          rw [present] at refused
          cases refused
  | swap first second =>
      rw [ElementSet.edit] at refused
      rw [ElementSet.idles, ← ElementSet.swapElements_silent_iff]
      rw [ElementSet.swapElements] at refused ⊢
      split
      next => rfl
      next ordered =>
        rw [if_neg ordered] at refused
        cases ha : s.present? first with
        | none => rfl
        | some a =>
            cases hb : s.present? second with
            | none => rfl
            | some b =>
                rw [ha, hb] at refused
                dsimp only at refused ⊢
                split at refused
                next same => rw [if_pos same]
                next => cases refused

theorem Record.idles_of_failed {r : Record τ} {edit : Edit}
    (failed : (r.edit edit).2.2.failed = true) : r.idles edit = true := by
  cases edit with
  | write field value =>
      rw [Record.edit] at failed
      rw [Record.idles]
      exact Record.failed_writeField failed
  | within set edit =>
      rw [Record.edit] at failed
      rw [Record.idles]
      cases found : r.set? set with
      | none => rfl
      | some s =>
          rw [found] at failed
          dsimp only [Record.afterSetEdit] at failed ⊢
          cases result : (s.edit edit).2.2 with
          | refused error => exact ElementSet.idles_of_refused result
          | edited id dirty inner =>
              rw [result] at failed
              cases failed
          | done =>
              rw [result] at failed
              cases failed

theorem Record.Sound.edit_exact {r : Record τ} (h : r.Sound) {edit : Edit}
    {notice : Notice} (told : (r.edit edit).2.1 = some notice) :
    notice = .ofMove r.dirty (r.edit edit).1.dirty := by
  cases edit with
  | write field value =>
      rw [Record.edit] at told ⊢
      exact h.writeField_exact told
  | within set edit =>
      rw [Record.edit] at told ⊢
      cases found : r.set? set with
      | none => simp [found] at told
      | some s =>
          rw [found] at told
          have hs := SortedList.mem_of_find? found
          have sound : s.Sound := ⟨h.set hs, fun e he => h.nested hs he⟩
          exact h.afterSetEdit_exact hs (sound.edit edit).2 _ told

/-- What the view of a sound record tells of an edit. -/
theorem Record.Sound.reports {r : Record τ} (h : r.Sound) (edit : Edit) :
    r.Reports edit where
  silent_iff := h.silent_iff edit
  idle_same := fun idle => (h.edit edit).2 ((h.silent_iff edit).mpr idle)
  failed_idle := Record.idles_of_failed
  exact := fun _ told => h.edit_exact told
  complete := by
    intro changed silent
    rw [(h.edit edit).2 silent] at changed
    simp at changed

end Edits

section Runs

variable [Catalog τ]

theorem firedNotices_eq_nil_iff (steps : List (Option Notice × Outcome)) :
    firedNotices steps = [] ↔ steps.any (·.1.isSome) = false := by
  simp [firedNotices, List.filterMap_eq_nil_iff]

theorem Record.editAll_cons (r : Record τ) (edit : Edit) (rest : List Edit) :
    r.editAll (edit :: rest) = (((r.edit edit).1.editAll rest).1,
      (r.edit edit).2 :: ((r.edit edit).1.editAll rest).2) := by
  rw [Record.editAll]

theorem Record.length_editAll (r : Record τ) (edits : List Edit) :
    (r.editAll edits).2.length = edits.length := by
  induction edits generalizing r with
  | nil => simp [Record.editAll]
  | cons edit rest ih => simp [Record.editAll, ih]

/-- The notices of a run of edits take the count from what it was to what it is. -/
theorem Record.Sound.traces {r : Record τ} (h : r.Sound) (edits : List Edit) :
    Traces r.dirty (firedNotices (r.editAll edits).2) (r.editAll edits).1.dirty := by
  induction edits generalizing r with
  | nil =>
      rw [Record.editAll]
      exact .done _
  | cons edit rest ih =>
      have others := ih (h.edit edit).1.sound
      rw [Record.editAll_cons]
      dsimp only
      cases told : (r.edit edit).2.1 with
      | none =>
          rw [(h.edit edit).2 told] at others ⊢
          rwa [firedNotices, List.filterMap_cons_none told]
      | some notice =>
          rw [firedNotices, List.filterMap_cons_some told, h.edit_exact told]
          exact .told others

/-- A controller notes a run of edits once, unless the record is idle for all of them;
then nothing of the controller changes. -/
theorem Record.Sound.update_eq {c : Controller τ} (h : c.record.Sound) (runtime : Bool)
    (edits : List Edit) :
    c.update runtime edits =
      (if c.record.idlesAll edits then c
        else { c with record := (c.record.editAll edits).1 }.noteChange runtime,
        (c.record.editAll edits).2) := by
  have silent := h.silentAll_iff edits
  rw [Controller.update]
  cases idle : c.record.idlesAll edits with
  | true =>
      have quiet := silent.mpr idle
      simp [quiet, (h.editAll edits).2 quiet]
  | false =>
      rw [idle] at silent
      have told : (c.record.editAll edits).2.any (·.1.isSome) = true := by
        rw [← Bool.not_eq_false, silent]
        exact Bool.false_ne_true
      simp only [told, if_true]
      rfl

/-- The notices of a view are an exact trace of the edits.  For a record that can be
reached, and every record nested in it: an edit is told of by at most one notice, which
has the count after it and the move of the count; exactly the idle edits, the refused ones
among them, are not told of, and they change nothing.  For every run of edits: each has
its answer, the notices lead from the first count to the last, a change of what the user
sees, of what is to be sent or of the count is told of, and a controller of the record
notes the run unless it is idle. -/
theorem Record.Reachable.notices_exact {type : τ} {r : Record τ} {attempts : List Delta}
    (h : Reachable type r attempts) :
    (∀ x : Record τ, x.Within r → ∀ edit, x.Reports edit) ∧
    ∀ edits,
      (r.editAll edits).2.length = edits.length ∧
      Traces r.dirty (firedNotices (r.editAll edits).2) (r.editAll edits).1.dirty ∧
      (firedNotices (r.editAll edits).2 = [] ↔ r.idlesAll edits = true) ∧
      ((r.editAll edits).1.localMessage ≠ r.localMessage ∨
        (r.editAll edits).1.delta ≠ r.delta ∨ (r.editAll edits).1.dirty ≠ r.dirty →
        firedNotices (r.editAll edits).2 ≠ []) ∧
      ∀ (runtime : Bool) (c : Controller τ), c.record = r →
        c.update runtime edits =
          (if r.idlesAll edits then c
            else { c with record := (r.editAll edits).1 }.noteChange runtime,
            (r.editAll edits).2) := by
  obtain ⟨sound, -, -⟩ := h.sound
  refine ⟨fun x hx => (sound.within hx).reports, fun edits => ?_⟩
  refine ⟨r.length_editAll edits, sound.traces edits, ?_, ?_, ?_⟩
  · rw [firedNotices_eq_nil_iff]
    exact sound.silentAll_iff edits
  · intro changed silent
    rw [(sound.editAll edits).2 ((firedNotices_eq_nil_iff _).mp silent)] at changed
    simp at changed
  · rintro runtime c rfl
    exact sound.update_eq runtime edits

/-- A task entry is added with a tag; writing the same tag and exchanging the entry with
itself are not told of, and writing another tag and the old one again is, with a move by
zero. -/
theorem notices_exact_of_tagged_entry :
    ∃ (r : Record Entity) (edits : List Edit), Record.Reachable .kim r [] ∧
      edits = [.within "tasks" (.add (.blank 5) [.write "tag" (.text "a")]),
        .within "tasks" (.update 5 [.write "tag" (.text "a")]),
        .within "tasks" (.swap 5 5),
        .within "tasks" (.update 5 [.write "tag" (.text "b"), .write "tag" (.text "a")]),
        .write "name" (.text "c"), .within "tasks" (.remove 5)] ∧
      firedNotices (r.editAll edits).2 = [⟨1, 1⟩, ⟨1, 0⟩, ⟨2, 1⟩, ⟨1, -1⟩] ∧
      Traces r.dirty (firedNotices (r.editAll edits).2) (r.editAll edits).1.dirty :=
  ⟨_, _, .blank 1, rfl, by decide +kernel, ((Record.Reachable.blank 1).notices_exact.2 _).2.1⟩

end Runs

end RecordSync
