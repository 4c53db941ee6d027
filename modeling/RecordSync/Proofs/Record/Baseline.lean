import RecordSync.Entity
import RecordSync.Proofs.Record.Editing

/-!
# The baseline of a record

A record sends its changes attempt by attempt.  An attempt is accepted, and its delta
committed, or it is rejected and rolled back; the user edits the record before, between
and during attempts.

The delta was taken of a record that has moved on when it is committed: elements that it
names may have been removed, added again, exchanged or edited.  But the trunk of the
record is still that of the moment when the delta left, and the trunk decides what the
commit does.

**Results.**
* `Exchange.Holds.step`: each step keeps the tie between the record and the outstanding
  delta.
* `Exchange.Reachable.accepted_baseline`: the outstanding delta can be committed, and the
  baseline is what the user saw when the attempt was begun that was accepted last.
* `Exchange.Reachable.views_undisturbed`: to begin an attempt and to reject it does not
  show in any view of the record, and the next attempt tells all that differs.
-/

namespace RecordSync

variable {τ : Type} [Catalog τ]

/-- A record whose changes are sent attempt by attempt. -/
structure Exchange (τ : Type) where
  record : Record τ
  /-- The delta of the attempt that is out, with what the user saw when it was taken. -/
  outstanding : Option (Delta × Message)
  /-- What the user saw when the attempt was begun that was accepted last; at first, the
  record as it was made. -/
  accepted : Message

namespace Exchange

def start (r : Record τ) : Exchange τ := ⟨r, none, r.localMessage⟩

inductive Step : Exchange τ → Exchange τ → Prop
  | edit (x : Exchange τ) (edit : Edit) :
      Step x { x with record := (x.record.edit edit).1 }
  /-- An attempt begins. -/
  | send (x : Exchange τ) {patch : Message} {d : Delta} {r : Record τ} :
      x.outstanding = none → x.record.synchronize = some (patch, d, r) →
        Step x ⟨r, some (d, x.record.localMessage), x.accepted⟩
  /-- The attempt is accepted and committed. -/
  | accept (x : Exchange τ) {d : Delta} {seen : Message} {r : Record τ} :
      x.outstanding = some (d, seen) → x.record.commit d = .ok r → Step x ⟨r, none, seen⟩
  /-- The attempt is rejected and rolled back. -/
  | reject (x : Exchange τ) {d : Delta} {seen : Message} :
      x.outstanding = some (d, seen) → Step x ⟨x.record.rollback d, none, x.accepted⟩

/-- An exchange that can be reached from a record of a type as it is made. -/
inductive Reachable (type : τ) : Exchange τ → Prop
  | blank (id : Int) : Reachable type (start (.blank type id))
  | decoded {content : Message} {r : Record τ} :
      Record.ofMessage type content = .ok r → Reachable type (start r)
  | step {x y : Exchange τ} : Reachable type x → Step x y → Reachable type y

/-- The record is sound, its baseline is what was accepted, and its trunk is that of the
record of which the outstanding delta was taken, as that record left. -/
structure Holds (x : Exchange τ) : Prop where
  sound : x.record.Sound
  baseline : x.record.remoteMessage = x.accepted
  outstanding : ∀ d seen, x.outstanding = some (d, seen) →
    ∃ r₀ : Record τ, r₀.Sound ∧ d = r₀.delta ∧ seen = r₀.localMessage ∧
      x.record.trunk = r₀.markSent.trunk

theorem Holds.start {type : τ} {r : Record τ} (made : r.Made type) :
    (Exchange.start r).Holds where
  sound := made.sound
  baseline := (made.sound.localMessage_of_clean made.clean).symm
  outstanding := nofun

/-- The outstanding delta is one of the record's type. -/
theorem Holds.suits {x : Exchange τ} (h : x.Holds) {d : Delta} {seen : Message}
    (out : x.outstanding = some (d, seen)) : d.Suits x.record.type := by
  obtain ⟨r₀, sound₀, rfl, -, trunk⟩ := h.outstanding d seen out
  exact sound₀.suits_of_trunk trunk

/-- The outstanding delta can be committed, and the baseline is then what the user saw. -/
theorem Holds.commit {x : Exchange τ} (h : x.Holds) {d : Delta} {seen : Message}
    (out : x.outstanding = some (d, seen)) :
    ∃ r, x.record.commit d = .ok r ∧ r.Sound ∧ r.remoteMessage = seen := by
  obtain ⟨r₀, sound₀, rfl, rfl, trunk⟩ := h.outstanding d seen out
  obtain ⟨committed, baseline⟩ := h.sound.commit_attempt sound₀ trunk
  exact ⟨_, committed, h.sound.advance (sound₀.suits_of_trunk trunk), baseline⟩

theorem Holds.step {x y : Exchange τ} (h : x.Holds) (hs : Step x y) : y.Holds := by
  cases hs with
  | edit edit =>
      have evolves := (h.sound.edit edit).1
      refine ⟨evolves.sound, (evolves.remote_eq h.sound).trans h.baseline, ?_⟩
      intro d seen out
      obtain ⟨r₀, sound₀, hd, hseen, trunk⟩ := h.outstanding d seen out
      exact ⟨r₀, sound₀, hd, hseen, evolves.trunk_eq.trans trunk⟩
  | send _ sent =>
      obtain ⟨-, -, rfl, rfl⟩ := Record.synchronize_eq_some.mp sent
      refine ⟨h.sound.markSent, h.sound.alike_markSent.remote_eq.trans h.baseline, ?_⟩
      intro d seen out
      obtain ⟨rfl, rfl⟩ := Prod.mk.inj (Option.some.inj out)
      exact ⟨x.record, h.sound, rfl, rfl, rfl⟩
  | accept out committed =>
      obtain ⟨r, committed', sound, baseline⟩ := h.commit out
      rw [committed] at committed'
      obtain rfl := Except.ok.inj committed'
      exact ⟨sound, baseline, nofun⟩
  | reject out =>
      have suits := h.suits out
      exact ⟨h.sound.rollback suits, (h.sound.alike_rollback suits).remote_eq.trans h.baseline,
        nofun⟩

theorem Reachable.holds {type : τ} {x : Exchange τ} (h : Reachable type x) : x.Holds := by
  induction h with
  | blank id => exact Holds.start (Record.blank_sound type id)
  | decoded made => exact Holds.start (Record.made_of_ofMessage _ type _ made)
  | step _ hs ih => exact ih.step hs

/-- In an exchange that can be reached the outstanding delta can be committed, and the
baseline is what the user saw when the attempt was begun that was accepted last. -/
theorem Reachable.accepted_baseline {type : τ} {x : Exchange τ} (h : Reachable type x) :
    (∀ d seen, x.outstanding = some (d, seen) → ∃ r, x.record.commit d = .ok r) ∧
      x.record.remoteMessage = x.accepted := by
  refine ⟨?_, h.holds.baseline⟩
  intro d seen out
  obtain ⟨r, committed, -⟩ := h.holds.commit out
  exact ⟨r, committed⟩

/-- An attachment is added and sent, and removed while the attempt is out. -/
theorem baseline_of_removed_attachment :
    ∃ x : Exchange Entity, Reachable .task x ∧ x.outstanding.isSome = true ∧
      (∀ d seen, x.outstanding = some (d, seen) → ∃ r, x.record.commit d = .ok r) ∧
      x.record.remoteMessage = (Record.blank Entity.task 1).localMessage := by
  have blank : Reachable Entity.task (start (.blank .task 1)) := .blank 1
  have added := blank.step (.edit _ (.within "attachments" (.add (.blank 7) [])))
  have sent :=
    added.step (.send _ rfl (Record.synchronize_eq_some.mpr ⟨by decide, rfl, rfl, rfl⟩))
  have removed := sent.step (.edit _ (.within "attachments" (.remove 7)))
  exact ⟨_, removed, rfl, removed.accepted_baseline⟩

section Views

/-- A record is seen as before when an attempt is begun, and when it is rejected. -/
theorem Holds.alike {x : Exchange τ} (h : x.Holds) :
    (∀ patch d r, x.record.synchronize = some (patch, d, r) → x.record.Alike r) ∧
      ∀ d seen, x.outstanding = some (d, seen) →
      x.record.Alike (x.record.rollback d) := by
  constructor
  · intro patch d r sent
    obtain ⟨-, -, -, rfl⟩ := Record.synchronize_eq_some.mp sent
    exact h.sound.alike_markSent
  · intro d seen out
    exact h.sound.alike_rollback (h.suits out)

/-- An attempt that is made when another one was rejected tells all that the user sees
beyond the baseline: once it is accepted, the baseline is what the user saw. -/
theorem Holds.retry {x : Exchange τ} (h : x.Holds) {d : Delta} {seen : Message}
    (out : x.outstanding = some (d, seen)) {patch : Message} {again : Delta}
    {r : Record τ} (sent : (x.record.rollback d).synchronize = some (patch, again, r)) :
    patch = x.record.patch ∧ again = x.record.delta ∧
      ∃ r', r.commit again = .ok r' ∧ r'.remoteMessage = x.record.localMessage := by
  have alike := h.alike.2 d seen out
  have sound := h.sound.rollback (h.suits out)
  obtain ⟨-, rfl, rfl, rfl⟩ := Record.synchronize_eq_some.mp sent
  obtain ⟨committed, baseline⟩ := sound.markSent.commit_attempt sound rfl
  exact ⟨alike.patch_eq, alike.delta_eq, _, committed, baseline.trans alike.local_eq⟩

/-- Nothing is left to send after a rejection iff the user sees the baseline. -/
theorem Holds.retry_eq_none_iff {x : Exchange τ} (h : x.Holds) {d : Delta}
    {seen : Message} (out : x.outstanding = some (d, seen)) :
    (x.record.rollback d).synchronize = none ↔
      x.record.localMessage = x.record.remoteMessage := by
  have alike := h.alike.2 d seen out
  rw [← alike.local_eq, ← alike.remote_eq, ← (h.sound.rollback (h.suits out)).clean_iff,
    Record.synchronize]
  split <;> simp_all

/-- In an exchange that can be reached a record is seen as before when an attempt is begun
and when it is rejected: the count, the delta, the patch and both sides are the same, and
the next attempt tells all that differs.  The user sees the same when the attempt is
accepted, and an edit does not touch the baseline. -/
theorem Reachable.views_undisturbed {type : τ} {x : Exchange τ} (h : Reachable type x) :
    (∀ patch d r, x.record.synchronize = some (patch, d, r) → x.record.Alike r) ∧
    (∀ d seen, x.outstanding = some (d, seen) →
      x.record.Alike (x.record.rollback d) ∧
      (∀ patch again r, (x.record.rollback d).synchronize = some (patch, again, r) →
        patch = x.record.patch ∧ again = x.record.delta ∧
          ∃ r', r.commit again = .ok r' ∧ r'.remoteMessage = x.record.localMessage) ∧
      ((x.record.rollback d).synchronize = none ↔
        x.record.localMessage = x.record.remoteMessage) ∧
      ∃ r, x.record.commit d = .ok r ∧ r.localMessage = x.record.localMessage) ∧
    ∀ edit, (x.record.edit edit).1.remoteMessage = x.record.remoteMessage := by
  have holds := h.holds
  obtain ⟨begun, rejected⟩ := holds.alike
  refine ⟨begun, ?_, fun edit => (holds.sound.edit edit).1.remote_eq holds.sound⟩
  intro d seen out
  obtain ⟨r, committed, -⟩ := holds.commit out
  have suits := holds.suits out
  obtain ⟨-, rfl⟩ := (holds.sound.commit_eq_ok_iff suits).mp committed
  exact ⟨rejected d seen out, fun _ _ _ => holds.retry out, holds.retry_eq_none_iff out,
    _, committed, holds.sound.local_advance suits⟩

/-- A task is added and sent; while the attempt is out it is removed, added again and
edited. -/
theorem views_undisturbed_of_restored_task :
    ∃ (x : Exchange Entity) (d : Delta) (seen : Message), Reachable .kim x ∧
      x.outstanding = some (d, seen) ∧ x.record.dirty = 1 ∧
      x.record.Alike (x.record.rollback d) ∧
      ∃ r, x.record.commit d = .ok r ∧ r.localMessage = x.record.localMessage := by
  have blank : Reachable Entity.kim (start (.blank .kim 1)) := .blank 1
  have added := blank.step (.edit _ (.within "tasks" (.add (.blank 5) [])))
  have sent :=
    added.step (.send _ rfl (Record.synchronize_eq_some.mpr ⟨by decide, rfl, rfl, rfl⟩))
  have removed := sent.step (.edit _ (.within "tasks" (.remove 5)))
  have restored := removed.step
    (.edit _ (.within "tasks" (.add (.blank 5) [.write "tag" (.text "b")])))
  obtain ⟨alike, -, -, accepted⟩ := restored.views_undisturbed.2.1 _ _ rfl
  exact ⟨_, _, _, restored, rfl, by decide, alike, accepted⟩

end Views

end Exchange

end RecordSync
