import Mathlib.Tactic.SplitIfs
import RecordSync.Schedule

/-!
# Consistent schedules

A schedule whose parts are 64-bit numbers is made consistent in 64-bit arithmetic.  Only
where a time or an interval may leave the range does the arithmetic stop at its ends;
every other difference stays inside, which `Schedule.normalize?` makes visible by failing
where one would not.

**Normal form.**  The interval is a whole number of minutes, and so is the duration, which
is not negative, at most the interval, and equal to it unless the schedule is virtual.
The interval of a schedule can be too long for a 64-bit number, or an edited duration can
move the end past the last time; unless one of these is so, normalizing gives a normal
form.

**Results.**
* `Schedule.InRange.normalize?_eq`: no difference leaves the range.
* `Schedule.InRange.normalize_eq_self_iff`: the normal forms are the schedules that
  normalizing does not change, whichever part was edited.
* `Schedule.normal_form_of_edit`: what normalizing does to any schedule and any edit.
-/

namespace RecordSync

/-- A signed 64-bit number. -/
def Representable (n : Int) : Prop := -9223372036854775808 ≤ n ∧ n ≤ 9223372036854775807

instance : DecidablePred Representable := fun _ => inferInstanceAs (Decidable (_ ∧ _))

theorem representable_saturate (n : Int) : Representable (saturate n) := by
  unfold Representable saturate
  omega

theorem saturate_of_representable {n : Int} (h : Representable n) : saturate n = n := by
  unfold Representable at h
  unfold saturate
  omega

/-- A result of 64-bit arithmetic, unless it leaves the range. -/
def representable? (n : Int) : Option Int := if Representable n then some n else none

theorem representable?_eq {n : Int} (h : Representable n) : representable? n = some n :=
  if_pos h

namespace Schedule

variable {s : Schedule} {edit : ScheduleEdit}

/-- The parts of a schedule are 64-bit numbers. -/
structure InRange (s : Schedule) : Prop where
  startTime : Representable s.startTime
  endTime : Representable s.endTime
  duration : Representable s.duration

/-- Makes a schedule consistent in 64-bit arithmetic.  A remainder has the sign of the
number that is divided; a difference that leaves the range is a failure. -/
def normalize? (s : Schedule) (edit : ScheduleEdit) : Option Schedule := do
  let ordered := s.orderTimes edit
  let spare := ordered.interval.tmod minute
  let interval ← representable? (ordered.interval - spare)
  let stop := saturate (ordered.endTime - spare)
  let given := max s.duration 0
  let duration ← representable? (given - given.tmod minute)
  if interval < duration ∨ (¬ s.isVirtual ∧ duration < interval) then
    if edit = .duration then
      let change ← representable? (duration - interval)
      some ⟨ordered.startTime, saturate (stop + change), duration, s.isVirtual⟩
    else some ⟨ordered.startTime, stop, interval, s.isVirtual⟩
  else some ⟨ordered.startTime, stop, duration, s.isVirtual⟩

/-- A schedule in normal form. -/
structure Consistent (s : Schedule) : Prop where
  interval : minute ∣ s.endTime - s.startTime
  bounded : s.endTime - s.startTime ≤ 9223372036854775807
  duration : minute ∣ s.duration
  nonneg : 0 ≤ s.duration
  within : s.duration ≤ s.endTime - s.startTime
  filled : s.isVirtual = false → s.duration = s.endTime - s.startTime

/-- The interval is a 64-bit number, and so is the end that an edited duration calls
for. -/
structure HasRoom (s : Schedule) (edit : ScheduleEdit) : Prop where
  interval : (s.endTime - s.startTime).natAbs ≤ 9223372036854775807
  duration : edit = .duration → s.startTime + max s.duration 0 ≤ 9223372036854775807

section Steps

/-- The times of a schedule are in order, or one of them is moved to the other. -/
theorem orderTimes_cases (s : Schedule) (edit : ScheduleEdit) :
    (s.startTime ≤ s.endTime ∧ s.orderTimes edit = s) ∨
    (s.endTime < s.startTime ∧ edit = .endTime ∧
      s.orderTimes edit = { s with startTime := s.endTime }) ∨
    (s.endTime < s.startTime ∧ edit ≠ .endTime ∧
      s.orderTimes edit = { s with endTime := s.startTime }) := by
  unfold orderTimes
  split_ifs with inverted ended
  · simp [inverted, ended]
  · simp [inverted, ended]
  · simp [Int.not_lt.mp inverted]

theorem orderTimes_of_le (ordered : s.startTime ≤ s.endTime) (edit : ScheduleEdit) :
    s.orderTimes edit = s := by
  rcases s.orderTimes_cases edit with ⟨-, e⟩ | ⟨inverted, -⟩ | ⟨inverted, -⟩
  · exact e
  · omega
  · omega

theorem orderTimes_le (s : Schedule) (edit : ScheduleEdit) :
    (s.orderTimes edit).startTime ≤ (s.orderTimes edit).endTime := by
  rcases s.orderTimes_cases edit with ⟨ordered, e⟩ | ⟨-, -, e⟩ | ⟨-, -, e⟩ <;> simp [e]
  exact ordered

theorem InRange.orderTimes (h : s.InRange) (edit : ScheduleEdit) :
    (s.orderTimes edit).InRange := by
  rcases s.orderTimes_cases edit with ⟨-, e⟩ | ⟨-, -, e⟩ | ⟨-, -, e⟩ <;> rw [e]
  · exact h
  · exact ⟨h.endTime, h.endTime, h.duration⟩
  · exact ⟨h.startTime, h.startTime, h.duration⟩

theorem orderTimes_rest (s : Schedule) (edit : ScheduleEdit) :
    (s.orderTimes edit).duration = s.duration ∧
      (s.orderTimes edit).isVirtual = s.isVirtual := by
  rcases s.orderTimes_cases edit with ⟨-, e⟩ | ⟨-, -, e⟩ | ⟨-, -, e⟩ <;> simp [e]

/-- The interval of times in order is a 64-bit number that does not exceed their
difference, and is this difference if it is a 64-bit number itself. -/
theorem interval_bounds (ordered : s.startTime ≤ s.endTime) :
    0 ≤ s.interval ∧ s.interval ≤ s.endTime - s.startTime ∧
      s.interval ≤ 9223372036854775807 ∧
      (s.endTime - s.startTime ≤ 9223372036854775807 →
        s.interval = s.endTime - s.startTime) := by
  unfold interval saturate
  omega

theorem wholeMinutes_eq (duration : Int) :
    wholeMinutes duration = minute * (max duration 0 / minute) := by
  unfold wholeMinutes minute
  omega

/-- The interval in whole minutes. -/
def wholeInterval (s : Schedule) : Int := s.interval - s.interval % minute

/-- The end of an interval that is cut to whole minutes. -/
def cutEnd (s : Schedule) : Int := s.endTime - s.interval % minute

/-- Cutting an interval to whole minutes does not leave the range. -/
theorem InRange.cutInterval_eq (h : s.InRange) (ordered : s.startTime ≤ s.endTime) :
    s.cutInterval = { s with endTime := s.cutEnd } := by
  obtain ⟨nonneg, within, -⟩ := interval_bounds ordered
  have stop := h.endTime
  have start := h.startTime
  have cut : Representable (s.endTime - s.interval % minute) := by
    unfold Representable at *
    unfold minute
    omega
  rw [cutInterval, saturate_of_representable cut]
  rfl

/-- The duration does not fit an interval in whole minutes. -/
def Misfits (isVirtual : Bool) (duration interval : Int) : Prop :=
  interval < duration ∨ (¬ isVirtual ∧ duration < interval)

/-- Once the times are in order and cut to whole minutes, the duration fits, or it is made
to fit the interval, or after an edit of the duration the end is moved to fit the
duration. -/
theorem InRange.normalize_cases (h : s.InRange) (edit : ScheduleEdit) :
    (¬ Misfits s.isVirtual (wholeMinutes s.duration) (s.orderTimes edit).wholeInterval ∧
      s.normalize edit = ⟨(s.orderTimes edit).startTime, (s.orderTimes edit).cutEnd,
        wholeMinutes s.duration, s.isVirtual⟩) ∨
    (Misfits s.isVirtual (wholeMinutes s.duration) (s.orderTimes edit).wholeInterval ∧
      edit ≠ .duration ∧
      s.normalize edit = ⟨(s.orderTimes edit).startTime, (s.orderTimes edit).cutEnd,
        (s.orderTimes edit).wholeInterval, s.isVirtual⟩) ∨
    (Misfits s.isVirtual (wholeMinutes s.duration) (s.orderTimes edit).wholeInterval ∧
      edit = .duration ∧
      s.normalize edit = ⟨(s.orderTimes edit).startTime,
        saturate ((s.orderTimes edit).cutEnd +
          (wholeMinutes s.duration - (s.orderTimes edit).wholeInterval)),
        wholeMinutes s.duration, s.isVirtual⟩) := by
  have cut := (h.orderTimes edit).cutInterval_eq (s.orderTimes_le edit)
  obtain ⟨-, virtual⟩ := s.orderTimes_rest edit
  have e : s.normalize edit = if (s.orderTimes edit).wholeInterval < wholeMinutes s.duration ∨
      (¬ s.isVirtual ∧ wholeMinutes s.duration < (s.orderTimes edit).wholeInterval) then
        if edit = .duration then
          { (s.orderTimes edit).cutInterval with
            endTime := saturate ((s.orderTimes edit).cutInterval.endTime +
              (wholeMinutes s.duration - (s.orderTimes edit).wholeInterval))
            duration := wholeMinutes s.duration }
        else { (s.orderTimes edit).cutInterval with duration := (s.orderTimes
          edit).wholeInterval }
      else { (s.orderTimes edit).cutInterval with duration := wholeMinutes s.duration } :=
        rfl
  rw [e, cut]
  split_ifs with unfit edited
  · exact .inr (.inr ⟨unfit, edited, by simp [virtual]⟩)
  · exact .inr (.inl ⟨unfit, edited, by simp [virtual]⟩)
  · exact .inl ⟨unfit, by simp [virtual]⟩

/-- No difference leaves the range, so 64-bit arithmetic gives what normalizing gives. -/
theorem InRange.normalize?_eq (h : s.InRange) (edit : ScheduleEdit) :
    s.normalize? edit = some (s.normalize edit) := by
  obtain ⟨nonneg, -, bounded, -⟩ := interval_bounds (s.orderTimes_le edit)
  have given := h.duration
  have spare : (s.orderTimes edit).interval.tmod minute =
      (s.orderTimes edit).interval % minute :=
    Int.tmod_eq_emod_of_nonneg nonneg
  have rest : (max s.duration 0).tmod minute = max s.duration 0 % minute :=
    Int.tmod_eq_emod_of_nonneg (Int.le_max_right _ _)
  have whole : Representable
      ((s.orderTimes edit).interval - (s.orderTimes edit).interval % minute) := by
    unfold Representable minute
    omega
  have duration : Representable (wholeMinutes s.duration) := by
    unfold Representable wholeMinutes minute at *
    omega
  have change : Representable (wholeMinutes s.duration -
      ((s.orderTimes edit).interval - (s.orderTimes edit).interval % minute)) := by
    unfold Representable wholeMinutes minute at *
    omega
  obtain ⟨-, virtual⟩ := s.orderTimes_rest edit
  unfold normalize?
  simp only [spare, rest, representable?_eq whole, Option.bind_eq_bind, Option.bind_some]
  rw [← wholeMinutes, representable?_eq duration, Option.bind_some, representable?_eq change]
  unfold Schedule.normalize
  dsimp only
  split_ifs
  · simp [cutInterval, virtual]
  · simp [cutInterval, virtual]
  · simp [cutInterval, virtual]

end Steps

section Results

/-- A normalized schedule is in range, its interval does not run backwards, and its
duration is in whole minutes and not negative. -/
theorem InRange.normalize_inRange (h : s.InRange) (edit : ScheduleEdit) :
    (s.normalize edit).InRange ∧ (s.normalize edit).startTime ≤ (s.normalize edit).endTime ∧
      0 ≤ (s.normalize edit).duration ∧ minute ∣ (s.normalize edit).duration := by
  obtain ⟨nonneg, within, bounded, -⟩ := interval_bounds (s.orderTimes_le edit)
  obtain ⟨start, stop, -⟩ := h.orderTimes edit
  have given := h.duration
  have ordered : (s.orderTimes edit).startTime ≤ (s.orderTimes edit).cutEnd ∧
      Representable (s.orderTimes edit).cutEnd := by
    unfold cutEnd Representable minute at *
    omega
  have rounded : Representable (wholeMinutes s.duration) ∧ 0 ≤ wholeMinutes s.duration ∧
      minute ∣ wholeMinutes s.duration := by
    unfold wholeMinutes Representable minute at *
    omega
  rcases h.normalize_cases edit with ⟨-, e⟩ | ⟨-, -, e⟩ | ⟨-, -, e⟩ <;> rw [e]
  · exact ⟨⟨start, ordered.2, rounded.1⟩, ordered.1, rounded.2⟩
  · have whole : Representable (s.orderTimes edit).wholeInterval ∧
        0 ≤ (s.orderTimes edit).wholeInterval ∧
        minute ∣ (s.orderTimes edit).wholeInterval := by
      unfold wholeInterval Representable minute at *
      omega
    exact ⟨⟨start, ordered.2, whole.1⟩, ordered.1, whole.2⟩
  · refine ⟨⟨start, representable_saturate _, rounded.1⟩, ?_, rounded.2⟩
    show (s.orderTimes edit).startTime ≤ saturate _
    unfold saturate cutEnd wholeInterval Representable minute at *
    omega

theorem Consistent.of_length {start stop duration length : Int} {isVirtual : Bool}
    (e : stop - start = length)
    (whole : minute ∣ length ∧ 0 ≤ length ∧ length ≤ 9223372036854775807)
    (minutes : minute ∣ duration) (nonneg : 0 ≤ duration) (within : duration ≤ length)
    (filled : isVirtual = false → duration = length) :
    Consistent ⟨start, stop, duration, isVirtual⟩ := by
  subst e
  exact ⟨whole.1, whole.2.2, minutes, nonneg, within, filled⟩

/-- A normal form is left as it is, whichever part was edited. -/
theorem Consistent.normalize_eq_self (consistent : s.Consistent) (h : s.InRange)
    (edit : ScheduleEdit) : s.normalize edit = s := by
  obtain ⟨whole, short, minutes, nonneg, within, filled⟩ := consistent
  have times := orderTimes_of_le (s := s) (by omega) edit
  have interval : s.interval = s.endTime - s.startTime :=
    (interval_bounds (by omega)).2.2.2 short
  have spare : s.interval % minute = 0 := by
    rw [interval]
    exact Int.emod_eq_zero_of_dvd whole
  have cut : s.wholeInterval = s.endTime - s.startTime ∧ s.cutEnd = s.endTime := by
    rw [wholeInterval, cutEnd, spare, interval]
    omega
  have rounded : wholeMinutes s.duration = s.duration := by
    unfold wholeMinutes minute at *
    omega
  have fits : ¬ Misfits s.isVirtual s.duration (s.endTime - s.startTime) := by
    rintro (long | ⟨actual, brief⟩)
    · omega
    · have := filled (by simpa using actual)
      omega
  have cases := h.normalize_cases edit
  rw [times, rounded, cut.1, cut.2] at cases
  rcases cases with ⟨-, e⟩ | ⟨misfits, -⟩ | ⟨misfits, -⟩
  · exact e
  · exact absurd misfits fits
  · exact absurd misfits fits

/-- With room for it, normalizing gives a normal form. -/
theorem InRange.normalize_consistent (h : s.InRange) (room : s.HasRoom edit) :
    (s.normalize edit).Consistent := by
  obtain ⟨nonneg, within, bounded, told⟩ := interval_bounds (s.orderTimes_le edit)
  obtain ⟨start, stop, -⟩ := h.orderTimes edit
  have given := h.duration
  have short : (s.orderTimes edit).endTime - (s.orderTimes edit).startTime ≤
      9223372036854775807 := by
    have := room.interval
    rcases s.orderTimes_cases edit with ⟨-, e⟩ | ⟨-, -, e⟩ | ⟨-, -, e⟩ <;>
      simp only [e] <;> omega
  have length : (s.orderTimes edit).cutEnd - (s.orderTimes edit).startTime =
      (s.orderTimes edit).wholeInterval := by
    unfold cutEnd wholeInterval
    rw [told short]
    omega
  have whole : minute ∣ (s.orderTimes edit).wholeInterval ∧
      0 ≤ (s.orderTimes edit).wholeInterval ∧
      (s.orderTimes edit).wholeInterval ≤ 9223372036854775807 := by
    unfold wholeInterval minute
    omega
  have rounded : minute ∣ wholeMinutes s.duration ∧ 0 ≤ wholeMinutes s.duration ∧
      wholeMinutes s.duration ≤ max s.duration 0 := by
    unfold wholeMinutes minute
    omega
  rcases h.normalize_cases edit with ⟨fits, e⟩ | ⟨-, -, e⟩ | ⟨-, rfl, e⟩
  · rw [e]
    unfold Misfits at fits
    refine .of_length length whole rounded.1 rounded.2.1 (by omega) (fun actual => ?_)
    simp [actual] at fits
    omega
  · rw [e]
    exact .of_length length whole whole.1 whole.2.1 (Int.le_refl _) (fun _ => rfl)
  · -- The new end is the kept start plus the duration.
    have kept : (s.orderTimes .duration).startTime = s.startTime := by
      rcases s.orderTimes_cases .duration with ⟨-, e⟩ | ⟨-, e, -⟩ | ⟨-, -, e⟩
      · rw [e]
      · cases e
      · rw [e]
    have moved : saturate ((s.orderTimes .duration).cutEnd +
        (wholeMinutes s.duration - (s.orderTimes .duration).wholeInterval)) =
          s.startTime + wholeMinutes s.duration := by
      have room := room.duration rfl
      have first := h.startTime
      rw [saturate_of_representable] <;> unfold Representable at * <;> omega
    rw [e, moved, kept]
    have length : s.startTime + wholeMinutes s.duration - s.startTime =
        wholeMinutes s.duration := by
      omega
    have short : wholeMinutes s.duration ≤ 9223372036854775807 := by
      unfold Representable at given
      omega
    exact .of_length length ⟨rounded.1, rounded.2.1, short⟩ rounded.1 rounded.2.1
      (Int.le_refl _) (fun _ => rfl)

/-- The normal forms are the schedules that are left as they are, whichever part was
edited. -/
theorem InRange.normalize_eq_self_iff (h : s.InRange) :
    (∀ edit, s.normalize edit = s) ↔ s.Consistent := by
  constructor
  · intro same
    have ordered := (h.normalize_inRange .startTime).2.1
    rw [same] at ordered
    have times := orderTimes_of_le ordered .startTime
    have short : s.endTime - s.startTime ≤ 9223372036854775807 := by
      -- Something would be cut off the longest interval.
      refine Int.not_lt.mp (fun long => ?_)
      have cut : s.cutEnd < s.endTime := by
        unfold cutEnd interval saturate minute
        omega
      have ends : (s.normalize .startTime).endTime = s.cutEnd := by
        rcases h.normalize_cases .startTime with ⟨-, e⟩ | ⟨-, -, e⟩ | ⟨-, edited, -⟩
        · rw [e, times]
        · rw [e, times]
        · cases edited
      rw [same] at ends
      omega
    have room : s.HasRoom .startTime := ⟨by omega, nofun⟩
    exact same .startTime ▸ h.normalize_consistent room
  · exact fun consistent edit => consistent.normalize_eq_self h edit

/-- Whatever part of a schedule was edited: 64-bit arithmetic gives the normalized
schedule without leaving the range, its interval does not run backwards, and its duration
is in whole minutes and not negative.  The start is moved only by an edit of the end that
puts it before the start, and then to that end; a duration that was edited is kept in
whole minutes.  Unless the interval or the end that an edited duration calls for is no
64-bit number, the result is a normal form, and is left as it is whichever part is edited
next. -/
theorem normal_form_of_edit (s : Schedule) (h : s.InRange) (edit : ScheduleEdit) :
    s.normalize? edit = some (s.normalize edit) ∧ (s.normalize edit).InRange ∧
    (s.normalize edit).isVirtual = s.isVirtual ∧
    (s.normalize edit).startTime ≤ (s.normalize edit).endTime ∧
    0 ≤ (s.normalize edit).duration ∧ minute ∣ (s.normalize edit).duration ∧
    (s.normalize edit).startTime =
      (if edit = .endTime ∧ s.endTime < s.startTime then s.endTime else s.startTime) ∧
    (edit = .duration → (s.normalize edit).duration = minute * (max s.duration 0 / minute)) ∧
    (s.HasRoom edit → (s.normalize edit).Consistent ∧
      ∀ next, (s.normalize edit).normalize next = s.normalize edit) := by
  obtain ⟨inRange, ordered, nonneg, minutes⟩ := h.normalize_inRange edit
  refine ⟨h.normalize?_eq edit, inRange, ?_, ordered, nonneg, minutes, ?_, ?_, fun room => ?_⟩
  · rcases h.normalize_cases edit with ⟨-, e⟩ | ⟨-, -, e⟩ | ⟨-, -, e⟩ <;> rw [e]
  · have start : (s.normalize edit).startTime = (s.orderTimes edit).startTime := by
      rcases h.normalize_cases edit with ⟨-, e⟩ | ⟨-, -, e⟩ | ⟨-, -, e⟩ <;> rw [e]
    rw [start]
    rcases s.orderTimes_cases edit with ⟨ordered, e⟩ | ⟨inverted, ended, e⟩ |
      ⟨-, kept, e⟩ <;> rw [e]
    · rw [if_neg (by omega)]
    · rw [if_pos ⟨ended, inverted⟩]
    · rw [if_neg (by simp [kept])]
  · intro edited
    rw [← wholeMinutes_eq]
    rcases h.normalize_cases edit with ⟨-, e⟩ | ⟨-, other, -⟩ | ⟨-, -, e⟩
    · rw [e]
    · exact absurd edited other
    · rw [e]
  · have consistent := h.normalize_consistent room
    exact ⟨consistent, consistent.normalize_eq_self inRange⟩

/-- An edit of the duration while the end lies before the start. -/
theorem normal_form_of_longer_duration :
    InRange ⟨7200000, 3600000, 150000, true⟩ ∧
      HasRoom ⟨7200000, 3600000, 150000, true⟩ .duration ∧
      (⟨7200000, 3600000, 150000, true⟩ : Schedule).normalize .duration =
        ⟨7200000, 7320000, 120000, true⟩ ∧
      Consistent ⟨7200000, 7320000, 120000, true⟩ := by
  have inRange : InRange ⟨7200000, 3600000, 150000, true⟩ :=
    ⟨by decide, by decide, by decide⟩
  have room : HasRoom ⟨7200000, 3600000, 150000, true⟩ .duration :=
    ⟨by decide, fun _ => by decide⟩
  have e : (⟨7200000, 3600000, 150000, true⟩ : Schedule).normalize .duration =
    ⟨7200000, 7320000, 120000, true⟩ := by decide
  have holds := normal_form_of_edit _ inRange .duration
  exact ⟨inRange, room, e, e ▸ (holds.2.2.2.2.2.2.2.2 room).1⟩

end Results

end Schedule
end RecordSync
