import RecordSync.Entity
import RecordSync.Record.Edit

/-!
# Schedules

The schedule of a variant: when it starts and ends, how long a participant may take, and
whether the duration may be shorter than the interval ("virtual").

**Normal form.**  After an edit of one part the others follow: the interval does not run
backwards and is cut to whole minutes; the duration is a whole number of minutes, not
negative, at most the interval, and equal to it unless the variant is virtual.  Editing
the duration moves the end, any other edit moves the duration.  Times that leave the range
of 64-bit numbers stop at its ends.
-/

namespace RecordSync

/-- One minute in milliseconds. -/
def minute : Int := 60000

/-- The nearest number in the range of signed 64-bit numbers. -/
def saturate (n : Int) : Int := max (-9223372036854775808) (min n 9223372036854775807)

/-- The timing of a variant. -/
structure Schedule where
  startTime : Int
  endTime : Int
  duration : Int
  isVirtual : Bool
deriving DecidableEq, Repr

/-- The part of a schedule that was edited. -/
inductive ScheduleEdit
  | startTime
  | endTime
  | duration
  | isVirtual
deriving DecidableEq, Repr

namespace Schedule

/-- Moves the end that was not edited so that the interval does not run backwards. -/
def orderTimes (s : Schedule) (edit : ScheduleEdit) : Schedule :=
  if s.endTime < s.startTime then
    if edit = .endTime then { s with startTime := s.endTime }
    else { s with endTime := s.startTime }
  else s

def interval (s : Schedule) : Int := saturate (s.endTime - s.startTime)

/-- Cuts the interval to whole minutes by moving the end. -/
def cutInterval (s : Schedule) : Schedule :=
  { s with endTime := saturate (s.endTime - s.interval % minute) }

/-- A duration in whole minutes, not negative. -/
def wholeMinutes (duration : Int) : Int := max duration 0 - max duration 0 % minute

/-- Makes a schedule consistent after an edit of one part. -/
def normalize (s : Schedule) (edit : ScheduleEdit) : Schedule :=
  let ordered := s.orderTimes edit
  let interval := ordered.interval - ordered.interval % minute
  let cut := ordered.cutInterval
  let duration := wholeMinutes s.duration
  if interval < duration ∨ (¬ s.isVirtual ∧ duration < interval) then
    if edit = .duration then
      { cut with endTime := saturate (cut.endTime +
        (duration - interval)), duration := duration }
    else { cut with duration := interval }
  else { cut with duration := duration }

def edits (s : Schedule) : List Edit :=
  [.write "start_time" (.integer s.startTime), .write "end_time" (.integer s.endTime),
    .write "is_virtual" (.boolean s.isVirtual), .write "duration" (.integer s.duration)]

/-- The schedule that the values of the four parts give. -/
def ofValues? : (start stop duration isVirtual : Option Value) → Option Schedule
  | some (.integer start), some (.integer stop), some (.integer duration),
      some (.boolean v) =>
    some ⟨start, stop, duration, v⟩
  | _, _, _, _ => none

/-- The schedule of a variant as the user sees it; records of other types have none. -/
def ofRecord? (r : Record Entity) : Option Schedule :=
  if r.type = .kim then
    ofValues? (r.value? "start_time") (r.value? "end_time") (r.value? "duration")
      (r.value? "is_virtual")
  else none

end Schedule
end RecordSync
