import RecordSync.Latch
import RecordSync.Record.Attempt
import RecordSync.Record.Edit
import RecordSync.Settings

/-!
# Controllers

A controller owns a record and keeps the server in step with its edits.  An edit starts a
save loop, which sends a patch, waits for the answer, and sends again what was edited
meanwhile; while a loop runs further edits only raise a flag.  So at most one request of a
record is in flight.

**Holding back.**  Saves are suppressed until they are resumed, and while a batch is open;
when the outermost batch closes, all that it changed is saved at once.

**Running a loop.**  `beginAttempt` takes the patch of an attempt or ends the loop,
`finishAttempt` takes the answer and says whether the loop goes on.  A step that starts a
loop sets `running`; `runtime` says whether there is something to run it on.

**Waiting.**  A latch tells those who wait for the record to be saved how the loop ended.
-/

namespace RecordSync

/-- A record under control. -/
structure Controller (τ : Type) where
  record : Record τ
  /-- A save loop runs or is about to. -/
  running : Bool
  /-- There was a change since the last attempt began. -/
  pending : Bool
  suppressed : Bool
  /-- The number of open batches, one inside the other. -/
  batchDepth : Nat
  /-- The number of changes since the outermost batch was opened. -/
  batchChanges : Nat
  /-- The number of dirty parts that the record last told of. -/
  dirty : Nat
  status : Status
  latch : Latch

namespace Controller

variable {τ : Type}

/-- Takes a record under control, with saves suppressed. -/
def ofRecord (record : Record τ) : Controller τ :=
  ⟨record, false, false, true, 0, 0, record.dirty, .idle, .clear⟩

/-- A change waits to be sent. -/
def hasPending (c : Controller τ) : Bool := c.pending || decide (0 < c.batchChanges)

/-- Nothing holds saves back. -/
def maySend (c : Controller τ) : Bool := !c.suppressed && c.batchDepth == 0

/-- All is saved and nothing is under way. -/
def isSynchronized (c : Controller τ) : Bool :=
  !c.running && !c.hasPending && c.record.dirty == 0

/-- Starts a save loop, if there is something to run it on. -/
def start (runtime : Bool) (c : Controller τ) : Controller τ :=
  if runtime then { c with running := true } else c

def noteChange (runtime : Bool) (c : Controller τ) : Controller τ :=
  let c := { c with dirty := c.record.dirty, latch := .clear }
  if 0 < c.batchDepth then { c with batchChanges := c.batchChanges + 1 }
  else
    let c := { c with pending := true }
    if c.running || c.suppressed then c else c.start runtime

/-- Edits the record; if an edit told of a change, it is noted once. -/
def update [Catalog τ] (runtime : Bool) (c : Controller τ) (edits : List Edit) :
    Controller τ × List (Option Notice × Outcome) :=
  let (record, steps) := c.record.editAll edits
  let c := { c with record := record }
  (if steps.any (·.1.isSome) then c.noteChange runtime else c, steps)

def openBatch (c : Controller τ) : Controller τ :=
  { c with batchDepth := c.batchDepth + 1 }

/-- Closes the innermost batch; with the outermost one all that changed is to be saved. -/
def closeBatch (runtime : Bool) (c : Controller τ) : Controller τ :=
  let c := { c with batchDepth := c.batchDepth - 1 }
  if 0 < c.batchDepth then c
  else if 0 < c.batchChanges then { c with batchChanges := 0 }.noteChange runtime
  else if c.pending && !c.running && !c.suppressed then c.start runtime
  else c

def suppress (c : Controller τ) : Controller τ := { c with suppressed := true }

/-- Allows saves again, and sends what changed while they were held back. -/
def resume (runtime : Bool) (c : Controller τ) : Controller τ :=
  let c := { c with suppressed := false }
  if c.pending && !c.running && c.batchDepth == 0 then c.start runtime else c

/-- Starts a new attempt for a record that a failed one left dirty; says whether there is
a loop to wait for. -/
def kick (runtime : Bool) (c : Controller τ) : Controller τ × Bool :=
  if c.running then (c, true)
  else if !c.maySend then (c, false)
  else ({ c with latch := .clear, pending := true }.start runtime, runtime)

/-- Tells those who wait that saves were suppressed before all was sent. -/
def stop (c : Controller τ) : Controller τ :=
  let c := { c with running := false }
  if c.suppressed && c.hasPending then { c with latch := c.latch.settleIfClear .rejected }
  else c

/-- What a save loop does next. -/
inductive Attempt
  /-- It ends; it shows a status if there is one. -/
  | over (shown : Option Status)
  /-- It sends a patch, and keeps the delta until the answer is there. -/
  | sending (patch : Message) (delta : Delta)

/-- Begins an attempt of a running save loop, or ends the loop if there is nothing to send
or sending is held back. -/
def beginAttempt (c : Controller τ) : Controller τ × Attempt :=
  if !c.pending || !c.maySend then (c.stop, .over none)
  else
    let c := { c with pending := false }
    match c.record.synchronize with
    | none =>
      let shown := if c.status = .idle then none else some Status.saved
      ({ c with
          running := false, dirty := 0, status := shown.getD c.status
          latch := c.latch.settleIfClear .resolved }, .over shown)
    | some (patch, delta, record) =>
      ({ c with record := record, status := .saving }, .sending patch delta)

/-- Goes on with the loop if there is more to send and nothing holds it back; says whether
it does. -/
def continue? (c : Controller τ) : Controller τ × Bool :=
  if c.pending && c.maySend then (c, true) else (c.stop, false)

/-- Settles the latch for those who wait, unless there is more to send. -/
def settleUnlessPending (c : Controller τ) (outcome : Latch) : Controller τ :=
  if c.hasPending then c else { c with latch := c.latch.settleIfClear outcome }

/-- Takes the answer to an attempt: whether the server took the patch.  Shows the new
status, and says whether the loop goes on. -/
def finishAttempt (c : Controller τ) (delta : Delta) (accepted : Bool) :
    Controller τ × Bool :=
  if accepted then
    match c.record.commit delta with
    | .error _ =>
      ({ c with
        running := false, status := .notSaved, latch := c.latch.settleIfClear .rejected },
        false)
    | .ok record =>
      ({ c with record := record, dirty := record.dirty, status := .saved }.settleUnlessPending
        .resolved).continue?
  else
    ({ c with record := c.record.rollback delta, status := .notSaved }.settleUnlessPending
      .rejected).continue?

end Controller
end RecordSync
