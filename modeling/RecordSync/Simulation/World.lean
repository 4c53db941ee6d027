import RecordSync.Drain
import RecordSync.Entity
import RecordSync.Server
import RecordSync.User

/-!
# A simulated world

A server, its clients and the records that they have open, all on one thread.  Save loops
and background calls are tasks, which run when something waits for them, first in, first
out.  The clock stands still unless everything waits.

A step of a client changes a controller through `World.setController`, which sees to what
follows from it: a loop that was started is queued, and calls that wait for the latch are
queued when it changes.
-/

namespace RecordSync

/-- A request that waits for its answer. -/
structure Flight where
  patch : Message
  /-- What is committed when the answer is yes. -/
  delta : Delta

/-- A record that a client has open. -/
structure Handle where
  controller : Controller Entity
  endpoint : String
  settings : Settings
  /-- The name under which statuses are reported, if they are. -/
  sink : Option String

/-- A call that waits for a record to be saved. -/
structure Call where
  handle : Nat
  call : Drain
  /-- When the call gives up, once it has been polled. -/
  deadline : Option Nat
  polled : Bool
  /-- The call asked for another turn when it was last polled. -/
  spinning : Bool
  answer : Option Bool

/-- Something that is to run. -/
inductive Task
  /-- The save loop of a handle, which may wait for an answer. -/
  | loop (handle : Nat) (flight : Option Flight)
  | call (number : Nat)

/-- A client: the user who signed in, the ids in reserve, and the handles that the session
tracks. -/
structure Client where
  user : User
  settings : Settings
  pool : IdPool
  tracked : List Nat

/-- A server and its clients. -/
structure World where
  server : Server
  clients : List Client
  handles : List Handle
  /-- The tasks that are to run, in their order. -/
  ready : List Task
  /-- The loops whose answers are held back. -/
  held : List Task
  calls : List Call
  now : Nat
  /-- There is something to run save loops on. -/
  runtime : Bool
  /-- The statuses that were shown, with the names and texts under which they were. -/
  events : List (String × Status × String)

namespace Call

def fresh (handle : Nat) : Call := ⟨handle, .fresh, none, false, false, none⟩

/-- The call waits for the latch of its record. -/
def isSuspended (x : Call) : Bool := x.answer.isNone && x.call.waiting

end Call

namespace World

/-- A world in which nothing has happened. -/
def start (digest : Bytes → Bytes) (clients : List (User × Settings)) : World where
  server := .start digest
  clients := clients.map (fun (user, settings) => ⟨user, settings, .empty, []⟩)
  handles := []
  ready := []
  held := []
  calls := []
  now := 0
  runtime := true
  events := []

/-- Queues the background calls that wait for the latch of a handle. -/
def wake (w : World) (handle : Nat) : World :=
  let woken := (w.calls.zipIdx.filter (fun (x, _) => x.handle == handle && x.isSuspended)).map
    (fun (_, number) => number)
  { w with ready := w.ready ++ woken.map .call }

/-- Changes the controller of a handle, with what follows from the change. -/
def setController (w : World) (handle : Nat) (c : Controller Entity) : World :=
  match w.handles[handle]? with
  | none => w
  | some h =>
    let before := h.controller
    let w := { w with handles := w.handles.set handle { h with controller := c } }
    let w :=
      if c.running && !before.running then { w with ready := w.ready ++ [.loop handle none] }
      else w
    if c.latch ≠ before.latch then w.wake handle else w

def onController (w : World) (handle : Nat)
    (change : Controller Entity → Controller Entity) : World :=
  match w.handles[handle]? with
  | none => w
  | some h => w.setController handle (change h.controller)

def showStatus (w : World) (handle : Nat) (status : Status) : World :=
  match w.handles[handle]?.bind (fun h => h.sink.map (fun name => (name, h.settings))) with
  | some (name, settings) =>
    { w with events := w.events ++ [(name, status, settings.statusText status)] }
  | none => w

def update (w : World) (handle : Nat) (edits : List Edit) :
    World × List (Option Notice × Outcome) :=
  match w.handles[handle]? with
  | none => (w, [])
  | some h =>
    let (c, steps) := h.controller.update w.runtime edits
    (w.setController handle c, steps)

/-- Opens a handle for a record; gives its number. -/
def openHandle (w : World) (h : Handle) : World × Nat :=
  ({ w with handles := w.handles ++ [h] }, w.handles.length)

/-- Makes the server hold its answers back. -/
def hold (w : World) : World := { w with server := { w.server with holding := true } }

/-- Lets the server answer again. -/
def release (w : World) : World :=
  { w with
    server := { w.server with holding := false }, ready := w.ready ++ w.held, held := [] }

/-- Starts a background call that waits for the record of a handle to be saved; gives its
number. -/
def startCall (w : World) (handle : Nat) : World × Nat :=
  ({ w with calls := w.calls ++ [.fresh handle], ready := w.ready ++ [.call w.calls.length] },
    w.calls.length)

end World
end RecordSync
