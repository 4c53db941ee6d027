import RecordSync.Simulation.Running

/-!
# Clients of a simulated world

A client opens and makes records, within the permissions of its user.  Its session tracks
the records that are open, so that it can wait for all of them to be saved before it ends.

**Results.**  `World.close` and `World.finish` let go of records only when they are saved.
-/

namespace RecordSync

/-- Why a client could not open or make a record. -/
inductive OpenError
  | forbidden (reason : Forbidden)
  | ids (reason : IdError)
  | store (reason : StoreError)
  | record (reason : RecordError)
deriving DecidableEq, Repr

/-- A number of records still have changes that are not saved. -/
structure Unsaved where
  count : Nat
deriving DecidableEq, Repr

def Unsaved.message (u : Unsaved) : String :=
  s!"{u.count} record(s) still have unsaved changes"

namespace World

def setClient (w : World) (client : Nat) (x : Client) : World :=
  { w with clients := w.clients.set client x }

/-- Takes an id from the pool of a client, which reserves more if it is empty. -/
def newId (w : World) (client : Nat) (x : Client) : World × Except IdError Int :=
  let (answer, pool, server) :=
      x.pool.allocate Server.reserve x.settings.batchSize w.server
  ({ w with server := server }.setClient client { x with pool := pool }, answer)

/-- Takes an id from the pool of a client if there is one. -/
def tryId (w : World) (client : Nat) (x : Client) : World × Option Int :=
  match x.pool.take with
  | some (id, pool) => (w.setClient client { x with pool := pool }, some id)
  | none => (w, none)

/-- Takes a record under control for a client, with saves allowed and in the session's
care. -/
def attach (w : World) (client : Nat) (x : Client) (record : Record Entity)
    (endpoint : String) : World × Nat :=
  let (w, handle) := w.openHandle ⟨.ofRecord record, endpoint, x.settings, none⟩
  let w := w.setClient client { x with tracked := x.tracked ++ [handle] }
  (w.onController handle (.resume w.runtime), handle)

/-- Loads and opens a record. -/
def openRecord (w : World) (client : Nat) (x : Client) (required : Nat) (type : Entity)
    (kind endpoint : String) (id : Int) : Except OpenError (World × Nat) := do
  (x.user.require required).mapError .forbidden
  let message ← (w.server.store.load kind id).mapError .store
  let record ← (Record.ofMessage type message).mapError .record
  .ok (w.attach client x record endpoint)

/-- Makes a record with a new id and opens it. -/
def newRecord (w : World) (client : Nat) (x : Client) (required : Nat) (type : Entity)
    (endpoint : String) : World × Except OpenError Nat :=
  match x.user.require required with
  | .error e => (w, .error (.forbidden e))
  | .ok () =>
    let (w, answer) := w.newId client x
    match answer, w.clients[client]? with
    | .error e, _ => (w, .error (.ids e))
    | .ok id, some x =>
      let (w, handle) := w.attach client x (.blank type id) endpoint
      (w, .ok handle)
    | .ok _, none => (w, .error (.ids .emptyRange))

def openTask (w : World) (client : Nat) (x : Client) (id : Int) :
    Except OpenError (World × Nat) :=
  w.openRecord client x (permView ||| permEditTasks) .task "task" taskEndpoint id

def newTask (w : World) (client : Nat) (x : Client) : World × Except OpenError Nat :=
  w.newRecord client x permEditTasks .task taskEndpoint

def openKim (w : World) (client : Nat) (x : Client) (id : Int) :
    Except OpenError (World × Nat) :=
  w.openRecord client x (permView ||| permEditKims) .kim "kim" kimEndpoint id

def newKim (w : World) (client : Nat) (x : Client) : World × Except OpenError Nat :=
  w.newRecord client x permEditKims .kim kimEndpoint

def isSynchronized (w : World) (handle : Nat) : Bool :=
  w.handles[handle]?.all (fun h => h.controller.isSynchronized)

/-- The session of a client tracks a record that is not saved. -/
def hasUnsaved (w : World) (x : Client) : Bool :=
  x.tracked.any (fun h => !w.isSynchronized h)

def track (w : World) (client : Nat) (x : Client) (handle : Nat) : World :=
  w.setClient client { x with tracked := x.tracked ++ [handle] }

/-- Takes a record out of the care of a client's session; says whether it was there. -/
def untrack (w : World) (client : Nat) (x : Client) (handle : Nat) : World × Bool :=
  (w.setClient client { x with tracked := x.tracked.filter (· ≠ handle) },
    x.tracked.contains handle)

/-- Waits until a record is saved and lets go of it then; gives nothing if the wait could
never end. -/
def close (w : World) (client : Nat) (x : Client) (handle : Nat) :
    World × Option (Except Unsaved Unit) :=
  match w.drainAll [handle] with
  | (w, none) => (w, none)
  | (w, some answers) =>
    if answers.all id then ((w.untrack client x handle).1, some (.ok ()))
    else (w, some (.error ⟨1⟩))

/-- Waits until all records of a session are saved; gives the number of those that are
not, or nothing if the wait could never end. -/
def drain (w : World) (x : Client) : World × Option Nat :=
  let (w, answers) := w.drainAll x.tracked
  (w, answers.map (fun answers => answers.countP (fun saved => !saved)))

/-- Begins a new session of a client's user, which tracks nothing. -/
def restart (w : World) (client : Nat) (x : Client) : World :=
  w.setClient client { x with tracked := [] }

/-- Ends the session of a client when all its records are saved, and keeps it otherwise; a
wait that could never end is given up together with the session. -/
def finish (w : World) (client : Nat) (x : Client) :
    World × Option (Except Unsaved Unit) :=
  match w.drain x with
  | (w, none) => (w.restart client x, none)
  | (w, some 0) => (w.restart client x, some (.ok ()))
  | (w, some failed) => (w, some (.error ⟨failed⟩))

end World
end RecordSync
