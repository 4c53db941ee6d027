import RecordSync.Simulation.World

/-!
# Running a world

Tasks run one at a time.  A save loop runs until it ends or the server holds its answer
back; a call runs until it answers or has to wait.  `World.settle` runs every task that
can run.

**Waiting.**  What waits in the foreground is polled first; if it is not done the tasks
run, and it is polled again.  When nothing can run any more the clock moves on to the next
moment at which a call gives up.  If there is none the wait could never end and is given
up.
-/

namespace RecordSync
namespace World

/-- Ends an attempt of a save loop with the server's answer. -/
def finishFlight (w : World) (handle : Nat) (delta : Delta) (accepted : Bool) : World :=
  match w.handles[handle]? with
  | none => w
  | some h =>
    let (c, goesOn) := h.controller.finishAttempt delta accepted
    let w := (w.setController handle c).showStatus handle c.status
    if goesOn then { w with ready := .loop handle none :: w.ready } else w

/-- Waits for the answer to a request that has arrived. -/
def awaitAnswer (w : World) (handle : Nat) (endpoint : String) (flight : Flight) :
    World :=
  if w.server.holding then { w with held := w.held ++ [.loop handle (some flight)] }
  else
    let (answer, server) := w.server.respond endpoint flight.patch
    { w with server := server }.finishFlight handle flight.delta answer.isOk

/-- Runs a save loop until it ends, has made an attempt or waits for an answer. -/
def runLoop (w : World) (handle : Nat) (flight : Option Flight) : World :=
  match w.handles[handle]? with
  | none => w
  | some h =>
    match flight with
    | some flight => w.awaitAnswer handle h.endpoint flight
    | none =>
      let (c, attempt) := h.controller.beginAttempt
      let w := w.setController handle c
      match attempt with
      | .over none => w
      | .over (some status) => w.showStatus handle status
      | .sending patch delta =>
        let w := w.showStatus handle .saving
        match w.server.receive h.endpoint patch with
        | .error _ => w.finishFlight handle delta false
        | .ok (arrived, server) =>
          { w with server := server }.awaitAnswer handle h.endpoint ⟨arrived, delta⟩

/-- Polls a call.  One that has to wait gives up when its time is over. -/
def pollCall (w : World) (x : Call) : World × Call :=
  match x.answer, w.handles[x.handle]? with
  | some _, _ | _, none => (w, x)
  | none, some h =>
    let x := if x.polled then x
      else { x with polled := true, deadline := h.settings.drainTimeout.map (w.now + ·) }
    let late := x.deadline.any (· ≤ w.now)
    let (c, poll) := x.call.poll w.runtime h.controller
    let w := w.setController x.handle c
    match poll with
    | .finished synchronized =>
        (w, { x with answer := some synchronized, spinning := false })
    | .suspended call =>
      (w, { x with
        call := call, spinning := false, answer := if late then some false else none })
    | .ready call =>
      (w, { x with
        call := call, spinning := true, answer := if late then some false else none })

def runTask (w : World) : Task → World
  | .loop handle flight => w.runLoop handle flight
  | .call number =>
    match w.calls[number]? with
    | none => w
    | some x =>
      let (w, x) := w.pollCall x
      { w with calls := w.calls.set number x }

/-- Runs the tasks that are queued, at most a number of them. -/
def runReady : Nat → World → World
  | 0, w => w
  | budget + 1, w =>
    match w.ready with
    | [] => w
    | task :: rest => runReady budget ({ w with ready := rest }.runTask task)

/-- More turns than the tasks of a world can take: a loop ends after the attempt in flight
and one more, and a call is polled again only when a latch changes. -/
def budget (w : World) : Nat :=
  let size := w.handles.length + w.calls.length + w.ready.length + w.held.length + 2
  8 * (size * size)

/-- The numbers of the background calls that asked for another turn. -/
def spinning (w : World) : List Nat :=
  (w.calls.zipIdx.filter (fun (x, _) => x.answer.isNone && x.spinning)).map
    (fun (_, number) => number)

/-- Runs the queued tasks, then gives the calls that asked for it another turn, while
fewer and fewer ask again. -/
def settleRounds : Nat → World → World
  | 0, w => w.runReady w.budget
  | rounds + 1, w =>
    let w := w.runReady w.budget
    match w.spinning with
    | [] => w
    | asking =>
      let after := { w with ready := asking.map .call }.runReady w.budget
      if after.spinning.length < asking.length then settleRounds rounds after else after

/-- Runs every task until it is finished or has to wait. -/
def settle (w : World) : World := settleRounds w.calls.length w

def pollAll (w : World) : List Call → World × List Call
  | [] => (w, [])
  | x :: rest =>
    let (w, x) := w.pollCall x
    let (w, rest) := w.pollAll rest
    (w, x :: rest)

/-- The moments at which calls that wait give up. -/
def deadlines (w : World) (foreground : List Call) : List Nat :=
  ((foreground ++ w.calls).filter (·.answer.isNone)).filterMap (·.deadline)

/-- Moves the clock on to the next moment at which a call gives up, and queues the
background calls that do so then. -/
def advance (w : World) (foreground : List Call) : Option World :=
  ((w.deadlines foreground).filter (w.now < ·)).min?.map (fun moment =>
    let late := (w.calls.zipIdx.filter (fun (x, _) =>
      x.answer.isNone && x.deadline.any (· ≤ moment))).map (fun (_, number) => number)
    { w with now := moment, ready := w.ready ++ late.map .call })

/-- Waits until calls have answered and a condition holds; `settled` says that the tasks
have run since the last change.  Gives nothing for a wait that could never end. -/
def waitFor (condition : World → Bool) :
    Nat → Bool → World → List Call → World × Option (List Call)
  | 0, _, w, _ => (w, none)
  | turns + 1, settled, w, calls =>
    let (w, calls) := w.pollAll calls
    if calls.all (·.answer.isSome) && condition w then (w, some calls)
    else if !settled || !w.ready.isEmpty then waitFor condition turns true w.settle calls
    else if calls.any (fun x => x.answer.isNone && x.spinning) then (w, none)
    else
      match w.advance calls with
      | some w => waitFor condition turns false w calls
      | none => (w, none)

/-- More turns than a wait can take: every call in the foreground starts at most one
attempt and every call gives up at most once. -/
def patience (w : World) (calls : List Call) : Nat :=
  8 * (calls.length + w.calls.length + w.handles.length + 2)

/-- Waits until a condition holds; says whether it does. -/
def waitUntil (w : World) (condition : World → Bool) : World × Bool :=
  let (w, answer) := waitFor condition (w.patience []) false w []
  (w, answer.isSome)

/-- Waits until the records of some handles are saved; gives the answers of the calls in
their order, or nothing if they could never all answer. -/
def drainAll (w : World) (handles : List Nat) : World × Option (List Bool) :=
  let calls := handles.map Call.fresh
  let (w, answered) := waitFor (fun _ => true) (w.patience calls) false w calls
  (w, answered.map (fun calls => calls.map (fun x => x.answer.getD false)))

/-- Polls a call once; its answer, if it gives one. -/
def drainNow (w : World) (handle : Nat) : World × Option Bool :=
  let (w, x) := w.pollCall (.fresh handle)
  (w, x.answer)

/-- Sends a patch past any controller and waits for the answer; gives nothing if the
server holds it back for good. -/
def save (w : World) (endpoint : String) (patch : Message) :
    World × Option (Except TransportError Unit) :=
  match w.server.receive endpoint patch with
  | .error e => (w, some (.error e))
  | .ok (arrived, server) =>
    match { w with server := server }.waitUntil (fun w => !w.server.holding) with
    | (w, true) =>
      let (answer, server) := w.server.respond endpoint arrived
      ({ w with server := server }, some answer)
    | (w, false) => (w, none)

end World
end RecordSync
