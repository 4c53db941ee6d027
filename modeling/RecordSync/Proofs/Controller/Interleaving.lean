import RecordSync.Drain
import RecordSync.Proofs.Record.Counters

/-!
# The steps of a controller

A controller is used by many at once, each of whose calls takes hold of it for one
critical section: an update, the opening or closing of a batch, a suppression or
resumption, a look or a kick on behalf of a waiting call, and the two sections of a save
loop, before and after its request.  The sections come in any order.

A section that starts a save loop sets `running`; the loop begins its first attempt at
some later time.  There is a runtime for it to run on.

**Results.**
* `Engine.Move`: the critical sections, with what they do to the save loops.
* `Engine.Step`: these and the answer to a request, of either kind.
-/

namespace RecordSync

variable {τ : Type}

/-- Where a save loop stands.  An attempt is kept with the record of which it was
taken. -/
inductive SaveLoop (τ : Type)
  /-- It is about to begin an attempt. -/
  | starting
  /-- Its request is under way. -/
  | sending (taken : Record τ) (patch : Message) (delta : Delta)
  /-- Its request was answered: the server took the patch or did not. -/
  | answered (taken : Record τ) (delta : Delta) (accepted : Bool)

/-- A controller with the save loops that run on it. -/
structure Engine (τ : Type) where
  controller : Controller τ
  loops : List (SaveLoop τ)

namespace Engine

def start (r : Record τ) : Engine τ := ⟨.ofRecord r, []⟩

/-- The engine after a critical section outside the save loops: there is a further loop if
the section started one. -/
def after (x : Engine τ) (c : Controller τ) : Engine τ :=
  ⟨c, if !x.controller.running && c.running then x.loops ++ [.starting] else x.loops⟩

/-- The save loop after it began an attempt of a record, if it goes on. -/
def begun (taken : Record τ) : Controller.Attempt → List (SaveLoop τ)
  | .over _ => []
  | .sending patch delta => [.sending taken patch delta]

/-- The save loop after it finished an attempt, if it goes on. -/
def finished (goesOn : Bool) : List (SaveLoop τ) := if goesOn then [.starting] else []

variable [Catalog τ]

/-- One critical section. -/
inductive Move : Engine τ → Engine τ → Prop
  | update (x : Engine τ) (edits : List Edit) :
      Move x (x.after (x.controller.update true edits).1)
  | openBatch (x : Engine τ) : Move x (x.after x.controller.openBatch)
  | closeBatch (x : Engine τ) :
      0 < x.controller.batchDepth → Move x (x.after (x.controller.closeBatch true))
  | suppress (x : Engine τ) : Move x (x.after x.controller.suppress)
  | resume (x : Engine τ) : Move x (x.after (x.controller.resume true))
  /-- A waiting call looks at the controller. -/
  | drainStep (x : Engine τ) : Move x (x.after x.controller.drainStep.1)
  /-- A waiting call asks for a new attempt. -/
  | kick (x : Engine τ) : Move x (x.after (x.controller.kick true).1)
  | begin (x : Engine τ) {before later : List (SaveLoop τ)} :
      x.loops = before ++ .starting :: later →
        Move x ⟨x.controller.beginAttempt.1,
          before ++ begun x.controller.record x.controller.beginAttempt.2 ++ later⟩
  | finish (x : Engine τ) {before later : List (SaveLoop τ)} {taken : Record τ}
      {delta : Delta} {accepted : Bool} :
      x.loops = before ++ .answered taken delta accepted :: later →
        Move x ⟨(x.controller.finishAttempt delta accepted).1,
          before ++ finished (x.controller.finishAttempt delta accepted).2 ++ later⟩

/-- One critical section, or the answer to a request. -/
inductive Step : Engine τ → Engine τ → Prop
  | move {x y : Engine τ} : Move x y → Step x y
  | answer (x : Engine τ) {before later : List (SaveLoop τ)} {taken : Record τ}
      {patch : Message} {delta : Delta} (accepted : Bool) :
      x.loops = before ++ .sending taken patch delta :: later →
        Step x ⟨x.controller, before ++ .answered taken delta accepted :: later⟩

/-- An engine that can be reached from a controller over a clean record of a type. -/
inductive Reachable (type : τ) : Engine τ → Prop
  | start {r : Record τ} {attempts : List Delta} :
      Record.Reachable type r attempts → r.dirty = 0 → Reachable type (start r)
  | step {x y : Engine τ} : Reachable type x → Step x y → Reachable type y

end Engine

end RecordSync
