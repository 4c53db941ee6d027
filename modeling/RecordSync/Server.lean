import RecordSync.IdPool
import RecordSync.Packed.Wire
import RecordSync.Store.Apply
import RecordSync.Store.Load

/-!
# The server

The server takes requests to save a record.  A request is packed, sent and unpacked, then
noted, and answered when the server does not hold answers back: the patch is applied to
the family of roots behind its endpoint.  Requests can be made to fail.

**Results.**  `Server.receive` notes a request, `Server.respond` answers it;
`TransportError.message` is the wording of each failure.
-/

namespace RecordSync

/-- Why a request was not granted. -/
inductive TransportError
  /-- The connection broke. -/
  | reset (endpoint : String)
  /-- The patch is nested too deeply to be unpacked. -/
  | tooDeep (endpoint : String)
  /-- The store refused the patch. -/
  | rejected (endpoint : String) (reason : StoreError)
  | unknownEndpoint (endpoint : String)
deriving DecidableEq, Repr

def TransportError.message : TransportError → String
  | reset endpoint => s!"request to {endpoint} failed: connection reset"
  | tooDeep endpoint =>
    s!"request to {endpoint} failed: serialization error: depth limit exceeded"
  | rejected endpoint reason => s!"request to {endpoint} was rejected: {reason.message}"
  | unknownEndpoint endpoint => s!"unknown endpoint: {endpoint}"

def taskEndpoint : String := "/api/tasks/update"

def kimEndpoint : String := "/api/kim/update"

/-- The family of roots behind an endpoint. -/
def route (endpoint : String) : Option String :=
  if endpoint = taskEndpoint then some "task"
  else if endpoint = kimEndpoint then some "kim"
  else none

/-- A server with its store. -/
structure Server where
  store : Store
  /-- The number of requests that are still to fail. -/
  failNext : Nat
  /-- Every request fails. -/
  failAll : Bool
  holding : Bool
  /-- The requests that arrived, with their endpoints. -/
  requests : List (String × Message)

namespace Server

/-- A server with an empty store. -/
def start (digest : Bytes → Bytes) : Server := ⟨.empty digest, 0, false, false, []⟩

/-- Takes in a request: the patch as it arrives. -/
def receive (s : Server) (endpoint : String) (patch : Message) :
    Except TransportError (Message × Server) :=
  match Message.decode patch.encode with
  | .ok arrived =>
      .ok (arrived, { s with requests := s.requests ++ [(endpoint, arrived)] })
  | .error _ => .error (.tooDeep endpoint)

/-- Answers a request that has arrived. -/
def respond (s : Server) (endpoint : String) (patch : Message) :
    Except TransportError Unit × Server :=
  if s.failAll || 0 < s.failNext then
    (.error (.reset endpoint), { s with failNext := s.failNext - 1 })
  else
    match route endpoint with
    | none => (.error (.unknownEndpoint endpoint), s)
    | some kind =>
      match s.store.apply kind patch with
      | .ok store => (.ok (), { s with store := store })
      | .error reason => (.error (.rejected endpoint reason), s)

def seed (s : Server) (kind : String) (record : Message) : Except StoreError Server :=
  (s.store.apply kind record).map (fun store => { s with store := store })

def reserve (count : Nat) (s : Server) : Except IdError (Int × Int) × Server :=
  match s.store.reserve count with
  | .ok (range, store) => (.ok range, { s with store := store })
  | .error e => (.error (.source e.message), s)

end Server
end RecordSync
