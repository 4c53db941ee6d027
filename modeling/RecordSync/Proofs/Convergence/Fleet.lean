import RecordSync.Proofs.Controller.Turns
import RecordSync.Proofs.Convergence.Link
import RecordSync.Proofs.Store.Typed

/-!
# Many clients

Any number of clients keep tasks and variants in step with one server.  Each has records
open that it loaded at some time, or that it made, and edits them as it likes, however
long ago it last heard of the server.  A request that was sent may arrive at any later
time, more than once, or never, and what its sender is told need not be what the server
answered.

Whatever the clients do, every record that the server shows can be loaded again.

**Results.**
* `Record.Sound.patch_fits`: the patch of a record fits its type, for a client never makes
  or brings back an element of an ordered set but at a position.
* `Fleet.Holds.step`: each step keeps the store to fitting patches.
* `Fleet.roots_loadable`: each root that is found is decoded, and is well-formed.
-/

namespace RecordSync

section Patch

variable {τ : Type} [Catalog τ]

/-- The patch of a record fits its type. -/
theorem Record.Sound.patch_fits {r : Record τ} (h : r.Sound) : r.patch.Fits r.type := by
  induction h with
  | @intro r tidy inner ih =>
      have fields : SuitFields r.type r.delta.fields := by
        obtain ⟨suit, -⟩ := (Record.Sound.intro tidy inner).delta_suits
        exact suit
      -- What the patch has of a declared set are the patches of the elements of this set.
      have told : ∀ decl ∈ Catalog.sets r.type, ∀ g ∈ r.patch.children,
          g.name = decl.name →
          ∀ c ∈ g.members, ∃ s ∈ r.sets, s.decl = decl ∧
            ∃ e ∈ s.elements, e.patch? s.decl.kind = some c := by
        intro decl hd g hg name c hc
        rw [r.patch_children] at hg
        obtain ⟨s, hs, rfl⟩ := List.mem_map.mp (mem_of_mem_messageGroups hg).1
        have here : s.decl = decl :=
          List.inj_on_of_nodup_map (nodup_set_names r.type) (tidy.set_decl_mem hs) hd name
        have hc : c ∈ s.patches := hc
        rw [ElementSet.patches_eq] at hc
        exact ⟨s, hs, here, List.mem_filterMap.mp hc⟩
      refine .intro ?_ ?_ ?_
      · intro decl hd x hx
        rw [r.patch_fields] at hx
        refine fields decl hd x ?_
        rw [Record.delta_eq]
        exact SortedList.mem_of_mem_ofList hx
      · intro decl hd g hg name c hc ordered
        obtain ⟨s, hs, rfl, e, he, told⟩ := told decl hd g hg name c hc
        have shaped := (tidy.sets_tidy s hs).shaped e he
        rw [ordered] at shaped
        have unmarked : e.deleted = .clean false := shaped
        obtain ⟨-, rfl⟩ := Element.patch?_eq_some.mp told
        show e.deleted.delta? = none
        rw [unmarked]
        rfl
      · intro decl hd g hg name c hc
        obtain ⟨s, hs, rfl, e, he, told⟩ := told decl hd g hg name c hc
        obtain ⟨-, rfl⟩ := Element.patch?_eq_some.mp told
        rw [← (tidy.sets_tidy s hs).typed e he]
        split
        · exact (ih s hs e he).congr rfl rfl
        · exact (Message.fits_blank e.record.type e.id).congr rfl rfl

namespace Engine

variable {x y : Engine τ}

/-- Each turn leaves the record of its type. -/
theorem Attends.type_turn (h : x.Attends) (turn : Turn x y) :
    y.controller.record.type = x.controller.record.type := by
  cases turn with
  | call a possible =>
      have effect := Controller.Call.effect (a := a) rfl h.steady.batch possible
      exact (effect.view h.steady.sound).1.type_eq
  | begin loops => exact h.steady.record_begun.2.1
  | answer accepted loops => rfl
  | @finish before later taken d accepted loops =>
      obtain ⟨-, -, -, awaits⟩ := h.alone loops
      exact (h.steady.record_finished awaits accepted).2.1

/-- What is sent is the patch of a record of the type. -/
theorem Attends.sent_fits (h : x.Attends) {taken : Record τ} {patch : Message}
    {delta : Delta} (sending : .sending taken patch delta ∈ x.loops) :
    patch.Fits x.controller.record.type := by
  obtain ⟨before, later, loops⟩ := List.append_of_mem sending
  obtain ⟨-, -, -, awaits, rfl⟩ := h.alone loops
  rw [awaits.sound.type_of_trunk awaits.trunk]
  exact awaits.sound.patch_fits

end Engine

end Patch

/-- The families of roots. -/
inductive Family
  | task
  | kim
deriving DecidableEq, Repr

namespace Family

def type : Family → Entity
  | task => .task
  | kim => .kim

def kind : Family → String
  | task => "task"
  | kim => "kim"

def endpoint : Family → String
  | task => taskEndpoint
  | kim => kimEndpoint

theorem route_endpoint (family : Family) : route family.endpoint = some family.kind := by
  cases family <;> rfl

/-- The type of the roots of a family. -/
def typeOf (kind : String) : Option Entity :=
  if kind = "task" then some .task
  else if kind = "kim" then some .kim
  else none

theorem typeOf_kind (family : Family) : typeOf family.kind = some family.type := by
  cases family <;> rfl

theorem of_typeOf {kind : String} {type : Entity} (h : typeOf kind = some type) :
    ∃ family : Family, family.kind = kind ∧ family.type = type := by
  rw [typeOf] at h
  split_ifs at h with isTask isKim
  · exact ⟨.task, isTask.symm, Option.some.inj h⟩
  · exact ⟨.kim, isKim.symm, Option.some.inj h⟩

end Family

/-- A record of a family that a client has open. -/
structure Opened where
  family : Family
  engine : Engine Entity

/-- A server, the records that its clients have open, and the requests that were ever
sent. -/
structure Fleet where
  server : Server
  opened : List Opened
  sent : List (Family × Message)

namespace Fleet

/-- A server with an empty store and without clients. -/
def start (digest : Bytes → Bytes) : Fleet := ⟨.start digest, [], []⟩

/-- One step of a server and its clients. -/
inductive Step : Fleet → Fleet → Prop
  /-- A client opens a root that it loads. -/
  | load (x : Fleet) {family : Family} {id : Int} {content : Message}
      {r : Record Entity} :
      x.server.store.load family.kind id = .ok content →
      Record.ofMessage family.type content = .ok r →
        Step x { x with opened := x.opened ++ [⟨family, .start r⟩] }
  /-- A client makes a record, of any id. -/
  | make (x : Fleet) (family : Family) (id : Int) :
      Step x { x with opened := x.opened ++ [⟨family, .start (.blank family.type id)⟩] }
  /-- A call, a loop or an answer takes its turn at an open record; the answer may be
  any. -/
  | turn (x : Fleet) {before later : List Opened} {family : Family}
      {engine engine' : Engine Entity} :
      x.opened = before ++ ⟨family, engine⟩ :: later → Engine.Turn engine engine' →
        Step x { x with opened := before ++ ⟨family, engine'⟩ :: later }
  /-- A request leaves, and may arrive from now on. -/
  | send (x : Fleet) {o : Opened} {taken : Record Entity} {patch : Message}
      {delta : Delta} :
      o ∈ x.opened → .sending taken patch delta ∈ o.engine.loops →
        Step x { x with sent := x.sent ++ [(o.family, patch)] }
  /-- A request arrives as it was sent, and the server answers it. -/
  | arrive (x : Fleet) {family : Family} {patch : Message} {arrived : Server} :
      (family, patch) ∈ x.sent →
      x.server.receive family.endpoint patch = .ok (patch, arrived) →
        Step x { x with server := (arrived.respond family.endpoint patch).2 }
  | reserve (x : Fleet) (count : Nat) :
      Step x { x with server := (x.server.reserve count).2 }
  | configure (x : Fleet) (failNext : Nat) (failAll holding : Bool) :
      Step x { x with server := { x.server with
        failNext := failNext, failAll := failAll, holding := holding } }

/-- The store was given none but patches that fit the types of their families, and no
client has another one to send. -/
structure Holds (digest : Bytes → Bytes) (x : Fleet) : Prop where
  fed : x.server.store.Fed (FitsFamily Family.typeOf) digest
  attends : ∀ o ∈ x.opened, o.engine.Attends
  typed : ∀ o ∈ x.opened, o.engine.controller.record.type = o.family.type
  fits : ∀ request ∈ x.sent, request.2.Fits request.1.type

variable {digest : Bytes → Bytes} {x y : Fleet}

theorem holds_start : (start digest).Holds digest :=
  ⟨.empty, fun _ ho => absurd ho List.not_mem_nil, fun _ ho => absurd ho List.not_mem_nil,
    fun _ hr => absurd hr List.not_mem_nil⟩

/-- A record that was made is opened. -/
theorem Holds.open (h : x.Holds digest) {family : Family} {r : Record Entity}
    (made : r.Made family.type) :
    Holds digest { x with opened := x.opened ++ [⟨family, .start r⟩] } where
  fed := h.fed
  attends := List.forall_mem_append.mpr
    ⟨h.attends, List.forall_mem_singleton.mpr (.start made.sound)⟩
  typed := List.forall_mem_append.mpr ⟨h.typed, List.forall_mem_singleton.mpr made.type_eq⟩
  fits := h.fits

/-- A request that arrives is granted only if the store took its patch. -/
theorem Holds.arrive (h : x.Holds digest) {family : Family} {patch : Message}
    {arrived : Server} (sent : (family, patch) ∈ x.sent)
    (received : x.server.receive family.endpoint patch = .ok (patch, arrived)) :
    (arrived.respond family.endpoint patch).2.store.Fed (FitsFamily Family.typeOf) digest := by
  have fed : arrived.store.Fed (FitsFamily Family.typeOf) digest :=
    Server.store_of_receive received ▸ h.fed
  rcases arrived.respond_cases family.endpoint patch with ⟨-, same⟩ |
    ⟨kind, routed, applied, -⟩
  · exact same ▸ fed
  · obtain rfl :
        family.kind = kind := Option.some.inj (family.route_endpoint.symm.trans routed)
    exact fed.apply ⟨family.type, family.typeOf_kind, h.fits _ sent⟩ applied

/-- Each step keeps the store to fitting patches. -/
theorem Holds.step (h : x.Holds digest) (hs : Step x y) : y.Holds digest := by
  cases hs with
  | load loaded decoded => exact h.open (Record.made_of_ofMessage _ _ _ decoded)
  | make family id => exact h.open (Record.blank_sound family.type id)
  | @turn before later family engine engine' opened turn =>
      have attends := h.attends
      have typed := h.typed
      rw [opened, List.forall_mem_append, List.forall_mem_cons] at attends typed
      obtain ⟨attends, own, attends'⟩ := attends
      obtain ⟨typed, type, typed'⟩ := typed
      refine ⟨h.fed, ?_, ?_, h.fits⟩
      · exact List.forall_mem_append.mpr
          ⟨attends, List.forall_mem_cons.mpr ⟨own.turn turn, attends'⟩⟩
      · exact List.forall_mem_append.mpr
          ⟨typed, List.forall_mem_cons.mpr ⟨(own.type_turn turn).trans type, typed'⟩⟩
  | @send o taken patch delta ho sending =>
      have fits := (h.attends o ho).sent_fits sending
      rw [h.typed o ho] at fits
      exact ⟨h.fed, h.attends, h.typed,
        List.forall_mem_append.mpr ⟨h.fits, List.forall_mem_singleton.mpr fits⟩⟩
  | arrive sent received => exact ⟨h.arrive sent received, h.attends, h.typed, h.fits⟩
  | reserve count =>
      refine ⟨?_, h.attends, h.typed, h.fits⟩
      show (x.server.reserve count).2.store.Fed _ digest
      rw [Server.reserve]
      cases reserved : x.server.store.reserve count with
      | error e => exact h.fed
      | ok result =>
          obtain ⟨range, store⟩ := result
          exact h.fed.reserve reserved
  | configure failNext failAll holding => exact ⟨h.fed, h.attends, h.typed, h.fits⟩

theorem holds_of_reachable (h : Relation.ReflTransGen Step (start digest) x) :
    x.Holds digest := by
  induction h with
  | refl => exact holds_start
  | tail _ hs ih => exact ih.step hs

/-- Whatever the clients do, each root that the server finds is loaded, as the message of
a well-formed record of the type of its family, and this record is decoded from it. -/
theorem roots_loadable (h : Relation.ReflTransGen Step (start digest) x) (kind : String)
    (id : Int) : x.server.store.load kind id = .error (.missingRoot kind id) ∨
      ∃ (family : Family) (content : Message) (r : Record Entity), family.kind = kind ∧
        x.server.store.load kind id = .ok content ∧
        Record.ofMessage family.type content = .ok r ∧
        content.WellFormed family.type := by
  rcases (holds_of_reachable h).fed.loads kind id with missing |
    ⟨type, content, named, loaded, whole⟩
  · exact .inl missing
  · obtain ⟨family, name, rfl⟩ := Family.of_typeOf named
    obtain ⟨r, decoded⟩ := whole.decodes
    exact .inr ⟨family, content, r, name, loaded, decoded, whole⟩

section Stale

/-- The first client takes a turn. -/
theorem Step.turn_first (x : Fleet) {later : List Opened} {family : Family}
    {engine engine' : Engine Entity} (opened : x.opened = ⟨family, engine⟩ :: later)
    (turn : Engine.Turn engine engine') :
    Step x { x with opened := ⟨family, engine'⟩ :: later } :=
  @Step.turn x [] later family engine engine' opened turn

/-- The second client takes a turn. -/
theorem Step.turn_second (x : Fleet) {first : Opened} {later : List Opened}
    {family : Family} {engine engine' : Engine Entity}
    (opened : x.opened = first :: ⟨family, engine⟩ :: later)
    (turn : Engine.Turn engine engine') :
    Step x { x with opened := first :: ⟨family, engine'⟩ :: later } :=
  @Step.turn x [first] later family engine engine' opened turn

variable {family : Family} {patch : Message}

/-- A request arrives and is granted. -/
theorem Step.grant (x : Fleet) {store : Store} (sent : (family, patch) ∈ x.sent)
    (read : Message.decode patch.encode = .ok patch)
    (serves : (x.server.failAll || 0 < x.server.failNext) = false)
    (applied : x.server.store.apply family.kind patch = .ok store) :
    Step x { x with server := { x.server with
      store := store, requests := x.server.requests ++ [(family.endpoint, patch)] } } := by
  have step := @Step.arrive x family patch _ sent (by rw [Server.receive, read])
  simpa [Server.respond, serves, family.route_endpoint, applied] using step

/-- A request arrives and is refused. -/
theorem Step.refuse (x : Fleet) {reason : StoreError} (sent : (family, patch) ∈ x.sent)
    (read : Message.decode patch.encode = .ok patch)
    (serves : (x.server.failAll || 0 < x.server.failNext) = false)
    (refused : x.server.store.apply family.kind patch = .error reason) :
    Step x { x with server := { x.server with
      requests := x.server.requests ++ [(family.endpoint, patch)] } } := by
  have step := @Step.arrive x family patch _ sent (by rw [Server.receive, read])
  simpa [Server.respond, serves, family.route_endpoint, refused] using step

/-- What a message says of an entry: where it is, and where it goes. -/
def entry (id position : Int) (target : Option Int) : Message :=
  ⟨id, [], [], some position, target, none⟩

/-- A message of the variant, with some of its entries. -/
def entriesMessage (entries : List Message) : Message :=
  ⟨1, [], [⟨"tasks", entries⟩], none, none, none⟩

/-- The patch that makes the variant with two entries. -/
def creation : Message :=
  entriesMessage [entry 7 absentPosition (some 0), entry 8 absentPosition (some 1)]

/-- The patch that exchanges the entries. -/
def exchange : Message := entriesMessage [entry 7 0 (some 1), entry 8 1 (some 0)]

/-- The patch that removes the first entry, as one who has not heard of the exchange sends
it. -/
def staleRemoval : Message := entriesMessage [entry 7 0 (some absentPosition)]

/-- The store that holds the variant, by the positions of its entries. -/
def entriesStore (first second : Int) : Store :=
  ⟨Blake3.digest,
    [⟨1, 0, "kim", 1, none, false, []⟩, ⟨2, 1, "tasks", 7, some first, false, []⟩,
      ⟨3, 1, "tasks", 8, some second, false, []⟩], [], 1⟩

theorem apply_staleRemoval :
    (entriesStore 1 0).apply "kim" staleRemoval = .error (.positionConflict 7 1 0) := rfl

/-- A client makes a variant with two entries and saves it, another one loads it, and the
first one exchanges the entries.  The second one, which has not heard of that, removes an
entry: it is refused, and the variant can be loaded. -/
theorem roots_loadable_after_stale_patch :
    ∃ x : Fleet, Relation.ReflTransGen Step (start Blake3.digest) x ∧
      x.opened.length = 2 ∧
      x.server.requests.map Prod.snd = [creation, exchange, staleRemoval] ∧
      x.server.store.apply "kim" staleRemoval = .error (.positionConflict 7 1 0) ∧
      x.server.store.load "kim" 1 = .ok (entriesMessage [entry 8 0 none, entry 7 1 none]) ∧
      ∃ (family : Family) (content : Message) (r : Record Entity), family.kind = "kim" ∧
        x.server.store.load "kim" 1 = .ok content ∧
        Record.ofMessage family.type content = .ok r ∧
        content.WellFormed family.type := by
  have made : Relation.ReflTransGen Step (start Blake3.digest) _ :=
    .single (.make _ .kim 1)
  have resumed := made.tail (.turn_first _ rfl (.call _ (.resume true) trivial))
  have edited := resumed.tail (.turn_first _ rfl (.call _ (.update true
    [.within "tasks" (.add (.blank 7) []), .within "tasks" (.add (.blank 8) [])]) trivial))
  have began := edited.tail (.turn_first _ rfl (@Engine.Turn.begin _ _ _ [] [] rfl))
  have sent := began.tail (@Step.send _ _ _ creation _ List.mem_cons_self List.mem_cons_self)
  have saved := sent.tail
    (@Step.grant _ _ _ (entriesStore 0 1) List.mem_cons_self rfl rfl rfl)
  have loaded := saved.tail
    (@Step.load _ .kim 1 (entriesMessage [entry 7 0 none, entry 8 1 none]) _ rfl rfl)
  have answered := loaded.tail
    (.turn_first _ rfl (@Engine.Turn.answer _ _ _ [] [] _ _ _ true rfl))
  have ended :=
    answered.tail (.turn_first _ rfl (@Engine.Turn.finish _ _ _ [] [] _ _ _ rfl))
  have swapped := ended.tail (.turn_first _ rfl
    (.call _ (.update true [.within "tasks" (.swap 7 8)]) trivial))
  have began := swapped.tail (.turn_first _ rfl (@Engine.Turn.begin _ _ _ [] [] rfl))
  have sent := began.tail (@Step.send _ _ _ exchange _ List.mem_cons_self List.mem_cons_self)
  have exchanged := sent.tail (@Step.grant _ _ _ (entriesStore 1 0)
    (List.mem_cons_of_mem _ List.mem_cons_self) rfl rfl rfl)
  have resumed := exchanged.tail (.turn_second _ rfl (.call _ (.resume true) trivial))
  have removed := resumed.tail (.turn_second _ rfl
    (.call _ (.update true [.within "tasks" (.remove 7)]) trivial))
  have began := removed.tail (.turn_second _ rfl (@Engine.Turn.begin _ _ _ [] [] rfl))
  have sent := began.tail (@Step.send _ _ _ staleRemoval _
    (List.mem_cons_of_mem _ List.mem_cons_self) List.mem_cons_self)
  have refused := sent.tail (@Step.refuse _ _ _ _
    (List.mem_cons_of_mem _ (List.mem_cons_of_mem _ List.mem_cons_self)) rfl rfl
    apply_staleRemoval)
  have load : (entriesStore 1 0).load "kim" 1 =
      .ok (entriesMessage [entry 8 0 none, entry 7 1 none]) := rfl
  refine ⟨_, refused, rfl, rfl, apply_staleRemoval, load,
    (roots_loadable refused "kim" 1).resolve_left fun missing => ?_⟩
  cases load.symm.trans missing

end Stale

end Fleet

end RecordSync
