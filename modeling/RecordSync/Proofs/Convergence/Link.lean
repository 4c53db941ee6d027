import RecordSync.Blake3
import RecordSync.Entity
import RecordSync.Proofs.Controller.Baseline
import RecordSync.Proofs.Convergence.Saving
import RecordSync.Server

/-!
# A record and its server

A controller keeps one root of the server in step with its record.  Its requests arrive as
they were sent or not at all, and the server answers those that arrive at any later time,
in between the critical sections of the controller: a request fails when the server is
told to fail it or refuses the patch.  Others may use the server meanwhile, but they do
not write to this root.

**Invariant.**  After each accepted attempt the server carries what the user saw when the
attempt was begun, iff the patch told all; until then it goes on carrying the baseline.

**Results.**
* `Link.Holds.step`: each step keeps the invariant.
* `Link.Reachable.converges_iff`: a synchronized record is what the server holds iff the
  last accepted patch told all, if those before it did.
-/

namespace RecordSync

variable {τ : Type} [Catalog τ]

/-- What else a server does: other requests, records that are written without a request,
ids that are reserved, and the settings by which requests fail.  None of it writes to the
root of an id in a family; the strings of bytes are of a class. -/
inductive Server.Beside (U : Set Bytes) (kind : String) (id : Int) :
    Server → Server → Prop
  | receive {s s' : Server} {endpoint : String} {patch arrived : Message} :
      s.receive endpoint patch = .ok (arrived, s') → Beside U kind id s s'
  | respond (s : Server) {endpoint : String} {patch : Message} :
      patch.BytesIn U → (∀ k, route endpoint = some k → (k, patch.id) ≠ (kind, id)) →
        Beside U kind id s (s.respond endpoint patch).2
  | seed {s s' : Server} {k : String} {record : Message} :
      record.BytesIn U → (k, record.id) ≠ (kind, id) → s.seed k record = .ok s' →
        Beside U kind id s s'
  | reserve (s : Server) (count : Nat) : Beside U kind id s (s.reserve count).2
  | configure (s : Server) (failNext : Nat) (failAll holding : Bool) :
      Beside U kind id s
      { s with failNext := failNext, failAll := failAll, holding := holding }

/-- A controlled record with the server that keeps it. -/
structure Link (τ : Type) where
  engine : Engine τ
  server : Server
  /-- The records as they were when the attempts were begun that were accepted, in
  order. -/
  accepted : List (Record τ)

/-- What a link is about: a record of a type that the server keeps as the root of an id,
behind an endpoint that leads to a family of roots.  The strings of bytes are of a class
on which the server's digest is injective. -/
structure Subject (τ : Type) where
  type : τ
  id : Int
  endpoint : String
  kind : String
  digest : Bytes → Bytes
  bytes : Set Bytes
  routed : route endpoint = some kind
  named : Set.InjOn digest bytes

section Server

variable {U : Set Bytes} {kind : String} {id : Int} {s s' : Server} {forest : Node}

omit [Catalog τ] in
/-- A request changes nothing, or its patch is applied and it is granted. -/
theorem Server.respond_cases (s : Server) (endpoint : String) (patch : Message) :
    (s.respond endpoint patch).1.isOk = false ∧
      (s.respond endpoint patch).2.store = s.store ∨
      ∃ k, route endpoint = some k ∧
        s.store.apply k patch = .ok (s.respond endpoint patch).2.store ∧
        (s.respond endpoint patch).1.isOk = true := by
  rw [Server.respond]
  split
  · exact .inl ⟨rfl, rfl⟩
  · cases routed : route endpoint with
    | none => exact .inl ⟨rfl, rfl⟩
    | some k =>
        dsimp only
        cases applied : s.store.apply k patch with
        | error e => exact .inl ⟨rfl, rfl⟩
        | ok store => exact .inr ⟨k, rfl, applied, rfl⟩

omit [Catalog τ] in
theorem Server.store_of_receive {endpoint : String} {patch arrived : Message}
    (h : s.receive endpoint patch = .ok (arrived, s')) : s'.store = s.store := by
  rw [Server.receive] at h
  split at h
  · obtain ⟨-, rfl⟩ := Prod.mk.inj (Except.ok.inj h)
    rfl
  · cases h

omit [Catalog τ] in
theorem Server.seed_eq_ok {k : String} {record : Message} (h : s.seed k record = .ok s') :
    ∃ store, s.store.apply k record = .ok store ∧ s' = { s with store := store } := by
  unfold Server.seed at h
  cases applied : s.store.apply k record with
  | error e =>
      rw [applied] at h
      cases h
  | ok store =>
      rw [applied] at h
      exact ⟨store, rfl, (Except.ok.inj h).symm⟩

/-- What else a server does is not seen at a root of which it keeps off. -/
theorem Server.Beside.shows (h : Server.Beside U kind id s s')
    (shows : s.store.ShowsForest U forest) :
    ∃ forest', s'.store.ShowsForest U forest' ∧
      forest'.child? kind id = forest.child? kind id := by
  have apart : ∀ {k : String} {patch : Message} {store : Store}, patch.BytesIn U →
      (k, patch.id) ≠ (kind, id) → s.store.apply k patch = .ok store →
        ∃ forest', store.ShowsForest U forest' ∧
          forest'.child? kind id = forest.child? kind id := by
    intro k patch store known other applied
    obtain ⟨forest', new, shows', -, child⟩ := shows.applied known applied
    refine ⟨forest', shows', (child kind id).trans (if_neg ?_)⟩
    rintro ⟨rfl, rfl⟩
    exact other rfl
  cases h with
  | receive received => exact ⟨forest, Server.store_of_receive received ▸ shows, rfl⟩
  | @respond endpoint patch known other =>
      rcases s.respond_cases endpoint patch with ⟨-, same⟩ | ⟨k, routed, applied, -⟩
      · exact ⟨forest, same ▸ shows, rfl⟩
      · exact apart known (other k routed) applied
  | seed known other seeded =>
      obtain ⟨store, applied, rfl⟩ := Server.seed_eq_ok seeded
      exact apart known other applied
  | reserve count =>
      refine ⟨forest, ?_, rfl⟩
      rw [Server.reserve]
      cases reserved : s.store.reserve count with
      | error e => exact shows
      | ok result =>
          obtain ⟨range, store⟩ := result
          exact shows.reserve reserved
  | configure => exact ⟨forest, shows, rfl⟩

end Server

namespace Link

variable {sub : Subject τ}

/-- The answer to a request: the save loop is told whether the server took the patch. -/
def answer (x : Link τ) (server : Server) (taken : Record τ) (delta : Delta)
    (accepted : Bool) : Link τ :=
  ⟨⟨x.engine.controller, [.answered taken delta accepted]⟩, server,
    if accepted then x.accepted ++ [taken] else x.accepted⟩

/-- One step of a link. -/
inductive Step (sub : Subject τ) : Link τ → Link τ → Prop
  | move (x : Link τ) {engine : Engine τ} :
      Engine.Move x.engine engine → Step sub x { x with engine := engine }
  /-- A request that arrived is answered. -/
  | answer (x : Link τ) {taken : Record τ} {patch : Message} {delta : Delta}
      {arrived : Server} :
      x.engine.loops = [.sending taken patch delta] → patch.BytesIn sub.bytes →
      x.server.receive sub.endpoint patch = .ok (patch, arrived) →
        Step sub x (x.answer (arrived.respond sub.endpoint patch).2 taken delta
          (arrived.respond sub.endpoint patch).1.isOk)
  /-- A request is lost on its way. -/
  | lose (x : Link τ) {taken : Record τ} {patch : Message} {delta : Delta} :
      x.engine.loops = [.sending taken patch delta] →
        Step sub x (x.answer x.server taken delta false)
  | beside (x : Link τ) {server : Server} :
      Server.Beside sub.bytes sub.kind sub.id x.server server →
        Step sub x { x with server := server }

/-- A link that can be reached from a record that was loaded, or from a new one of which
the server has no live root. -/
inductive Reachable (sub : Subject τ) : Link τ → Prop
  | loaded {server : Server} {content : Message} {r : Record τ} :
      Store.Built sub.bytes sub.digest server.store →
      server.store.load sub.kind sub.id = .ok content →
      Record.ofMessage sub.type content = .ok r →
        Reachable sub ⟨.start r, server, []⟩
  | made {server : Server} :
      Store.Built sub.bytes sub.digest server.store →
      server.store.live? 0 sub.kind sub.id = none →
        Reachable sub ⟨.start (.blank sub.type sub.id), server, []⟩
  | step {x y : Link τ} : Reachable sub x → Step sub x y → Reachable sub y

/-- All patches that were accepted told all. -/
def ToldAll (records : List (Record τ)) : Prop := ∀ r ∈ records, r.tellsAll true = true

structure Holds (sub : Subject τ) (x : Link τ) : Prop where
  engine : x.engine.Holds
  type_eq : x.engine.controller.record.type = sub.type
  id_eq : x.engine.controller.record.id = sub.id
  served : ∃ forest : Node, x.server.store.ShowsForest sub.bytes forest ∧
    (ToldAll x.accepted.dropLast →
      (((forest.child? sub.kind sub.id).getD (.blank sub.id)).Carries sub.type
        x.engine.baseline ↔
        ToldAll x.accepted))

omit [Catalog τ] in
theorem toldAll_nil : ToldAll ([] : List (Record τ)) :=
  fun _ hr => absurd hr List.not_mem_nil

omit [Catalog τ] in
theorem ToldAll.dropLast {records : List (Record τ)} (h : ToldAll records) :
    ToldAll records.dropLast :=
  fun r hr => h r ((List.dropLast_sublist _).subset hr)

omit [Catalog τ] in
theorem toldAll_append {records : List (Record τ)} {r : Record τ} (h : ToldAll records) :
    ToldAll (records ++ [r]) ↔ r.tellsAll true = true := by
  constructor
  · exact fun all => all r (List.mem_append_right _ List.mem_cons_self)
  · intro told x hx
    rcases List.mem_append.mp hx with hx | hx
    · exact h x hx
    · obtain rfl := List.mem_singleton.mp hx
      exact told

/-- What the server shows of the root does not change with the accepted attempts and the
baseline, when neither changes. -/
theorem Holds.keep {x y : Link τ} (h : x.Holds sub) (engine : y.engine.Holds)
    (record : y.engine.controller.record.type = x.engine.controller.record.type ∧
      y.engine.controller.record.id = x.engine.controller.record.id)
    (baseline : y.engine.baseline = x.engine.baseline)
    (accepted : y.accepted = x.accepted)
    (served : ∀ forest : Node, x.server.store.ShowsForest sub.bytes forest →
      ∃ forest' : Node, y.server.store.ShowsForest sub.bytes forest' ∧
        forest'.child? sub.kind sub.id = forest.child? sub.kind sub.id) :
          y.Holds sub := by
  obtain ⟨forest, shows, told⟩ := h.served
  obtain ⟨forest', shows', child⟩ := served forest shows
  refine ⟨engine, record.1.trans h.type_eq, record.2.trans h.id_eq, forest', shows', ?_⟩
  rwa [child, baseline, accepted]

/-- A request that fails leaves everything as it is. -/
theorem Holds.refuse {x : Link τ} (h : x.Holds sub) {taken : Record τ} {patch : Message}
    {delta : Delta} (sending : x.engine.loops = [.sending taken patch delta])
    {server : Server} (same : server.store = x.server.store) :
    (x.answer server taken delta false).Holds sub := by
  have step : Engine.Step x.engine (x.answer server taken delta false).engine :=
    @Engine.Step.answer _ _ x.engine [] [] taken patch delta false sending
  refine h.keep (h.engine.step step) ⟨rfl, rfl⟩ ?_ rfl (fun f shows => ⟨f, same ▸ shows, rfl⟩)
  rw [Engine.baseline_eq_remote (x := x.engine) (by rw [sending]; nofun)]
  rfl

/-- A request that is granted makes of the root what the user saw iff the patch told
all. -/
theorem Holds.grant {x : Link τ} (h : x.Holds sub) {taken : Record τ} {patch : Message}
    {delta : Delta} (sending : x.engine.loops = [.sending taken patch delta])
    (known : patch.BytesIn sub.bytes) {server : Server}
    (applied : x.server.store.apply sub.kind patch = .ok server.store) :
    (x.answer server taken delta true).Holds sub := by
  have step : Engine.Step x.engine (x.answer server taken delta true).engine :=
    @Engine.Step.answer _ _ x.engine [] [] taken patch delta true sending
  have serves := h.engine.serves
  rw [sending] at serves
  obtain ⟨awaits, rfl⟩ := serves
  obtain ⟨baseline, type, id⟩ :=
    h.engine.steady.sound.eq_of_trunk awaits.sound awaits.trunk
  have type : taken.type = sub.type := type.symm.trans h.type_eq
  have id : taken.id = sub.id := id.symm.trans h.id_eq
  have patchId : taken.patch.id = sub.id := by rw [Record.patch_eq, ← id]
  obtain ⟨forest, shows, told⟩ := h.served
  obtain ⟨forest', new, shows', made, child⟩ := shows.applied known applied
  refine ⟨h.engine.step step, h.type_eq, h.id_eq, forest', shows', ?_⟩
  intro before
  have before : ToldAll x.accepted := by
    have e : (x.accepted ++ [taken]).dropLast = x.accepted := List.dropLast_concat
    exact e ▸ before
  have carries := (told before.dropLast).mpr before
  rw [Engine.baseline_eq_remote (x := x.engine) (by rw [sending]; nofun), baseline] at carries
  rw [patchId, ← id] at made
  rw [← type, ← id] at carries
  obtain ⟨n, rfl, whole⟩ := awaits.sound.root_told
    (fun n found => ⟨shows.branches.child? found, Node.id_of_child? found⟩) carries made
  rw [child, if_pos ⟨rfl, patchId.symm⟩]
  show n.Carries sub.type taken.localMessage ↔ ToldAll (x.accepted ++ [taken])
  rw [toldAll_append before, ← type]
  exact whole

theorem Holds.step {x y : Link τ} (h : x.Holds sub) (hs : Step sub x y) :
    y.Holds sub := by
  cases hs with
  | move move =>
      obtain ⟨baseline, record⟩ := h.engine.baseline_move move
      exact h.keep (h.engine.step (.move move)) record baseline rfl
        (fun f shows => ⟨f, shows, rfl⟩)
  | beside beside =>
      exact h.keep h.engine ⟨rfl, rfl⟩ rfl rfl (fun _ shows => beside.shows shows)
  | @lose taken patch delta sending =>
      exact h.refuse sending rfl
  | @answer taken patch delta arrived sending known received =>
      have store := Server.store_of_receive received
      rcases arrived.respond_cases sub.endpoint patch with
        ⟨refused, same⟩ | ⟨k, routed, applied, granted⟩
      · rw [refused]
        exact h.refuse sending (same.trans store)
      · rw [granted]
        rw [sub.routed] at routed
        obtain rfl := Option.some.inj routed
        rw [store] at applied
        exact h.grant sending known applied

/-- A link that begins with a record that is opened from the store of its server. -/
theorem holds_start {server : Server} {r : Record τ}
    (built : Store.Built sub.bytes sub.digest server.store)
    (opened : server.store.Opens sub.kind sub.id sub.type r) :
    (⟨.start r, server, []⟩ : Link τ).Holds sub := by
  have made := opened.made
  obtain ⟨forest, shows⟩ := built.shows sub.named
  obtain ⟨id, carries⟩ := shows.opens opened
  exact ⟨.start made.sound made.clean, made.type_eq, id, forest, shows,
    fun _ => iff_of_true carries toldAll_nil⟩

theorem Reachable.holds {x : Link τ} (h : Reachable sub x) : x.Holds sub := by
  induction h with
  | loaded built loaded decoded => exact holds_start built (.loaded loaded decoded)
  | made built gone => exact holds_start built (.fresh gone)
  | step _ hs ih => exact ih.step hs

/-- A synchronized record is what the server holds of its root iff the last accepted patch
told all, if those before it did. -/
theorem Reachable.converges_iff {x : Link τ} (h : Reachable sub x)
    (synchronized : x.engine.controller.isSynchronized = true)
    (root : (x.server.store.live? 0 sub.kind sub.id).isSome = true)
    (told : ToldAll x.accepted.dropLast) :
    (∃ content r, x.server.store.load sub.kind sub.id = .ok content ∧
      Record.ofMessage sub.type content = .ok r ∧
      r.localMessage = x.engine.controller.record.localMessage) ↔ ToldAll x.accepted := by
  have holds := h.holds
  obtain ⟨forest, shows, served⟩ := holds.served
  have sound := holds.engine.steady.sound
  simp only [Controller.isSynchronized, Bool.and_eq_true, Bool.not_eq_true', beq_iff_eq]
    at synchronized
  obtain ⟨⟨idle, -⟩, clean⟩ := synchronized
  have baseline : x.engine.baseline = x.engine.controller.record.localMessage := by
    rw [Engine.baseline_eq_remote (by rw [holds.engine.loops_of_idle idle]; nofun),
      sound.localMessage_of_clean clean]
  obtain ⟨row, live⟩ := Option.isSome_iff_exists.mp root
  obtain ⟨n, found, -⟩ := (Store.shows_iff.mp shows.shows sub.kind sub.id).eq_some live
  have proper := shows.branches.child? found
  have loaded : x.server.store.load sub.kind sub.id = .ok n.message := by
    rw [shows.load, Node.load, found]
  rw [← served told, found, baseline]
  constructor
  · rintro ⟨content, r, load, decoded, same⟩
    rw [loaded] at load
    obtain rfl := Except.ok.inj load
    rw [← same]
    exact Node.carries_of_decoded n sub.type r proper decoded
  · intro carries
    have carries : n.Carries x.engine.controller.record.type
        x.engine.controller.record.localMessage := holds.type_eq ▸ carries
    obtain ⟨r, decoded, same⟩ :=
      carries.decodes sound proper ((Node.id_of_child? found).trans holds.id_eq.symm)
    exact ⟨_, r, loaded, holds.type_eq ▸ decoded, same⟩

section Overtaken

theorem Step.granted (x : Link τ) {taken : Record τ} {patch : Message} {delta : Delta}
    {store : Store} (sending : x.engine.loops = [.sending taken patch delta])
    (known : patch.BytesIn sub.bytes)
    (up : x.server.failAll = false ∧ x.server.failNext = 0)
    (packed : Message.decode patch.encode = .ok patch)
    (applied : x.server.store.apply sub.kind patch = .ok store) :
    Step sub x (x.answer { x.server with
      store := store, requests := x.server.requests ++ [(sub.endpoint, patch)] } taken delta
      true) := by
  obtain ⟨engine, ⟨before, failNext, failAll, holding, requests⟩, accepted⟩ := x
  obtain ⟨rfl, rfl⟩ := up
  have received :
      Server.receive ⟨before, 0, false, holding, requests⟩ sub.endpoint patch =
      .ok (patch, ⟨before, 0, false, holding, requests ++ [(sub.endpoint, patch)]⟩) := by
    rw [Server.receive, packed]
  have granted :
      Server.respond ⟨before, 0, false, holding, requests ++ [(sub.endpoint, patch)]⟩
      sub.endpoint patch =
        (.ok (), ⟨store, 0, false, holding, requests ++ [(sub.endpoint, patch)]⟩) := by
    simp only [Server.respond, sub.routed, applied]
    rfl
  have step := Step.answer _ sending known received
  rw [granted] at step
  exact step

/-- A task with one file, by the presence of the file. -/
def taskWithFile (deleted : Tracked Bool) (sent : Bool) : Record Entity :=
  let file : Record Entity := { Record.blank .attachment 7 with
    fields := .clean ⟨"filename", .text⟩ (.text "a") ::
      (Record.blank Entity.attachment 7).fields.tail }
  { Record.blank .task 1 with
    dirty := deleted.isDirty.toNat
    sets := [⟨⟨"attachments", .unordered, .attachment⟩, [⟨file, .clean 0, deleted, sent⟩],
      deleted.isDirty.toNat, 1⟩] }

/-- The message that gives some fields to the file of the task, or takes the file away. -/
def fileMessage (fields : List (String × Value)) (deleted : Bool) : Message :=
  ⟨1, [], [⟨"attachments", [⟨7, fields, [], none, none, some deleted⟩]⟩], none, none, none⟩

/-- The store that holds the task, by what the row of the file holds. -/
def taskStore (fields : List (String × Content)) (deleted : Bool) : Store :=
  ⟨Blake3.digest, [⟨1, 0, "task", 1, none, false, []⟩,
    ⟨2, 1, "attachments", 7, none, deleted, fields⟩], [], 1⟩

/-- The task on a server that keeps no bytes. -/
def taskSubject : Subject Entity where
  type := .task
  id := 1
  endpoint := taskEndpoint
  kind := "task"
  digest := Blake3.digest
  bytes := ∅
  routed := rfl
  named := nofun

theorem bytesIn_fileMessage {fields : List (String × Value)} (deleted : Bool)
    (plain : ∀ f ∈ fields, ∀ b, f.2 ≠ .bytes b) :
    (fileMessage fields deleted).BytesIn ∅ := by
  refine .intro nofun ?_
  intro g hg c hc
  obtain rfl := List.mem_singleton.mp hg
  obtain rfl := List.mem_singleton.mp hc
  refine .intro ?_ nofun
  intro f hf b bytes
  exact absurd bytes (plain f hf b)

/-- The file is removed, and the request to do so is under way. -/
theorem reachable_removal :
    Reachable taskSubject
      ⟨⟨⟨taskWithFile ⟨false, true⟩ true, true, false, false, 0, 0, 1, .saving, .clear⟩,
        [.sending (taskWithFile ⟨false, true⟩ false) (fileMessage [] true)
          (taskWithFile ⟨false, true⟩ false).delta]⟩,
        ⟨taskStore [("filename", .inline (.text "a"))] false, 0, false, false, []⟩,
        []⟩ := by
  have known : (fileMessage [("filename", .text "a")] false).BytesIn ∅ :=
    bytesIn_fileMessage false (by simp)
  have built : Store.Built ∅ Blake3.digest
      (taskStore [("filename", .inline (.text "a"))] false) :=
    @Store.Built.apply _ _ (.empty Blake3.digest) _ "task" _ .empty known rfl
  have opened : Reachable taskSubject
      ⟨.start (taskWithFile (.clean false) false), ⟨_, 0, false, false, []⟩, []⟩ :=
    .loaded built rfl rfl
  have resumed := opened.step (.move _ (.resume _))
  have removed := resumed.step (.move _ (.update _ [.within "attachments" (.remove 7)]))
  exact removed.step (.move _ (@Engine.Move.begin _ _ _ [] [] rfl))

/-- The removal is granted. -/
theorem converges_after_removal :
    ∃ x : Link Entity, Reachable taskSubject x ∧
      x.engine.controller.isSynchronized = true ∧
      (x.server.store.live? 0 "task" 1).isSome = true ∧ ToldAll x.accepted.dropLast ∧
      ∃ content r, x.server.store.load "task" 1 = .ok content ∧
        Record.ofMessage Entity.task content = .ok r ∧
        r.localMessage = x.engine.controller.record.localMessage := by
  have granted := reachable_removal.step (@Step.granted _ _ taskSubject _ _ _ _
    (taskStore [("filename", .inline (.text "a"))] true) rfl (bytesIn_fileMessage true nofun)
    ⟨rfl, rfl⟩ rfl rfl)
  have ended := granted.step (.move _ (@Engine.Move.finish _ _ _ [] [] _ _ _ rfl))
  have told : ToldAll [taskWithFile ⟨false, true⟩ false] := by
    intro r hr
    obtain rfl := List.mem_singleton.mp hr
    rfl
  exact ⟨_, ended, rfl, rfl, nofun, (ended.converges_iff rfl rfl nofun).mpr told⟩

/-- The file is added again while the request to remove it is under way, and the request
is granted.  The server then makes the file anew, but is not told its name. -/
theorem diverges_after_overtaken_removal :
    ∃ x : Link Entity, Reachable taskSubject x ∧
      x.engine.controller.isSynchronized = true ∧
      (x.server.store.live? 0 "task" 1).isSome = true ∧
      ¬ ∃ content r, x.server.store.load "task" 1 = .ok content ∧
        Record.ofMessage Entity.task content = .ok r ∧
        r.localMessage = x.engine.controller.record.localMessage := by
  have again := reachable_removal.step
    (.move _ (.update _ [.within "attachments" (.add (.blank 7) [])]))
  have granted := again.step (@Step.granted _ _ taskSubject _ _ _ _
    (taskStore [("filename", .inline (.text "a"))] true) rfl (bytesIn_fileMessage true nofun)
    ⟨rfl, rfl⟩ rfl rfl)
  have ended := granted.step (.move _ (@Engine.Move.finish _ _ _ [] [] _ _ _ rfl))
  -- The file is back with the baseline of its name, although the server dropped it.
  have removed : Reachable taskSubject
      ⟨⟨⟨taskWithFile ⟨true, false⟩ true, true, true, false, 0, 0, 1, .saved, .clear⟩,
        [.starting]⟩,
        ⟨taskStore [("filename", .inline (.text "a"))] true, 0, false, false,
          [(taskEndpoint, fileMessage [] true)]⟩, [taskWithFile ⟨false, true⟩ false]⟩ :=
            ended
  have began := removed.step (.move _ (@Engine.Move.begin _ _ _ [] [] rfl))
  have revived := began.step (@Step.granted _ _ taskSubject _ _ (fileMessage [] false) _
    (taskStore [] false) rfl (bytesIn_fileMessage false nofun) ⟨rfl, rfl⟩ rfl rfl)
  have ended := revived.step (.move _ (@Engine.Move.finish _ _ _ [] [] _ _ _ rfl))
  refine ⟨_, ended, rfl, rfl, ?_⟩
  rintro ⟨content, r, loaded, decoded, same⟩
  have load : (taskStore [] false).load "task" 1 =
      .ok ⟨1, [], [⟨"attachments", [.blank 7]⟩], none, none, none⟩ := rfl
  obtain rfl := Except.ok.inj (load.symm.trans loaded)
  obtain rfl := Except.ok.inj decoded
  exact absurd same (by decide +kernel)

end Overtaken

end Link

end RecordSync
