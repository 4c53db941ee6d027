import RecordSync.Proofs.Store.Reading

/-!
# Histories of patches

A history is a list of patches, each for a root of a family.  A store answers it patch by
patch, and a patch that is refused leaves the store as it is.  The table and the plain
store start empty and are given the same history.

What is compared is all that a client sees of a store: the answer to every patch, with the
reason if it was refused, and what is loaded for every family and id.  A tombstone is not
among it, nor are the fields and the live rows that it left behind.

**Results.**
* `Store.ShowsForest.answers`: both stores give the same answers and go on showing the
  same.
* `Store.answers_like_forest`: the table cannot be told from the plain store by any
  history.
-/

namespace RecordSync

section Answers

variable {σ : Type}

/-- The answer to one patch, and the store to go on with. -/
def settlePatch (store : σ) : Except StoreError σ → Except StoreError Unit × σ
  | .ok store' => (.ok (), store')
  | .error reason => (.error reason, store)

/-- The answers to the patches of a history, and the store after it. -/
def answerAll (apply : σ → String → Message → Except StoreError σ) (store : σ) :
    List (String × Message) → List (Except StoreError Unit) × σ
  | [] => ([], store)
  | (kind, patch) :: rest =>
    let first := settlePatch store (apply store kind patch)
    let later := answerAll apply first.2 rest
    (first.1 :: later.1, later.2)

/-- The patches of a history that are not refused. -/
def granted (apply : σ → String → Message → Except StoreError σ) (store : σ) :
    List (String × Message) → List (String × Message)
  | [] => []
  | (kind, patch) :: rest =>
    match apply store kind patch with
    | .ok store' => (kind, patch) :: granted apply store' rest
    | .error _ => granted apply store rest

/-- The patches that were refused can be left out of a history. -/
theorem answerAll_granted (apply : σ → String → Message → Except StoreError σ) (store : σ)
    (history : List (String × Message)) :
    (answerAll apply store (granted apply store history)).2 =
      (answerAll apply store history).2 := by
  induction history generalizing store with
  | nil => rfl
  | cons x history ih =>
      obtain ⟨kind, patch⟩ := x
      rw [granted, answerAll]
      cases applied : apply store kind patch with
      | ok store' =>
          dsimp only
          rw [answerAll, applied]
          exact ih store'
      | error reason => exact ih store

end Answers

/-- What the table answers to a history. -/
def Store.answers (history : List (String × Message)) (s : Store) :
    List (Except StoreError Unit) × Store :=
  answerAll Store.apply s history

/-- What the plain store answers to a history. -/
def Node.answers (history : List (String × Message)) (forest : Node) :
    List (Except StoreError Unit) × Node :=
  answerAll Node.apply forest history

/-- The plain store fails to load a root only if it has none. -/
theorem Node.load_eq_error {forest : Node} {kind : String} {id : Int}
    {reason : StoreError} : forest.load kind id = .error reason ↔
      reason = .missingRoot kind id ∧ forest.child? kind id = none := by
  rw [load]
  cases found : forest.child? kind id with
  | none => simp [eq_comm]
  | some node => simp

namespace Store

variable {U : Set Bytes} {digest : Bytes → Bytes} {s : Store} {forest : Node}

/-- Results that agree are one answer, and the stores to go on with agree. -/
theorem ShowsForest.settle (h : s.ShowsForest U forest) {x : Except StoreError Store}
    {y : Except StoreError Node}
    (agree : Agree (fun s' forest' => s'.ShowsForest U forest') x y) :
    (settlePatch s x).1 = (settlePatch forest y).1 ∧
      (settlePatch s x).2.ShowsForest U (settlePatch forest y).2 := by
  cases x with
  | error reason =>
      cases y with
      | error reason' => exact ⟨congrArg Except.error agree, h⟩
      | ok forest' => cases agree
  | ok s' =>
      cases y with
      | error reason' => cases agree
      | ok forest' => exact ⟨rfl, agree⟩

/-- A table that shows a forest answers a history like the forest, and shows it
afterwards. -/
theorem ShowsForest.answers (h : s.ShowsForest U forest)
    {history : List (String × Message)} (known : ∀ x ∈ history, x.2.BytesIn U) :
    (s.answers history).1 = (forest.answers history).1 ∧
      (s.answers history).2.ShowsForest U (forest.answers history).2 := by
  induction history generalizing s forest with
  | nil => exact ⟨rfl, h⟩
  | cons x history ih =>
      obtain ⟨kind, patch⟩ := x
      have agree := h.apply kind (known _ List.mem_cons_self)
      obtain ⟨answer, shows⟩ := h.settle agree
      obtain ⟨answers, shows⟩ :=
        ih shows (fun y hy => known y (List.mem_cons_of_mem _ hy))
      exact ⟨congrArg₂ List.cons answer answers, shows⟩

/-- Whatever patches a new table is given, it cannot be told from the plain store: it
answers each patch alike, refused patches leave no trace, and it loads the same records,
and fails to load only a root that is not there. -/
theorem answers_like_forest (named : Set.InjOn digest U)
    {history : List (String × Message)} (known : ∀ x ∈ history, x.2.BytesIn U) :
    ((empty digest).answers history).1 = ((Node.blank 0).answers history).1 ∧
      ((empty digest).answers (granted Store.apply (empty digest) history)).2 =
        ((empty digest).answers history).2 ∧
      ∀ kind id,
        ((empty digest).answers history).2.load kind id =
            ((Node.blank 0).answers history).2.load kind id ∧
          ∀ reason, ((empty digest).answers history).2.load kind id = .error reason ↔
            reason = .missingRoot kind id ∧
              ((Node.blank 0).answers history).2.child? kind id = none := by
  obtain ⟨answers, shows⟩ := (showsForest_empty named).answers known
  refine ⟨answers, answerAll_granted _ _ _, ?_⟩
  intro kind id
  have load := shows.load kind id
  refine ⟨load, fun reason => ?_⟩
  rw [load]
  exact Node.load_eq_error

/-- A message about one part of the task 1. -/
def partMessage (fields : List (String × Value)) (children : List Group)
    (deleted : Option Bool) : Message :=
  ⟨1, [], [⟨"parts", [⟨7, fields, children, none, none, deleted⟩]⟩], none, none, none⟩

theorem bytesIn_partMessage {fields : List (String × Value)} {children : List Group}
    {deleted : Option Bool} (strings : ∀ f ∈ fields, ∀ b, f.2 = .bytes b → b ∈ U)
    (inner : ∀ g ∈ children, ∀ c ∈ g.members, c.BytesIn U) :
    (partMessage fields children deleted).BytesIn U := by
  refine .intro (fun _ hx => absurd hx List.not_mem_nil) ?_
  intro g hg c hc
  obtain rfl := List.mem_singleton.mp hg
  obtain rfl := List.mem_singleton.mp hc
  exact .intro strings inner

/-- A part with a name and a piece of its own is made and removed, a change of it is
refused, and it is made again with a scan. -/
def partHistory : List (String × Message) :=
  [("task", partMessage [("name", .text "a")]
    [⟨"pieces", [⟨8, [], [], none, none, some false⟩]⟩]
      (some false)),
    ("task", partMessage [] [] (some true)),
    ("task", partMessage [("name", .text "b")] [] none),
    ("task", partMessage [("scan", .bytes [104, 105])] [] (some false))]

theorem bytesIn_partHistory : ∀ x ∈ partHistory, x.2.BytesIn {[104, 105]} := by
  have piece : (⟨8, [], [], none, none, some false⟩ : Message).BytesIn {[104, 105]} :=
    .intro (by simp) (by simp)
  have scan : ∀ f ∈ [("scan", Value.bytes [104, 105])], ∀ b, f.2 = .bytes b →
      b ∈ ({[104, 105]} : Set Bytes) := by
    intro f hf b hb
    obtain rfl := List.mem_singleton.mp hf
    exact (Value.bytes.inj hb).symm
  simp only [partHistory, List.forall_mem_cons]
  refine ⟨?_, ?_, ?_, ?_, fun _ hx => absurd hx List.not_mem_nil⟩
  · exact bytesIn_partMessage (by simp) (by simpa using piece)
  · exact bytesIn_partMessage (by simp) (by simp)
  · exact bytesIn_partMessage (by simp) (by simp)
  · exact bytesIn_partMessage scan (by simp)

/-- The name and the piece are gone with the removal. -/
theorem answers_like_forest_after_removal :
    Set.InjOn Blake3.digest {[104, 105]} ∧ (∀ x ∈ partHistory, x.2.BytesIn {[104, 105]}) ∧
      ((empty Blake3.digest).answers partHistory).1 =
        [.ok (), .ok (), .error (.missingElement "parts" 7), .ok ()] ∧
      ((empty Blake3.digest).answers partHistory).2.load "task" 1 =
        .ok (partMessage [("scan", .bytes [104, 105])] [] none) := by
  have named : Set.InjOn Blake3.digest {[104, 105]} := fun _ hb _ hc _ => hb.trans hc.symm
  obtain ⟨answers, -, loads⟩ := answers_like_forest named bytesIn_partHistory
  exact ⟨named, bytesIn_partHistory, answers.trans rfl, (loads "task" 1).1.trans rfl⟩

end Store

end RecordSync
