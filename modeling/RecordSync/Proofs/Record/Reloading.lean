import RecordSync.Entity
import RecordSync.Proofs.Record.Seating
import RecordSync.Proofs.Record.Seen

/-!
# Records decoded from what the user sees

What the user sees of a record is a message.  A record can be decoded from it iff in every
ordered set that the user sees, at every depth, the elements stand on distinct positions.

**Results.**
* `Record.Sound.decodes_iff`: when a record is decoded from what the user sees.
* `ElementSet.distinct_unless_restored`: how the positions of a set come to be shared, and
  what that means for the records that hold the set.
-/

namespace RecordSync

variable {τ : Type}

/-- One record is the other, or is nested in it among what the user sees. -/
inductive Record.Visible : Record τ → Record τ → Prop
  | self (r : Record τ) : Visible r r
  | nested {x r : Record τ} {s : ElementSet τ} {e : Element τ} :
      s ∈ r.sets → e ∈ s.presentElements → Visible x e.record → Visible x r

section Seen

variable {s : ElementSet τ}

/-- The user sees the present elements of a set. -/
theorem ElementSet.seen_user (s : ElementSet τ) :
    s.seen .user = s.presentElements.map (fun e =>
      (seenPosition s.decl.kind e.position, e.record.localMessage)) := by
  rw [ElementSet.seen, ElementSet.presentElements, ← List.filterMap_eq_map,
    List.filterMap_filter]
  rfl

/-- The messages of the present elements tell their positions. -/
theorem ElementSet.positions_placedMessages (ordered : s.decl.kind = .ordered) :
    ((placedMessages s.decl.kind (s.seen .user)).filterMap Message.position).Perm
      s.positions := by
  rw [placedMessages_eq, List.filterMap_map]
  refine ((SortedList.sortOn_perm _).filterMap _).trans ?_
  rw [seen_user, List.filterMap_map, ordered]
  have told : (Message.position ∘ placed .ordered) ∘ (fun e : Element τ =>
      (seenPosition .ordered e.position, e.record.localMessage)) =
        some ∘ (·.position.current) := rfl
  rw [told, List.filterMap_eq_map, ElementSet.positions]

theorem ElementSet.mem_placedMessages_seen {m : Message} :
    m ∈ placedMessages s.decl.kind (s.seen .user) ↔ ∃ e ∈ s.presentElements,
      placed s.decl.kind (seenPosition s.decl.kind e.position, e.record.localMessage) =
        m := by
  rw [mem_placedMessages, s.seen_user]
  simp only [List.mem_map, exists_exists_and_eq_and]

theorem placed_deleted (kind : SetKind) (x : Int × Message) :
    (placed kind x).deleted = x.2.deleted := by
  cases kind <;> rfl

theorem ElementSet.Tidy.nodup_seen_ids (h : s.Tidy) :
    ((placedMessages s.decl.kind (s.seen .user)).map Message.id).Nodup := by
  have ids : Message.id ∘ placed s.decl.kind = fun x => x.2.id := by
    funext x
    exact placed_id _ x
  rw [placedMessages_eq, List.map_map, ids, ((SortedList.sortOn_perm _).map _).nodup_iff]
  exact (h.sorted_seen .user).nodup_keys

variable [Catalog τ]

theorem ofMessage_placed (type : τ) (kind : SetKind) (x : Int × Message) :
    Record.ofMessage type (placed kind x) = Record.ofMessage type x.2 := by
  cases kind with
  | ordered => exact Record.ofMessage_congr rfl rfl rfl
  | unordered => rfl

/-- When the set that the user sees can be loaded. -/
theorem ElementSet.Tidy.load_seen_iff (h : s.Tidy) {clashed : Bool}
    (seated : s.decl.kind = .ordered → s.Seated clashed) :
    (∃ s', ElementSet.load (.blank s.decl) (placedMessages s.decl.kind (s.seen .user)) =
      .ok s') ↔
      (∀ e ∈ s.presentElements, ∃ r,
        Record.ofMessage e.record.type e.record.localMessage = .ok r) ∧
        (s.decl.kind = .ordered → s.positions.Nodup) := by
  rw [ElementSet.load_succeeds_iff ?live h.nodup_seen_ids ?placed]
  case live =>
    intro m hm
    obtain ⟨e, -, rfl⟩ := mem_placedMessages_seen.mp hm
    rw [placed_deleted, Record.localMessage_eq]
    exact nofun
  case placed =>
    intro ordered m hm
    obtain ⟨e, he, rfl⟩ := mem_placedMessages_seen.mp hm
    obtain ⟨he, present⟩ := List.mem_filter.mp he
    refine ⟨e.position.current, by rw [ordered]; rfl, ?_⟩
    have above := (seated ordered).above _ ⟨e, he, .inl rfl⟩
    have absent : absentPosition = -1 := rfl
    simp only [ordered, Element.isPresent, decide_eq_true_eq] at present
    omega
  refine and_congr ⟨?_, ?_⟩ (imp_congr_right (fun ordered => ?_))
  · intro decoded e he
    obtain ⟨r, decoded⟩ := decoded _ (mem_placedMessages_seen.mpr ⟨e, he, rfl⟩)
    rw [ofMessage_placed, ← h.typed e (List.mem_filter.mp he).1] at decoded
    exact ⟨r, decoded⟩
  · intro decoded m hm
    obtain ⟨e, he, rfl⟩ := mem_placedMessages_seen.mp hm
    obtain ⟨r, decoded⟩ := decoded e he
    rw [h.typed e (List.mem_filter.mp he).1] at decoded
    exact ⟨r, (ofMessage_placed _ _ _).trans decoded⟩
  · exact (positions_placedMessages ordered).nodup_iff

end Seen

section Decode

variable [Catalog τ] {r : Record τ} {clashed : Bool}

/-- The fields that the user sees can be decoded. -/
theorem Record.Tidy.decodes_fields (h : r.Tidy) :
    ∀ decl ∈ Catalog.fields r.type, ∃ f, Field.ofFields r.localMessage.fields decl =
      .ok f := by
  intro decl hdecl
  obtain ⟨f, hf, rfl⟩ := List.mem_map.mp (h.fields_decl ▸ hdecl)
  have value := h.field?_seen .user hf
  rw [← Record.localMessage_eq_seen, Message.field?] at value
  refine ⟨.clean f.decl f.value.current, Field.ofFields_eq_ok.mpr ⟨f.value.current, ?_, rfl⟩⟩
  show f.decl.kind.read f.name ((SortedList.find? Prod.fst f.name _).map Prod.snd) = _
  rw [value]
  exact FieldKind.read_of_holds f.name (h.typed f hf).1

/-- A record is decoded from what the user sees iff each set can be loaded from it. -/
theorem Record.Tidy.decodes_iff (h : r.Tidy) :
    (∃ r', Record.ofMessage r.type r.localMessage = .ok r') ↔
      ∀ s ∈ r.sets, ∃ s', ElementSet.load (.blank s.decl)
        (placedMessages s.decl.kind (s.seen .user)) = .ok s' := by
  have members : ∀ s ∈ r.sets, r.localMessage.childrenOf s.decl.name =
      placedMessages s.decl.kind (s.seen .user) := by
    intro s hs
    have found : r.set? s.decl.name = some s := h.set?_of_mem hs
    rw [Record.localMessage_eq_seen, h.childrenOf_seen, found]
    rfl
  rw [Record.ofMessage_succeeds_iff, and_iff_right h.decodes_fields]
  constructor
  · intro loads s hs
    rw [← members s hs]
    exact loads s.decl (h.set_decl_mem hs)
  · intro loads decl hdecl
    obtain ⟨s, hs, rfl⟩ := List.mem_map.mp (h.sets_decl ▸ hdecl)
    rw [members s hs]
    exact loads s hs

/-- In every ordered set that the user sees of a record, at every depth, the elements
stand on distinct positions. -/
def Record.Distinct (r : Record τ) : Prop :=
  ∀ x : Record τ, x.Visible r → ∀ s ∈ x.sets, s.decl.kind = .ordered → s.positions.Nodup

omit [Catalog τ] in
theorem Record.distinct_iff :
    r.Distinct ↔ ∀ s ∈ r.sets,
      (∀ e ∈ s.presentElements, e.record.Distinct) ∧
        (s.decl.kind = .ordered → s.positions.Nodup) := by
  constructor
  · intro h s hs
    exact ⟨fun e he x visible => h x (.nested hs he visible), h r (.self r) s hs⟩
  · intro h x visible
    cases visible with
    | self => exact fun s hs => (h s hs).2
    | nested hs he visible => exact (h _ hs).1 _ he x visible

/-- A record is decoded from what the user sees iff the elements of every ordered set in
it stand on distinct positions. -/
theorem Record.Sound.decodes_iff (h : r.Sound) (seated : r.Seated clashed) :
    (∃ r', Record.ofMessage r.type r.localMessage = .ok r') ↔ r.Distinct := by
  induction h with
  | @intro r tidy inner ih =>
      rw [tidy.decodes_iff, Record.distinct_iff]
      refine forall₂_congr (fun s hs => ?_)
      rw [(tidy.sets_tidy s hs).load_seen_iff (seated.set hs).own]
      refine and_congr_left' (forall₂_congr (fun e he => ?_))
      have he := (List.mem_filter.mp he).1
      exact ih s hs e he ((seated.set hs).nested e he)

/-- In a record that was edited without a clash the elements of every ordered set stand on
distinct positions. -/
theorem Record.Sound.distinct (h : r.Sound) (seated : r.Seated false) : r.Distinct := by
  induction h with
  | @intro r tidy inner ih =>
      refine Record.distinct_iff.mpr (fun s hs => ⟨?_, ?_⟩)
      · intro e he
        have he := (List.mem_filter.mp he).1
        exact ih s hs e he ((seated.set hs).nested e he)
      · intro ordered
        have own := (seated.set hs).own ordered
        exact (ElementSet.nodup_positions_iff ordered own.sorted).mpr (own.apart rfl)

end Decode

section Shared

variable [Catalog τ]

/-- The positions of an ordered set that can be reached are in range; they stay distinct
as long as no element comes back to a baseline position on which the user sees another
one, and no longer.  A record that can be reached is decoded from what the user sees iff
the positions in its sets are distinct, and so whenever no element came back to a position
that was taken. -/
theorem ElementSet.distinct_unless_restored {decl : SetDecl τ}
    (ordered : decl.kind = .ordered) (type : τ) :
    (∀ s attempts clashed, ElementSet.History decl s attempts clashed →
      (∀ p ∈ s.positions, 0 ≤ p ∧ p < s.nextPosition) ∧
      (∀ edit, s.clashes edit = true ↔
        ∃ old, s.Restores edit old ∧ old.position.remote ∈ s.positions) ∧
      (clashed = false → s.positions.Nodup ∧
        ∀ edit, (s.edit edit).1.positions.Nodup ↔ s.clashes edit = false)) ∧
    (∀ r attempts clashed, Record.History type r attempts clashed →
      ((∃ r', Record.ofMessage type r.localMessage = .ok r') ↔ r.Distinct) ∧
      (clashed = false → ∃ r', Record.ofMessage type r.localMessage = .ok r')) := by
  constructor
  · intro s attempts clashed h
    refine ⟨h.in_range ordered, h.clashes_iff ordered, ?_⟩
    rintro rfl
    obtain ⟨rfl, seated, -⟩ := h.holds ordered
    exact ⟨h.distinct ordered, seated.edit_distinct_iff ordered⟩
  · intro r attempts clashed h
    obtain ⟨sound, rfl, -⟩ := h.reachable.sound
    have seated := h.seated.1
    have decodes := sound.decodes_iff seated
    refine ⟨decodes, ?_⟩
    rintro rfl
    exact decodes.mpr (sound.distinct seated)

/-- Two tasks, on the first two positions. -/
def twoTasks : Message :=
  ⟨1, [], [⟨"tasks", [(Message.blank 1).withPosition 0, (Message.blank 2).withPosition 1]⟩],
    none, none, none⟩

/-- The ordered set of the tasks of a variant. -/
def taskList : SetDecl Entity := ⟨"tasks", .ordered, .taskEntry⟩

/-- The tasks are exchanged: positions stay distinct, and a record can be decoded. -/
theorem ElementSet.distinct_of_exchanged_tasks :
    ∃ (s : ElementSet Entity) (r : Record Entity),
      History taskList s [s.delta] false ∧ s.positions = [1, 0] ∧ s.positions.Nodup ∧
      Record.History .kim r [] false ∧
      ∃ r', Record.ofMessage Entity.kim r.localMessage = .ok r' := by
  have loaded := @History.decoded _ _ taskList (twoTasks.childrenOf "tasks") _ rfl
  have exchanged := (loaded.edit (.swap 1 2)).take
  have decoded := @Record.History.decoded _ _ Entity.kim twoTasks _ rfl
  have edited := decoded.edit (.within "tasks" (.swap 1 2))
  have holds := @distinct_unless_restored _ _ taskList rfl Entity.kim
  exact ⟨_, _, exchanged, rfl, ((holds.1 _ _ _ exchanged).2.2 rfl).1, edited,
    (holds.2 _ _ _ edited).2 rfl⟩

/-- The first task hands its position to the second, is removed and comes back to it: both
stand on it, and no record can be decoded from what the user sees. -/
theorem Record.shared_position_of_restored_task :
    ∃ r, Record.ofMessage Entity.kim twoTasks = .ok r ∧
      let after := (r.editAll [.within "tasks" (.swap 1 2), .within "tasks" (.remove 1),
        .within "tasks" (.add (.blank 1) [])]).1
      (∃ s, after.set? "tasks" = some s ∧ s.decl.kind = .ordered ∧ ¬ s.positions.Nodup) ∧
        ¬ ∃ r', Record.ofMessage Entity.kim after.localMessage = .ok r' := by
  refine ⟨_, rfl, ⟨_, rfl, rfl, ?_⟩, ?_⟩
  · show ¬ [(0 : Int), 0].Nodup
    decide
  · rintro ⟨r', decoded⟩
    have refused : Except.error (RecordError.sharedPosition 0) = Except.ok r' := decoded
    cases refused

end Shared

end RecordSync
