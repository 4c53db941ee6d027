import RecordSync.Blake3
import RecordSync.Entity
import RecordSync.Proofs.Convergence.Grounding
import RecordSync.Proofs.Record.Reloading

/-!
# A patch brings the store to what the user sees

A record is opened from a store, edited, and its patch is applied to the store.  The patch
is accepted if no two elements of an ordered set that the user sees stand on one position:
the store applies the messages of a set in the order of the ids and looks for shared
positions only at the end of the set, so elements may pass through each other on the way.

**Results.**
* `Node.place_patch_succeeds`: the patch of an element can be brought to its place.
* `ElementSet.Patched.spread_ordered`: the store has no two elements of a set on one
  position after the messages of the set.
* `Record.Sound.accepted`: the patch of a record is accepted.
* `Store.saves_local_view`: what is loaded after the patch is what the user sees.
-/

namespace RecordSync

variable {τ : Type}

section Place

variable {kind : SetKind} {e : Element τ} {set : String} {id : Int} {old : Option Node}

/-- A message that names no new position leaves a node where it is. -/
theorem Node.place_unmoved {mayCreate : Bool} {position : Option Int}
    {deleted : Option Bool} {node : Node}
    (h : Node.place set mayCreate id old position none deleted = .ok (some node)) :
    node = old.getD (.blank id) := by
  rcases Node.place_cases h with ⟨gone, -⟩ | ⟨target, -, swap, -⟩ | ⟨stays, -⟩
  · cases gone
  · cases swap
  · exact Option.some.inj stays

/-- The patch of an element whose presence did not change finds the node of the
element. -/
theorem Node.place_stays (dirty : e.isDirty kind = true)
    (clean : e.isPresenceDirty = false) (there : old.isSome = e.isRemotePresent kind)
    (position : Option Int) :
    ∃ new, Node.place set false e.id old position none none = .ok new := by
  rw [Node.place.eq_def]
  cases old with
  | some node => exact ⟨_, rfl⟩
  | none =>
      have present := Element.isPresent_of_clean dirty clean
      rw [Element.isPresent_eq_of_clean clean, ← there] at present
      cases present

theorem Node.place_ordered_succeeds (unmarked : e.deleted = .clean false)
    (dirty : e.isDirty .ordered = true) (there : old.isSome = e.isRemotePresent .ordered)
    (position : ∀ c, old = some c → c.position = some e.position.remote)
    (above : absentPosition ≤ e.position.current) :
    ∃ new, Node.place set false e.id old
      (if e.position.isDirty then some e.position.remote else none) e.position.delta?
      e.deleted.delta? = .ok new := by
  rw [unmarked, show (Tracked.clean false).delta? = none from rfl, Tracked.delta?]
  cases moved : e.position.isDirty with
  | false =>
      have clean : e.isPresenceDirty = false := by
        rw [Element.isPresenceDirty, moved, unmarked]
        rfl
      exact Node.place_stays dirty clean there _
  | true =>
      have found : (old.bind Node.position).getD absentPosition = e.position.remote := by
        cases old with
        | some c =>
            show c.position.getD absentPosition = _
            rw [position c rfl]
            rfl
        | none =>
            have absent : e.isRemotePresent .ordered = false := there.symm
            exact (not_not.mp (of_decide_eq_false absent)).symm
      rw [if_pos rfl, if_pos rfl, Node.place.eq_def]
      dsimp only [Option.getD_some]
      rw [if_neg (not_not.mpr found)]
      split_ifs with away below
      · exact ⟨_, rfl⟩
      · have absent : absentPosition = -1 := rfl
        omega
      · exact ⟨_, rfl⟩

theorem Node.place_unordered_succeeds (unplaced : e.position = .clean 0)
    (dirty : e.isDirty .unordered = true)
    (there : old.isSome = e.isRemotePresent .unordered) :
    ∃ new, Node.place set false e.id old
      (if e.position.isDirty then some e.position.remote else none) e.position.delta?
      e.deleted.delta? = .ok new := by
  rw [unplaced, show (Tracked.clean (0 : Int)).delta? = none from rfl, Tracked.delta?]
  cases marked : e.deleted.isDirty with
  | false =>
      have clean : e.isPresenceDirty = false := by
        rw [Element.isPresenceDirty, marked, unplaced]
        rfl
      exact Node.place_stays dirty clean there _
  | true =>
      rw [if_pos rfl, Node.place.eq_def]
      cases away : e.deleted.current with
      | false => exact ⟨_, rfl⟩
      | true =>
          have remote : e.deleted.remote = false := by
            simpa [Tracked.isDirty, away] using marked
          rw [Element.isRemotePresent, remote] at there
          obtain ⟨c, rfl⟩ := Option.isSome_iff_exists.mp there
          exact ⟨_, rfl⟩

/-- The patch of an element can be brought to its place, if the server has a node for the
element just when the baseline has the element, and has it at the baseline position. -/
theorem Node.place_patch_succeeds (shaped : e.Shaped kind) (dirty : e.isDirty kind = true)
    (there : old.isSome = e.isRemotePresent kind)
    (position : ∀ c, old = some c → kind = .ordered → c.position = some e.position.remote)
    (above : kind = .ordered → absentPosition ≤ e.position.current) :
    ∃ new, Node.place set false e.id old
      (if e.position.isDirty then some e.position.remote else none) e.position.delta?
      e.deleted.delta? = .ok new := by
  cases kind with
  | ordered =>
      exact Node.place_ordered_succeeds shaped dirty there (fun c hc => position c hc rfl)
        (above rfl)
  | unordered => exact Node.place_unordered_succeeds shaped dirty there

end Place

section Spread

/-- An element that an accepted message leaves stands where the message brought it. -/
theorem Node.position_applied {set : String} {old : Option Node} {m : Message} {c : Node}
    (proper : ∀ c, old = some c → c.Proper ∧ c.id = m.id)
    (h : Node.applyRecord set false old m = .ok (some c)) :
    ∃ node, Node.place set false m.id old m.position m.swapPosition m.deleted =
        .ok (some node) ∧
      c.position = node.position := by
  obtain ⟨placed, begun, applied⟩ := Node.applyRecord_eq_ok h
  cases placed with
  | none => cases applied
  | some node =>
      obtain ⟨n', written, same⟩ := applied
      obtain rfl := Option.some.inj same
      have own := (Node.place_proper proper begun).1
      obtain ⟨-, -, position, -⟩ := Node.applyGroups_proper _ (own.writeFields _) written
      exact ⟨node, begun, position⟩

variable [Catalog τ] {decl : SetDecl τ} {e : Element τ} {old : Option Node}
    {held : Bool} {c : Node}

/-- In an ordered set an element that the server has after a patch stands where the user
sees it. -/
theorem Node.position_ordered (ordered : decl.kind = .ordered)
    (shaped : e.Shaped decl.kind) (type : e.record.type = decl.element)
    (serves : Node.ServesAt decl e old held)
    (proper : ∀ c, old = some c → c.Proper ∧ c.id = e.id)
    (h : Node.Answers decl.name old (some c) (e.patch? decl.kind)) :
    e.isPresent decl.kind = true ∧ c.position = some e.position.current := by
  cases dirty : e.isDirty decl.kind with
  | false =>
      rw [show e.patch? decl.kind = none from if_neg (by simp [dirty])] at h
      obtain ⟨-, remote, position, -⟩ := serves.eq_some (Eq.symm h)
      have clean := (Element.isDirty_eq_false.mp dirty).1
      refine ⟨(Element.isPresent_eq_of_clean clean).trans remote, ?_⟩
      rw [position ordered, (Element.isPresenceDirty_eq_false.mp clean).1]
  | true =>
      obtain ⟨m, hm⟩ : ∃ m, e.patch? decl.kind = some m := ⟨_, if_pos dirty⟩
      have hid : m.id = e.id := e.id_of_patch? m hm
      rw [hm] at h
      obtain ⟨node, begun, position⟩ := Node.position_applied (hid ▸ proper) h
      obtain ⟨present, -, stands, -⟩ := (serves.begins shaped hm begun).serves type serves
      exact ⟨present, position.trans (stands ordered)⟩

omit [Catalog τ] in
/-- In an unordered set an element stays where the server had it. -/
theorem Node.position_unordered (unordered : decl.kind = .unordered)
    (shaped : e.Shaped decl.kind) (proper : ∀ c, old = some c → c.Proper ∧ c.id = e.id)
    (h : Node.Answers decl.name old (some c) (e.patch? decl.kind)) :
    c.position = old.bind Node.position := by
  cases hm : e.patch? decl.kind with
  | none =>
      rw [hm] at h
      rw [← show some c = old from h]
      rfl
  | some m =>
      have hid : m.id = e.id := e.id_of_patch? m hm
      rw [hm] at h
      obtain ⟨node, begun, position⟩ := Node.position_applied (hid ▸ proper) h
      have unmoved : m.swapPosition = none := by
        rw [unordered] at shaped
        have unplaced : e.position = .clean 0 := shaped
        obtain ⟨-, rfl⟩ := Element.patch?_eq_some.mp hm
        show e.position.delta? = none
        rw [unplaced]
        rfl
      rw [unmoved] at begun
      rw [position, Node.place_unmoved begun]
      cases old <;> rfl

/-- The children of a set before and after the messages of its elements. -/
structure ElementSet.Patched (s : ElementSet τ) (held : Bool) (n n' : Node) : Prop where
  serves : ∀ id e, s.find? id = some e → Node.ServesAt s.decl e (n.child? s.name id) held
  gone : ∀ id, s.find? id = none → n.child? s.name id = none
  answers : ∀ id, Node.Answers s.name (n.child? s.name id) (n'.child? s.name id)
    ((s.find? id).bind (Element.patch? s.decl.kind))

section Patched

variable {s : ElementSet τ} {n n' : Node}

/-- A child that the messages leave is one of the elements. -/
theorem ElementSet.Patched.source (h : s.Patched held n n')
    (hc : n'.child? s.name c.id = some c) : ∃ e ∈ s.elements, e.id = c.id ∧
      Node.ServesAt s.decl e (n.child? s.name c.id) held ∧
      Node.Answers s.name (n.child? s.name c.id) (some c) (e.patch? s.decl.kind) := by
  have answer := h.answers c.id
  rw [hc] at answer
  cases found : s.find? c.id with
  | none =>
      rw [found] at answer
      have there : some c = n.child? s.name c.id := answer
      rw [h.gone c.id found] at there
      cases there
  | some e =>
      rw [found] at answer
      exact ⟨e, SortedList.mem_of_find? found, SortedList.key_of_find? found,
        h.serves c.id e found, answer⟩

/-- No two children of an ordered set share a position after the messages, if no two
elements that the user sees share one. -/
theorem ElementSet.Patched.spread_ordered (h : s.Patched held n n') (tidy : s.Tidy)
    (proper : n.Proper) (branches : n'.Branches) (ordered : s.decl.kind = .ordered)
    (distinct : s.positions.Nodup) :
    ((n'.members s.name).filterMap Node.position).Nodup := by
  have stands : ∀ c, n'.child? s.name c.id = some c → ∃ e ∈ s.elements, e.id = c.id ∧
      e.position.current ≠ absentPosition ∧ c.position = some e.position.current := by
    intro c hc
    obtain ⟨e, he, hid, serves, answer⟩ := h.source hc
    obtain ⟨present, position⟩ := Node.position_ordered ordered (tidy.shaped e he)
      (tidy.typed e he) serves
      (fun c₀ hc₀ => ⟨proper.branches.child? hc₀, (Node.id_of_child? hc₀).trans hid.symm⟩)
      answer
    refine ⟨e, he, hid, ?_, position⟩
    simpa [ordered, Element.isPresent] using present
  have apart := (nodup_positions_iff ordered tidy.sorted).mp distinct
  rw [branches.spread_iff]
  intro c d p hc hd hp hp'
  obtain ⟨e, he, hid, here, position⟩ := stands c hc
  obtain ⟨e', he', hid', -, position'⟩ := stands d hd
  have same : e.position.current = e'.position.current :=
    Option.some.inj (position.symm.trans (hp.trans (hp'.symm.trans position')))
  exact hid.symm.trans ((apart e he e' he' here same).trans hid')

/-- No two children of an unordered set share a position after the messages, for they stay
where they were. -/
theorem ElementSet.Patched.spread_unordered (h : s.Patched held n n') (tidy : s.Tidy)
    (proper : n.Proper) (branches : n'.Branches) (unordered : s.decl.kind = .unordered) :
    ((n'.members s.name).filterMap Node.position).Nodup := by
  have stays : ∀ c, n'.child? s.name c.id = some c → ∀ p, c.position = some p →
      ∃ c₀, c₀.id = c.id ∧ n.child? s.name c₀.id = some c₀ ∧ c₀.position = some p := by
    intro c hc p hp
    obtain ⟨e, he, hid, -, answer⟩ := h.source hc
    have position := Node.position_unordered unordered (tidy.shaped e he)
      (fun c₀ hc₀ => ⟨proper.branches.child? hc₀, (Node.id_of_child? hc₀).trans hid.symm⟩)
      answer
    obtain ⟨c₀, hc₀, hp₀⟩ := Option.bind_eq_some_iff.mp (position.symm.trans hp)
    have same := Node.id_of_child? hc₀
    exact ⟨c₀, same, same.symm ▸ hc₀, hp₀⟩
  rw [branches.spread_iff]
  intro c d p hc hd hp hp'
  obtain ⟨c₀, cid, hc₀, hp₀⟩ := stays c hc p hp
  obtain ⟨d₀, did, hd₀, hp₀'⟩ := stays d hd p hp'
  have before := (proper.branches.spread_iff s.name).mp (proper.spread s.name)
  exact cid.symm.trans ((before c₀ d₀ p hc₀ hd₀ hp₀ hp₀').trans did)

end Patched

end Spread

section Accepted

variable [Catalog τ] {decl : SetDecl τ} {e : Element τ} {old : Option Node} {held : Bool}

/-- The patch of a record is accepted by a node that serves it. -/
def Record.Accepted (r : Record τ) : Prop :=
  ∀ {held : Bool} {n : Node}, n.Proper → Node.Serves r n held → r.Grounded held →
    ∃ n', Node.applyGroups (n.writeFields r.patch.fields) r.patch.children = .ok n'

/-- The patch of an element is accepted if that of its record is. -/
theorem Node.patch_accepted (shaped : e.Shaped decl.kind)
    (type : e.record.type = decl.element) (serves : Node.ServesAt decl e old held)
    (proper : ∀ c, old = some c → c.Proper ∧ c.id = e.id)
    (grounded : e.Grounded decl.kind held)
    (above : decl.kind = .ordered → absentPosition ≤ e.position.current)
    (inner : e.isPresent decl.kind = true → e.record.Accepted) {m : Message}
    (hm : e.patch? decl.kind = some m) :
    ∃ new, Node.applyRecord decl.name false old m = .ok new := by
  have hid : m.id = e.id := e.id_of_patch? m hm
  have dirty := (Element.patch?_eq_some.mp hm).1
  have there : old.isSome = e.isRemotePresent decl.kind := by
    cases hold : old with
    | some c => exact (serves.eq_some hold).2.1.symm
    | none =>
        cases remote : e.isRemotePresent decl.kind with
        | false => rfl
        | true =>
            have held := grounded.held remote
            rw [serves.eq_none hold remote] at held
            cases held
  obtain ⟨placed, begun⟩ : ∃ placed,
      Node.place decl.name false m.id old m.position m.swapPosition m.deleted =
        .ok placed := by
    rw [hid]
    obtain ⟨-, rfl⟩ := Element.patch?_eq_some.mp hm
    exact Node.place_patch_succeeds shaped dirty there
      (fun c hc => (serves.eq_some hc).2.2.1) above
  refine Node.applyRecord_succeeds begun ?_
  rintro node rfl
  obtain ⟨present, -, -, serves'⟩ := (serves.begins shaped hm begun).serves type serves
  have own := (Node.place_proper (hid ▸ proper) begun).1
  obtain ⟨-, rfl⟩ := Element.patch?_eq_some.mp hm
  rw [if_pos present]
  exact inner present own serves' grounded.record

/-- The patch of a record is accepted, if no two elements that the user sees in an ordered
set stand on one position. -/
theorem Record.Sound.accepted {r : Record τ} (h : r.Sound) {clashed : Bool}
    (seated : r.Seated clashed) (distinct : r.Distinct) : r.Accepted := by
  induction h with
  | @intro r tidy inner ih =>
      intro held n proper serves grounded
      rw [Record.distinct_iff] at distinct
      have written := proper.writeFields r.patch.fields
      have plain := tidy.patch_plain
      have group : ∀ g ∈ r.patch.children, ∃ s ∈ r.sets, g = ⟨s.name, s.patches⟩ := by
        intro g hg
        rw [r.patch_children] at hg
        obtain ⟨s, hs, rfl⟩ := List.mem_map.mp (mem_of_mem_messageGroups hg).1
        exact ⟨s, hs, rfl⟩
      have serves' : ∀ s ∈ r.sets, ∀ id e, s.find? id = some e →
          Node.ServesAt s.decl e (n.child? s.name id) held :=
        fun s hs id e found => serves.at tidy hs found
      refine Node.applyGroups_succeeds written plain.sets plain.elements ?_ ?_
      · intro g hg m hm
        obtain ⟨s, hs, rfl⟩ := group g hg
        have own := tidy.sets_tidy s hs
        rw [s.patches_eq] at hm
        obtain ⟨e, he, hm⟩ := List.mem_filterMap.mp hm
        have hid : m.id = e.id := e.id_of_patch? m hm
        have found := SortedList.find?_of_mem own.sorted.nodup_keys he
        refine Node.patch_accepted (own.shaped e he) (own.typed e he)
          (hid ▸ serves' s hs e.id e found) ?_ (grounded.set hs e he) ?_ ?_ hm
        · intro c hc
          exact ⟨proper.branches.child? hc, (Node.id_of_child? hc).trans hid⟩
        · intro ordered
          exact ((seated.set hs).own ordered).above _ ⟨e, he, .inl rfl⟩
        · intro present
          exact ih s hs e he ((seated.set hs).nested e he)
            ((distinct s hs).1 e (List.mem_filter.mpr ⟨he, present⟩))
      · intro g hg n' branches answers
        obtain ⟨s, hs, rfl⟩ := group g hg
        have own := tidy.sets_tidy s hs
        have patched : s.Patched held n n' := by
          refine ⟨serves' s hs, fun id gone => serves.none tidy hs gone, fun id => ?_⟩
          rw [← own.find?_patches]
          exact answers id
        cases hk : s.decl.kind with
        | ordered =>
            exact patched.spread_ordered own proper branches hk ((distinct s hs).2 hk)
        | unordered => exact patched.spread_unordered own proper branches hk

/-- The patch of a record is accepted at its root, if the server holds the baseline. -/
theorem Record.Sound.root_accepted {r : Record τ} (h : r.Sound) {clashed : Bool}
    (seated : r.Seated clashed) (distinct : r.Distinct) (grounded : r.Grounded true)
    {k : String} (proper : ∀ n, old = some n → n.Proper)
    (carries : (old.getD (.blank r.id)).Carries r.type r.remoteMessage) :
    ∃ new, Node.applyRecord k true old r.patch = .ok new := by
  refine Node.applyRecord_succeeds (r.place_root k old) ?_
  rintro node ⟨⟩
  refine h.accepted seated distinct ?_ (.held carries) grounded
  cases old with
  | none => exact .blank r.id
  | some n => exact proper n rfl

end Accepted

namespace Store

variable [Catalog τ] {U : Set Bytes} {digest : Bytes → Bytes} {s : Store} {forest : Node}
  {kind : String} {id : Int} {type : τ} {r : Record τ}

/-- A record with which a user of a store begins: one that is loaded, or a new one of
which the store has no live root. -/
inductive Opens (s : Store) (kind : String) (id : Int) (type : τ) : Record τ → Prop
  | loaded {content : Message} {r : Record τ} :
      s.load kind id = .ok content → Record.ofMessage type content = .ok r →
        Opens s kind id type r
  | fresh : s.live? 0 kind id = none → Opens s kind id type (.blank type id)

theorem Opens.made (h : s.Opens kind id type r) : r.Made type := by
  cases h with
  | loaded _ decoded => exact Record.made_of_ofMessage _ type r decoded
  | fresh => exact Record.blank_sound type id

theorem Opens.seated (h : s.Opens kind id type r) : r.Seated false := by
  cases h with
  | loaded _ decoded => exact Record.seated_of_ofMessage _ type r decoded
  | fresh => exact Record.seated_blank type id

theorem Opens.grounded (h : s.Opens kind id type r) : r.Grounded true := by
  cases h with
  | loaded _ decoded => exact Record.grounded_of_ofMessage _ type r decoded
  | fresh => exact Record.grounded_blank type id true

/-- The store carries the baseline of a record that is opened from it. -/
theorem ShowsForest.opens (shows : s.ShowsForest U forest) (h : s.Opens kind id type r) :
    r.id = id ∧ ((forest.child? kind id).getD (.blank id)).Carries type r.remoteMessage := by
  have made := h.made
  cases h with
  | loaded loaded decoded =>
      rw [shows.load, Node.load] at loaded
      cases found : forest.child? kind id with
      | none =>
          rw [found] at loaded
          cases loaded
      | some n =>
          rw [found] at loaded
          obtain rfl := Except.ok.inj loaded
          have carries :=
            Node.carries_of_decoded n type r (shows.branches.child? found) decoded
          rw [made.sound.localMessage_of_clean made.clean] at carries
          refine ⟨?_, carries⟩
          rw [Record.ofMessage_id decoded, n.message_id, Node.id_of_child? found]
  | fresh gone =>
      have none := (shows_iff.mp shows.shows kind id).eq_none gone
      refine ⟨rfl, ?_⟩
      rw [none]
      exact Node.carries_blank type id

/-- A store that carries the baseline of a record takes its patch, and then carries what
the user sees. -/
theorem ShowsForest.saves (shows : s.ShowsForest U forest) (h : r.Sound) {clashed : Bool}
    (seated : r.Seated clashed) (distinct : r.Distinct) (grounded : r.Grounded true)
    (carries : ((forest.child? kind r.id).getD (.blank r.id)).Carries r.type r.remoteMessage)
    (known : r.patch.BytesIn U) :
    ∃ s' forest' n, s.apply kind r.patch = .ok s' ∧ s'.ShowsForest U forest' ∧
      forest'.child? kind r.id = some n ∧ n.Carries r.type r.localMessage := by
  have id_eq : r.patch.id = r.id := by rw [Record.patch_eq]
  have proper : ∀ n, forest.child? kind r.id = some n → n.Proper ∧ n.id = r.id :=
    fun n found => ⟨shows.branches.child? found, Node.id_of_child? found⟩
  obtain ⟨new, accepted⟩ := h.root_accepted seated distinct grounded (k := kind)
    (fun n found => (proper n found).1) carries
  obtain ⟨s', applied, -⟩ := (shows.apply kind known).of_ok_right
    (b := forest.withChild _ _ new) (by rw [Node.apply, id_eq, accepted]; rfl)
  obtain ⟨forest', new', shows', made, child⟩ := shows.applied known applied
  rw [id_eq] at made child
  obtain ⟨n, rfl, whole⟩ := h.root_told proper carries made
  exact ⟨s', forest', n, applied, shows', (child kind r.id).trans (if_pos ⟨rfl, rfl⟩),
    whole.mpr grounded.tellsAll⟩

/-- A record is opened from a store and edited, where new elements are made from their ids
alone.  If the elements of every ordered set that the user sees stand on distinct
positions, the store takes the patch of the record, and the record that is then loaded is
clean and is what the user sees. -/
theorem saves_local_view (named : Set.InjOn digest U) (built : Built U digest s)
    (opened : s.Opens kind id type r) {edits : List Edit}
    (blank : Edit.allAddBlank edits = true) (distinct : (r.editAll edits).1.Distinct)
    (known : (r.editAll edits).1.patch.BytesIn U) :
    ∃ s', s.apply kind (r.editAll edits).1.patch = .ok s' ∧
      ∃ content r', s'.load kind id = .ok content ∧
      Record.ofMessage type content = .ok r' ∧
        r'.dirty = 0 ∧ r'.localMessage = (r.editAll edits).1.localMessage := by
  obtain ⟨forest, shows⟩ := built.shows named
  obtain ⟨rfl, carries⟩ := shows.opens opened
  have made := opened.made
  obtain rfl := made.type_eq
  have evolves := (made.sound.editAll edits).1
  rw [← evolves.type_eq, ← evolves.id_eq, ← evolves.remote_eq made.sound] at carries
  obtain ⟨s', forest', n, applied, shows', found, carries'⟩ := shows.saves evolves.sound
    (opened.seated.editAll edits) distinct (opened.grounded.editAll edits blank) carries known
  obtain ⟨r', decoded, same⟩ := carries'.decodes evolves.sound (shows'.branches.child? found)
    (Node.id_of_child? found)
  rw [evolves.id_eq] at found
  rw [evolves.type_eq] at decoded
  refine ⟨s', applied, n.message, r', ?_, decoded,
    (Record.made_of_ofMessage _ _ _ decoded).clean, same⟩
  rw [shows'.load, Node.load, found]

/-- The message that tells of entries in the list of tasks of the variant 1. -/
def kimPatch (entries : List Message) : Message :=
  ⟨1, [], [⟨"tasks", entries⟩], none, none, none⟩

theorem bytesIn_kimPatch {entries : List Message}
    (plain : ∀ m ∈ entries, m.children = [] ∧ ∀ f ∈ m.fields, ∀ b, f.2 ≠ .bytes b) :
    (kimPatch entries).BytesIn ∅ := by
  refine .intro nofun ?_
  intro g hg m hm
  obtain rfl := List.mem_singleton.mp hg
  obtain ⟨children, fields⟩ := plain m hm
  refine .intro ?_ ?_
  · intro f hf b bytes
    exact absurd bytes (fields f hf b)
  · rw [children]
    exact nofun

/-- The first task is taken out, comes back with a tag and changes places with the second,
and a third one is added. -/
def kimMoves : List Edit :=
  [.within "tasks" (.remove 1),
    .within "tasks" (.add (.blank 1) [.write "tag" (.text "b")]),
    .within "tasks" (.swap 1 2),
    .within "tasks" (.add (.blank 3) [])]

/-- The store that holds the variant with two tasks. -/
def kimStore : Store :=
  ⟨Blake3.digest, [⟨1, 0, "kim", 1, none, false, []⟩,
    ⟨2, 1, "tasks", 1, some 0, false, [("tag", .inline (.text "a"))]⟩,
    ⟨3, 1, "tasks", 2, some 1, false, []⟩], [], 1⟩

/-- The variant with two tasks. -/
def loadedKim : Record Entity :=
  let tagged := { Record.blank Entity.taskEntry 1 with
    fields := [.clean ⟨"task_type", .integer⟩ (.integer 0),
      .clean ⟨"tag", .text⟩ (.text "a")] }
  { Record.blank Entity.kim 1 with
    sets := [⟨⟨"tasks", .ordered, .taskEntry⟩,
        [.loaded tagged 0, .loaded (.blank .taskEntry 2) 1], 0, 2⟩,
      .blank ⟨"access", .unordered, .groupAccess⟩] }

/-- The tasks pass through each other on the way to their new places. -/
theorem saves_local_view_of_moved_tasks :
    kimStore.Opens "kim" 1 Entity.kim loadedKim ∧
      (loadedKim.editAll kimMoves).1.Distinct ∧
      (loadedKim.editAll kimMoves).1.patch =
        kimPatch [⟨1, [("tag", .text "b")], [], some 0, some 1, none⟩,
          ⟨2, [], [], some 1, some 0, none⟩, ⟨3, [], [], some (-1), some 2, none⟩] ∧
      ∃ s', kimStore.apply "kim" (loadedKim.editAll kimMoves).1.patch = .ok s' ∧
        ∃ content r', s'.load "kim" 1 = .ok content ∧
          Record.ofMessage Entity.kim content = .ok r' ∧ r'.dirty = 0 ∧
          r'.localMessage = (loadedKim.editAll kimMoves).1.localMessage := by
  have named : Set.InjOn Blake3.digest ∅ := nofun
  have built : Built ∅ Blake3.digest kimStore :=
    @Built.apply _ _ (.empty Blake3.digest) _ "kim"
      (kimPatch [⟨1, [("tag", .text "a")], [], some (-1), some 0, none⟩,
        ⟨2, [], [], some (-1), some 1, none⟩]) .empty (bytesIn_kimPatch (by simp)) rfl
  have loaded : kimStore.load "kim" 1 =
      .ok (kimPatch [⟨1, [("tag", .text "a")], [], some 0, none, none⟩,
        ⟨2, [], [], some 1, none, none⟩]) := rfl
  have opened : kimStore.Opens "kim" 1 Entity.kim loadedKim := .loaded loaded rfl
  have free : loadedKim.clashesAll kimMoves = false := by decide +kernel
  have seated := opened.seated.editAll kimMoves
  rw [free] at seated
  have distinct := (opened.made.sound.editAll kimMoves).1.sound.distinct seated
  have patch : (loadedKim.editAll kimMoves).1.patch =
      kimPatch [⟨1, [("tag", .text "b")], [], some 0, some 1, none⟩,
        ⟨2, [], [], some 1, some 0, none⟩, ⟨3, [], [], some (-1), some 2, none⟩] := by
    decide +kernel
  have known : (loadedKim.editAll kimMoves).1.patch.BytesIn ∅ := by
    rw [patch]
    exact bytesIn_kimPatch (by simp)
  exact ⟨opened, distinct, patch, saves_local_view named built opened rfl distinct known⟩

end Store

end RecordSync
