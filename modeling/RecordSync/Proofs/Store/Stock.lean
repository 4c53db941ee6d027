import Mathlib.Data.Finset.Card
import RecordSync.Proofs.Store.Contents
import RecordSync.Proofs.Store.History
import RecordSync.Proofs.Store.Journal

/-!
# The stock of strings

The table keeps the strings of bytes of all its fields in one stock, by digest.  The stock
is never swept: what was written once stays, whether the field is overwritten, the record
removed or brought back.  The journal says which strings were written, so it says what the
stock has, and that no field of a live record waits for a string that is not there.

That the digest tells strings apart is needed of the strings that were written, and of no
others.

**Results.**
* `Store.Stocks.applyRecord`: a patch that is accepted adds to the stock what its journal
  writes.
* `Store.answers_journal`: what each accepted patch preserves of a table and its journal
  holds after any history.
* `Store.strings_kept_once`: a history puts each string that it writes into the stock
  once, nothing is lost, and every live record is loaded with the values that were written
  last.
-/

namespace RecordSync

/-- The string of bytes that a deed wrote. -/
def Deed.string? : Deed → Option Bytes
  | .wrote _ _ (.bytes content) => some content
  | _ => none

/-- The deed with its string of bytes replaced. -/
def Deed.mapBytes (f : Bytes → Bytes) : Deed → Deed
  | .wrote place field value => .wrote place field (value.mapBytes f)
  | deed => deed

namespace Journal

/-- The strings of bytes that were written, once for each time. -/
def strings (j : Journal) : List Bytes := j.filterMap Deed.string?

def mapBytes (f : Bytes → Bytes) (j : Journal) : Journal := j.map (Deed.mapBytes f)

end Journal

section Replace

variable {f : Bytes → Bytes}

/-- Nothing is replaced in a journal that writes none but strings that stand for
themselves. -/
theorem Journal.mapBytes_eq_self {j : Journal} (fixed : ∀ b ∈ j.strings, f b = b) :
    j.mapBytes f = j := by
  refine (List.map_congr_left ?_).trans (List.map_id j)
  intro deed there
  cases deed with
  | named _ => rfl
  | removed _ => rfl
  | wrote place field value =>
      cases value with
      | bytes b =>
          have written : b ∈ j.strings := List.mem_filterMap.mpr ⟨_, there, rfl⟩
          exact congrArg (fun c => Deed.wrote place field (.bytes c)) (fixed b written)
      | null => rfl
      | text _ => rfl
      | integer _ => rfl
      | real _ => rfl
      | boolean _ => rfl

theorem Journal.write_mapBytes (place : Path) (fields : List (String × Value))
    (j : Journal) :
    (j.mapBytes f).write place (fields.map (fun x => (x.1, x.2.mapBytes f))) =
      (j.write place fields).mapBytes f := by
  induction fields generalizing j with
  | nil => rfl
  | cons x fields ih => exact ih (.wrote place x.1 x.2 :: j)

mutual

/-- The journal of a message with its strings replaced has them replaced. -/
theorem Message.journal_mapBytes (m : Message) (place : Path) (j : Journal) :
    (m.mapBytes f).journal place (j.mapBytes f) = (m.journal place j).mapBytes f := by
  obtain ⟨id, fields, children, position, swapPosition, deleted⟩ := m
  rw [Message.mapBytes, Message.journal, Message.journal]
  show (if Message.removes ⟨id, fields, children, position, swapPosition, deleted⟩ then _
  else _) = _
  split
  · rfl
  · exact (congrArg (fun j => journalGroups place j (mapGroupBytes f children))
      (Journal.write_mapBytes place fields (.named place :: j))).trans
      (journalGroups_mapBytes children place _)

theorem journalGroups_mapBytes (groups : List Group) (place : Path) (j : Journal) :
    journalGroups place (j.mapBytes f) (mapGroupBytes f groups) =
      (journalGroups place j groups).mapBytes f := by
  match groups with
  | [] => rw [mapGroupBytes, journalGroups, journalGroups]
  | ⟨set, members⟩ :: rest =>
      rw [mapGroupBytes, journalGroups, journalGroups, journalMembers_mapBytes members,
        journalGroups_mapBytes rest]

theorem journalMembers_mapBytes (members : List Message) (place : Path) (set : String)
    (j : Journal) :
    journalMembers place set (j.mapBytes f) (mapMemberBytes f members) =
      (journalMembers place set j members).mapBytes f := by
  match members with
  | [] => rw [mapMemberBytes, journalMembers, journalMembers]
  | m :: rest =>
      rw [mapMemberBytes, journalMembers, journalMembers, m.mapBytes_id, m.journal_mapBytes,
        journalMembers_mapBytes rest]

end

end Replace

namespace Store

variable {s s' : Store} {j j' : Journal} {place : Path}

section Stocks

/-- The stock of a table: of each digest of the strings that were written there is one
string, and it is one of those. -/
structure Stocks (s : Store) (j : Journal) : Prop where
  named : s.Named
  nodup : (s.contents.map Prod.fst).Nodup
  digests : ∀ d, d ∈ s.contents.map Prod.fst ↔ d ∈ j.strings.map s.digest
  written : ∀ e ∈ s.contents, e.2 ∈ j.strings

theorem stocks_empty (digest : Bytes → Bytes) : (empty digest).Stocks [] where
  named := fun _ he => absurd he List.not_mem_nil
  nodup := List.nodup_nil
  digests := fun _ => Iff.rfl
  written := fun _ he => absurd he List.not_mem_nil

theorem Stocks.of_contents (h : s.Stocks j) (digest : s'.digest = s.digest)
    (contents : s'.contents = s.contents) (strings : j'.strings = j.strings) :
    s'.Stocks j' := by
  refine ⟨?_, ?_, fun d => ?_, ?_⟩
  · rw [Named, digest, contents]
    exact h.named
  · rw [contents]
    exact h.nodup
  · rw [contents, digest, strings]
    exact h.digests d
  · rw [contents, strings]
    exact h.written

theorem bytes?_isSome_iff {d : Bytes} :
    (s.bytes? d).isSome ↔ d ∈ s.contents.map Prod.fst := by
  rw [bytes?, Option.isSome_map, List.find?_isSome, List.mem_map]
  simp

/-- A string that is written is put into the stock unless there is one of its digest. -/
theorem Stocks.keep (h : s.Stocks j) (place : Path) (field : String) (b : Bytes) :
    (s.keep b).Stocks (.wrote place field (.bytes b) :: j) := by
  have more : Journal.strings (.wrote place field (.bytes b) :: j) = b :: j.strings := rfl
  have digests : ∀ d, d ∈ (b :: j.strings).map s.digest ↔
      d = s.digest b ∨ d ∈ j.strings.map s.digest := fun _ => List.mem_cons
  rw [Store.keep]
  split
  next there =>
    have known := (h.digests _).mp (bytes?_isSome_iff.mp there)
    refine ⟨h.named, h.nodup, fun d => ?_, fun e he => ?_⟩
    · rw [h.digests, more, digests, or_iff_right_of_imp]
      exact fun same => same ▸ known
    · exact more ▸ List.mem_cons_of_mem b (h.written e he)
  next gone =>
    have fresh : s.digest b ∉ s.contents.map Prod.fst := fun there =>
      gone (bytes?_isSome_iff.mpr there)
    refine ⟨fun e he => ?_, ?_, fun d => ?_, fun e he => ?_⟩
    · rcases List.mem_append.mp he with he | he
      · exact h.named e he
      · rw [List.mem_singleton.mp he]
    · rw [List.map_append]
      exact h.nodup.append (List.nodup_singleton _) (by simpa using fresh)
    · rw [more, digests, ← h.digests, List.map_append, List.mem_append, or_comm]
      exact or_congr_left List.mem_singleton
    · rw [more]
      rcases List.mem_append.mp he with he | he
      · exact List.mem_cons_of_mem b (h.written e he)
      · rw [List.mem_singleton.mp he]
        exact List.mem_cons_self

theorem Stocks.writeField (h : s.Stocks j) (place : Path) (number : Nat) (field : String)
    (value : Value) :
    (s.writeField number field value).Stocks (.wrote place field value :: j) := by
  cases value with
  | bytes b => exact (h.keep place field b).of_contents rfl rfl rfl
  | null => exact h.of_contents rfl rfl rfl
  | text _ => exact h.of_contents rfl rfl rfl
  | integer _ => exact h.of_contents rfl rfl rfl
  | real _ => exact h.of_contents rfl rfl rfl
  | boolean _ => exact h.of_contents rfl rfl rfl

theorem Stocks.writeFields (h : s.Stocks j) (place : Path) (number : Nat)
    (fields : List (String × Value)) :
    (s.writeFields number fields).Stocks (j.write place fields) := by
  induction fields generalizing s j with
  | nil => exact h
  | cons x fields ih => exact ih (h.writeField place number x.1 x.2)

end Stocks

section Apply

/-- A message goes on to the fields and the elements unless it removes its record. -/
theorem place_removes {p : Nat} {set : String} {mayCreate : Bool} {m : Message}
    {placed : Store × Option Nat}
    (h : s.place p set mayCreate m.id m.position m.swapPosition m.deleted = .ok placed) :
    m.removes = placed.2.isNone := by
  rw [Bool.eq_iff_iff, Message.removes_iff, Option.isNone_iff_eq_none]
  rcases place_cases h with ⟨rfl | ⟨row, rfl⟩, removal⟩ | ⟨target, rfl, swap, here, -⟩ |
    ⟨rfl, swap, unmarked⟩
  · simp [removal]
  · simp [removal]
  · simp [swap, here]
  · simp [swap, unmarked]

mutual

/-- A message that is accepted adds to the stock what its journal writes. -/
theorem Stocks.applyRecord {m : Message} {s s' : Store} {j : Journal} {p : Nat}
    {set : String} {mayCreate : Bool} (h : s.Stocks j) (place : Path)
    (ha : s.applyRecord p set mayCreate m = .ok s') : s'.Stocks (m.journal place j) := by
  obtain ⟨id, fields, children, position, swapPosition, deleted⟩ := m
  rw [Store.applyRecord] at ha
  obtain ⟨⟨s₁, found⟩, placed, ha⟩ := of_bind_eq_ok ha
  obtain ⟨digest, contents⟩ := contents_place placed
  rw [Message.journal, place_removes placed]
  cases found with
  | none =>
      obtain rfl := Except.ok.inj ha
      exact h.of_contents digest contents rfl
  | some number =>
      have start : s₁.Stocks (.named place :: j) := h.of_contents digest contents rfl
      exact Stocks.applyGroups children (start.writeFields place number fields) place ha

theorem Stocks.applyGroups {s s' : Store} {j : Journal} {number : Nat}
    (groups : List Group) (h : s.Stocks j) (place : Path)
    (ha : s.applyGroups number groups = .ok s') :
    s'.Stocks (journalGroups place j groups) := by
  match groups with
  | [] =>
      rw [Store.applyGroups] at ha
      obtain rfl := Except.ok.inj ha
      rwa [journalGroups]
  | ⟨set, members⟩ :: rest =>
      rw [Store.applyGroups] at ha
      obtain ⟨s₁, inner, ha⟩ := of_bind_eq_ok ha
      obtain ⟨_, -, ha⟩ := of_bind_eq_ok ha
      rw [journalGroups]
      exact Stocks.applyGroups rest (Stocks.applyMembers members h place inner) place ha

theorem Stocks.applyMembers {s s' : Store} {j : Journal} {number : Nat} {set : String}
    (members : List Message) (h : s.Stocks j) (place : Path)
    (ha : s.applyMembers number set members = .ok s') :
    s'.Stocks (journalMembers place set j members) := by
  match members with
  | [] =>
      rw [Store.applyMembers] at ha
      obtain rfl := Except.ok.inj ha
      rwa [journalMembers]
  | m :: rest =>
      rw [Store.applyMembers] at ha
      obtain ⟨s₁, inner, ha⟩ := of_bind_eq_ok ha
      rw [journalMembers]
      exact Stocks.applyMembers rest (h.applyRecord (place ++ [(set, m.id)]) inner) place ha

end

end Apply

section Lookup

variable {b d : Bytes}

/-- What is found under a digest has it, and was written. -/
theorem Stocks.of_bytes? (h : s.Stocks j) (found : s.bytes? d = some b) :
    s.digest b = d ∧ b ∈ j.strings := by
  obtain ⟨e, there, rfl⟩ := Option.map_eq_some_iff.mp found
  have mem := List.mem_of_find?_eq_some there
  refine ⟨?_, h.written e mem⟩
  rw [← h.named e mem]
  simpa using List.find?_some there

/-- No string is held back, since each is kept under its own digest. -/
theorem Stocks.fetch_eq (h : s.Stocks j) (d : Bytes) : s.fetch d = .ok (s.bytes? d) := by
  rw [fetch]
  cases found : s.bytes? d with
  | none => rfl
  | some b => exact if_pos (h.of_bytes? found).1

theorem Stocks.bytes?_eq_none_iff (h : s.Stocks j) :
    s.bytes? d = none ↔ d ∉ j.strings.map s.digest := by
  rw [← h.digests, ← bytes?_isSome_iff, Option.not_isSome_iff_eq_none]

theorem Stocks.bytes?_eq_some_iff (h : s.Stocks j)
    (apart : Set.InjOn s.digest {b | b ∈ j.strings}) :
    s.bytes? (s.digest b) = some b ↔ b ∈ j.strings := by
  refine ⟨fun found => (h.of_bytes? found).2, fun written => ?_⟩
  have there := bytes?_isSome_iff.mpr ((h.digests _).mpr (List.mem_map_of_mem written))
  obtain ⟨c, found⟩ := Option.isSome_iff_exists.mp there
  obtain ⟨same, written'⟩ := h.of_bytes? found
  rwa [apart written' written same] at found

theorem Stocks.contentCount_eq (h : s.Stocks j)
    (apart : Set.InjOn s.digest {b | b ∈ j.strings}) :
    s.contentCount = j.strings.toFinset.card := by
  have digests : (s.contents.map Prod.fst).toFinset =
      j.strings.toFinset.image s.digest := by
    ext d
    rw [List.mem_toFinset, h.digests]
    simp
  calc s.contentCount
    _ = (s.contents.map Prod.fst).toFinset.card := by
      rw [List.toFinset_card_of_nodup h.nodup, List.length_map, contentCount]
    _ = (j.strings.toFinset.image s.digest).card := by rw [digests]
    _ = j.strings.toFinset.card := Finset.card_image_of_injOn (by simpa using apart)

end Lookup

section Run

/-- What every accepted patch preserves of a table and its journal is preserved by a
history. -/
theorem answers_journal {R : Store → Journal → Prop}
    (step : ∀ {s s' j kind patch}, R s j → s.apply kind patch = .ok s' →
      R s' (patch.journal [(kind, patch.id)] j))
    (h : R s j) (history : List (String × Message)) :
    R (s.answers history).2 (j.after (granted Store.apply s history)) := by
  induction history generalizing s j with
  | nil => exact h
  | cons x history ih =>
      obtain ⟨kind, patch⟩ := x
      rw [answers, answerAll, granted]
      cases applied : s.apply kind patch with
      | ok s' => exact ih (step h applied)
      | error reason => exact ih h

/-- The journal of the patches of a history that a new table accepts. -/
def journal (digest : Bytes → Bytes) (history : List (String × Message)) : Journal :=
  Journal.after [] (granted Store.apply (empty digest) history)

theorem digest_answers (digest : Bytes → Bytes) (history : List (String × Message)) :
    ((empty digest).answers history).2.digest = digest :=
  answers_journal (R := fun s _ => s.digest = digest)
    (fun same applied => (apply_mapBytes applied).1.digest_eq.trans same)
    (j := []) rfl history

theorem stocks_answers (digest : Bytes → Bytes) (history : List (String × Message)) :
    ((empty digest).answers history).2.Stocks (journal digest history) :=
  answers_journal (fun h applied => h.applyRecord _ applied) (stocks_empty digest) history

/-- A table shows a forest that follows the journal, when one string of bytes stands for
all of a digest. -/
theorem answers_follow (digest : Bytes → Bytes) (history : List (String × Message))
    {f : Bytes → Bytes} (stands : ((empty digest).answers history).2.StandIn f) :
    ∃ forest, ((empty digest).answers history).2.ShowsForest (Set.range f) forest ∧
      ((journal digest history).mapBytes f).Below [] forest := by
  refine answers_journal (R := fun s j => s.StandIn f →
    ∃ forest, s.ShowsForest (Set.range f) forest ∧ (j.mapBytes f).Below [] forest)
    ?_ ?_ history stands
  · intro s s' j kind patch ih applied stands
    obtain ⟨keeps, replaced⟩ := apply_mapBytes applied
    obtain ⟨forest, shows, below⟩ := ih (stands.earlier keeps)
    obtain ⟨forest', applied', shows'⟩ :=
      (shows.apply kind (patch.bytesIn_mapBytes f)).of_ok (replaced f stands)
    have below' := below.apply shows.branches applied'
    rw [patch.mapBytes_id, patch.journal_mapBytes] at below'
    exact ⟨forest', shows', below'⟩
  · intro stands
    exact ⟨.blank 0, showsForest_empty stands.injOn, fun _ _ _ => rfl⟩

/-- A forest that follows the journal loads the roots that the journal names, with the
values that were written last. -/
theorem load_follows {forest : Node} (branches : forest.Branches)
    (below : j.Below [] forest) (kind : String) (id : Int) :
    (j.stands [(kind, id)] = false → forest.load kind id = .error (.missingRoot kind id)) ∧
      (j.stands [(kind, id)] = true → ∃ m, forest.load kind id = .ok m ∧
        ∀ path, (m.below? path).map Message.field? = j.at? ((kind, id) :: path)) := by
  have told : j.Tells [(kind, id)] (forest.child? kind id) := below kind id
  have root : j.at? [(kind, id)] = _ := told []
  rw [Journal.at?] at root
  rw [Node.load]
  cases found : forest.child? kind id with
  | none =>
      rw [found] at root
      exact ⟨fun _ => rfl, fun there => by rw [if_pos there] at root; cases root⟩
  | some n =>
      rw [found] at root told
      refine ⟨fun gone => ?_, fun _ => ⟨n.message, rfl, fun path => ?_⟩⟩
      · rw [gone] at root
        cases root
      · rw [Node.below?_message (branches.child? found).branches]
        exact (told path).symm

/-- A record that is told as the journal has it is found if and only if it is there, and
has in each field what was written last. -/
theorem found_of_told {found : Option Message}
    (told : found.map Message.field? = j.at? place) : found.isSome = j.stands place ∧
      ∀ c, found = some c → ∀ field, c.field? field = j.last? place field := by
  rw [Journal.at?] at told
  cases there : j.stands place with
  | false =>
      rw [there] at told
      obtain rfl := Option.map_eq_none_iff.mp told
      exact ⟨rfl, fun c none => by cases none⟩
  | true =>
      rw [there] at told
      obtain ⟨c, rfl, values⟩ := Option.map_eq_some_iff.mp told
      refine ⟨rfl, fun c' same field => ?_⟩
      cases same
      exact congrFun values field

/-- After any history the stock has exactly the strings that accepted patches wrote to
fields, each once, and hands each out under its digest; and a root is loaded if and only
if it is there, with all the elements that are there, and every field of them has the
value that was written to it last. -/
theorem strings_kept_once {digest : Bytes → Bytes} {history : List (String × Message)}
    (apart : Set.InjOn digest {b | b ∈ (journal digest history).strings}) :
    let s := ((empty digest).answers history).2
    let j := journal digest history
    s.contentCount = j.strings.toFinset.card ∧
      (∀ b, s.fetch (digest b) = .ok (some b) ↔ b ∈ j.strings) ∧
      (∀ d, s.fetch d = .ok none ↔ d ∉ j.strings.map digest) ∧
      ∀ kind id,
        (j.stands [(kind, id)] = false → s.load kind id = .error (.missingRoot kind id)) ∧
          (j.stands [(kind, id)] = true → ∃ m, s.load kind id = .ok m ∧
            ∀ path, (m.below? path).isSome = j.stands ((kind, id) :: path) ∧
              ∀ c, m.below? path = some c →
                ∀ field, c.field? field = j.last? ((kind, id) :: path) field) := by
  intro s j
  have stocks : s.Stocks j := stocks_answers digest history
  have same : s.digest = digest := digest_answers digest history
  have apart' : Set.InjOn s.digest {b | b ∈ j.strings} := same ▸ apart
  refine ⟨stocks.contentCount_eq apart', fun b => ?_, fun d => ?_, fun kind id => ?_⟩
  · rw [stocks.fetch_eq, ← same, Except.ok.injEq, stocks.bytes?_eq_some_iff apart']
  · rw [stocks.fetch_eq, Except.ok.injEq, stocks.bytes?_eq_none_iff, same]
  · obtain ⟨f, chosen⟩ := stocks.named.exists_standIn
    have fixed : j.mapBytes f = j := Journal.mapBytes_eq_self fun b written =>
      chosen.kept _ _ ((stocks.bytes?_eq_some_iff apart').mpr written)
    obtain ⟨forest, shows, below⟩ := answers_follow digest history chosen
    have below' : j.Below [] forest := fixed ▸ below
    obtain ⟨gone, there⟩ := load_follows shows.branches below' kind id
    rw [shows.load kind id]
    refine ⟨gone, fun stands => ?_⟩
    obtain ⟨m, loaded, told⟩ := there stands
    exact ⟨m, loaded, fun path => found_of_told (told path)⟩

/-- A task gets a cover, and a part that has the same string as its scan.  The scan is
written anew, a patch with a change of a missing part is refused, and the part is removed
and brought back. -/
def scanHistory : List (String × Message) :=
  [("task", ⟨1, [("cover", .bytes [104, 105])],
      [⟨"parts", [⟨7, [("name", .text "a"), ("scan", .bytes [104, 105])], [], none, none,
        some false⟩]⟩], none, none, none⟩),
    ("task", partMessage [("scan", .bytes [111])] [] none),
    ("task", ⟨1, [("cover", .bytes [1])],
      [⟨"parts", [⟨9, [("scan", .bytes [2])], [], none, none, none⟩]⟩], none,
      none, none⟩),
    ("task", partMessage [("scan", .bytes [3])] [] (some true)),
    ("task", partMessage [("name", .text "b")] [] (some false))]

theorem journal_scanHistory :
    journal Blake3.digest scanHistory =
      [.wrote [("task", 1), ("parts", 7)] "name" (.text "b"),
        .named [("task", 1), ("parts", 7)], .named [("task", 1)],
        .removed [("task", 1), ("parts", 7)], .named [("task", 1)],
        .wrote [("task", 1), ("parts", 7)] "scan" (.bytes [111]),
        .named [("task", 1), ("parts", 7)], .named [("task", 1)],
        .wrote [("task", 1), ("parts", 7)] "scan" (.bytes [104, 105]),
        .wrote [("task", 1), ("parts", 7)] "name" (.text "a"),
        .named [("task", 1), ("parts", 7)],
        .wrote [("task", 1)] "cover" (.bytes [104, 105]), .named [("task", 1)]] := by
  decide +kernel

/-- Both strings of the part that was removed are kept, the one that came with its removal
is not, and the part has come back without a scan. -/
theorem strings_kept_once_after_removal :
    let s := ((empty Blake3.digest).answers scanHistory).2
    Set.InjOn Blake3.digest {b | b ∈ (journal Blake3.digest scanHistory).strings} ∧
      s.contentCount = 2 ∧ s.fetch (Blake3.digest [111]) = .ok (some [111]) ∧
      s.fetch (Blake3.digest [3]) ≠ .ok (some [3]) ∧
      ∃ m c, s.load "task" 1 = .ok m ∧ m.below? [("parts", 7)] = some c ∧
        c.field? "name" = some (.text "b") ∧ c.field? "scan" = none := by
  intro s
  have strings : (journal Blake3.digest scanHistory).strings =
      [[111], [104, 105], [104, 105]] := by
    rw [journal_scanHistory]
    rfl
  have differ : Blake3.digest [111] ≠ Blake3.digest [104, 105] := by decide +kernel
  have apart :
      Set.InjOn Blake3.digest {b | b ∈ (journal Blake3.digest scanHistory).strings} := by
    rw [strings]
    intro b hb c hc same
    have first : b = [111] ∨ b = [104, 105] := by simpa using hb
    have second : c = [111] ∨ c = [104, 105] := by simpa using hc
    rcases first with rfl | rfl <;> rcases second with rfl | rfl
    · rfl
    · exact absurd same differ
    · exact absurd same.symm differ
    · rfl
  obtain ⟨count, fetched, -, loads⟩ := strings_kept_once apart
  refine ⟨apart, ?_, (fetched _).mpr ?_, fun found => ?_, ?_⟩
  · rw [count, strings]
    rfl
  · rw [strings]
    exact List.mem_cons_self
  · have written := (fetched [3]).mp found
    rw [strings] at written
    revert written
    decide
  · obtain ⟨m, loaded, told⟩ := (loads "task" 1).2 (by rw [journal_scanHistory]; rfl)
    obtain ⟨there, values⟩ := told [("parts", 7)]
    rw [journal_scanHistory] at there values
    obtain ⟨c, found⟩ := Option.isSome_iff_exists.mp (there.trans rfl)
    exact ⟨m, c, loaded, found, (values c found "name").trans rfl,
      (values c found "scan").trans rfl⟩

end Run

end Store

end RecordSync
