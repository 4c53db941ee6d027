import RecordSync.Packed.Wire
import RecordSync.Proofs.Packed.Reading
import RecordSync.Proofs.SortedList

/-!
# Packed values and messages are read back

A value or a message that was packed is unpacked from the front of any bytes that start
with it, floating-point numbers bit for bit, and no part of the bytes of either can be
unpacked.

**What is packed.**  The numbers of values and messages have 64 bits and their lengths 32,
and the fields and groups of a message are maps, kept in the order of the names
(`Value.Sendable`, `Message.Sendable`).

**Depth.**  `Message.levels` counts how many arrays and maps stand inside each other in a
packed message, as the reader counts them.  A message that goes deeper than the reader is
refused.

**Results.**
* `Packed.toMessage_ofMessage`: the item of a message stands for it.
* `Packed.round_trip`: what was packed is unpacked, and no part of it is.
-/

namespace RecordSync

/-- A number of 64 bits. -/
def Word64 (n : Int) : Prop := -9223372036854775808 ≤ n ∧ n < 9223372036854775808

instance (n : Int) : Decidable (Word64 n) := inferInstanceAs (Decidable (_ ∧ _))

/-- A text whose length has 32 bits. -/
def Brief (s : String) : Prop := s.utf8ByteSize < 4294967296

instance (s : String) : Decidable (Brief s) := inferInstanceAs (Decidable (_ < _))

/-- The numbers of a value have 64 bits, and its length has 32. -/
def Value.Sendable : Value → Prop
  | .text content => Brief content
  | .integer n => Word64 n
  | .bytes content => content.length < 4294967296
  | .null | .real _ | .boolean _ => True

instance : DecidablePred Value.Sendable
  | .text content => inferInstanceAs (Decidable (Brief content))
  | .integer n => inferInstanceAs (Decidable (Word64 n))
  | .bytes content => inferInstanceAs (Decidable (content.length < 4294967296))
  | .null | .real _ | .boolean _ => inferInstanceAs (Decidable True)

/-- The numbers of a message have 64 bits and its lengths 32, and its fields and groups
stand in the order of their names; so do those of its children. -/
inductive Message.Sendable : Message → Prop
  | intro {m : Message} :
      Word64 m.id →
      SortedList.Sorted Prod.fst m.fields →
      m.fields.length < 4294967296 →
      (∀ x ∈ m.fields, Brief x.1 ∧ x.2.Sendable) →
      SortedList.Sorted Group.name m.children →
      m.children.length < 4294967296 →
      (∀ g ∈ m.children, Brief g.name ∧ g.members.length < 4294967296) →
      (∀ g ∈ m.children, ∀ c ∈ g.members, Sendable c) →
      (∀ p ∈ m.position, Word64 p) →
      (∀ p ∈ m.swapPosition, Word64 p) →
      Sendable m

/-- How many arrays and maps stand inside each other in the packed value, its own map not
counted. -/
def Value.levels : Value → Nat
  | .bytes _ => 1
  | .null | .text _ | .integer _ | .real _ | .boolean _ => 0

def fieldLevels : List (String × Value) → Nat
  | [] => 0
  | (_, value) :: rest => max value.levels (fieldLevels rest)

mutual

/-- How many arrays and maps stand inside each other in the packed message, where the map
of a value does not count. -/
def Message.levels : Message → Nat
  | ⟨_, fields, children, _, _, _⟩ =>
    max (if fields.isEmpty then 0 else fieldLevels fields + 1)
      (if children.isEmpty then 0 else groupLevels children + 1) + 1

def groupLevels : List Group → Nat
  | [] => 0
  | ⟨_, members⟩ :: rest => max (memberLevels members + 1) (groupLevels rest)

def memberLevels : List Message → Nat
  | [] => 0
  | message :: rest => max message.levels (memberLevels rest)

end

namespace Packed

section Leaves

theorem string?_ofString (s : String) : (Item.ofString s).string? = some s := by
  rw [Item.string?, Item.ofString, Item.content?, Option.bind_some, Array.toArray_toList]
  exact dif_pos s.isValidUTF8

theorem integer?_ofInt {n : Int} (h : Word64 n) : (Item.ofInt n).integer? = some n := by
  obtain ⟨low, high⟩ := h
  have number : (Item.ofInt n).number? = some n := by
    rw [Item.ofInt]
    split
    next nonneg => exact congrArg some (Int.toNat_of_nonneg nonneg)
    next => rfl
  rw [Item.integer?, number, Option.filter_some, if_pos (by simp; omega)]

theorem mapM_byte? (content : Bytes) :
    (content.map (fun b => Item.unsigned b.toNat)).mapM Item.byte? = some content := by
  induction content with
  | nil => rfl
  | cons b content ih =>
      have byte : (Item.unsigned b.toNat).byte? = some b := by
        have := b.toNat_lt
        rw [Item.byte?, Item.number?, Option.filter_some, if_pos (by simp; omega)]
        simp
      rw [List.map_cons, List.mapM_cons, byte, ih]
      rfl

end Leaves

section Values

/-- The item of a value stands for it, if the reader may go so deep. -/
theorem toValue_ofValue {v : Value} (h : v.Sendable) (levels : Nat) :
    toValue levels (ofValue v) = if v.levels ≤ levels then some v else none := by
  cases v with
  | null => rw [Value.levels, if_pos (Nat.zero_le levels)]; rfl
  | text content =>
      have key : (Item.ofString "Text").selector? valueNames = some 1 := by decide
      rw [Value.levels, if_pos (Nat.zero_le levels), ofValue, toValue, key,
        Option.bind_some, contentOf, string?_ofString, Option.map_some]
  | integer n =>
      have key : (Item.ofString "Integer").selector? valueNames = some 2 := by decide
      rw [Value.levels, if_pos (Nat.zero_le levels), ofValue, toValue, key,
        Option.bind_some, contentOf, integer?_ofInt h, Option.map_some]
  | real bits =>
      have key : (Item.ofString "Float").selector? valueNames = some 3 := by decide
      rw [Value.levels, if_pos (Nat.zero_le levels), ofValue, toValue, key]
      rfl
  | boolean truth =>
      have key : (Item.ofString "Boolean").selector? valueNames = some 4 := by decide
      rw [Value.levels, if_pos (Nat.zero_le levels), ofValue, toValue, key]
      rfl
  | bytes content =>
      have key : (Item.ofString "Bytes").selector? valueNames = some 5 := by decide
      rw [ofValue, toValue, key, Option.bind_some, contentOf, Item.bytes?, mapM_byte?]
      cases levels <;> rfl

end Values

section Parts

theorem addEntries_append (levels : Nat) (first second : List (Item × Item))
    (draft : Draft) : addEntries levels (first ++ second) draft =
      (addEntries levels first draft).bind (addEntries levels second) := by
  induction first generalizing draft with
  | nil => rfl
  | cons entry first ih =>
      obtain ⟨key, content⟩ := entry
      rw [List.cons_append, addEntries, addEntries]
      cases key.selector? partNames with
      | none => rfl
      | some number =>
          simp only [bind, Option.bind_some]
          cases addPart levels number content draft with
          | none => rfl
          | some after => exact ih after

/-- A part with a name is added under its number. -/
theorem addEntries_part {name : String} {number : Nat}
    (key : (Item.ofString name).selector? partNames = some number) (levels : Nat)
    (content : Item) (draft : Draft) :
    addEntries levels (part name (some content)) draft =
      addPart levels number content draft := by
  rw [part, addEntries, key]
  simp only [bind, Option.bind_some]
  cases addPart levels number content draft <;> rfl

theorem addEntries_absent (name : String) (levels : Nat) (draft : Draft) :
    addEntries levels (part name none) draft = some draft := rfl

/-- Only the part of the children is not a plain one. -/
theorem addPart_plain {number : Nat} (h : number ≠ 2) (levels : Nat) (content : Item)
    (draft : Draft) :
    addPart levels number content draft = addPlainPart levels number content draft := by
  rw [addPart.eq_def]
  split
  next => exact absurd rfl h
  next => rfl

theorem optional?_ofInt {n : Int} (h : Word64 n) :
    (Item.ofInt n).optional? Item.integer? = some (some n) := by
  have read := integer?_ofInt h
  rw [Item.ofInt] at read ⊢
  split at read
  next nonneg =>
    rw [if_pos nonneg, Item.optional?, read, Option.map_some]
    simp
  next negative =>
    rw [if_neg negative, Item.optional?, read, Option.map_some]
    simp

variable {draft : Draft}

theorem addEntries_id {id : Int} (h : Word64 id) (levels : Nat) (free : draft.id = none) :
    addEntries levels (part "id" (some (.ofInt id))) draft =
      some { draft with id := some id } := by
  rw [addEntries_part (show _ = some 0 by decide), addPart_plain (by decide),
    addPlainPart, free, integer?_ofInt h]
  rfl

theorem addEntries_position {p : Option Int} (h : ∀ n ∈ p, Word64 n) (levels : Nat)
    (free : draft.position = none) :
    addEntries levels (part "position" (p.map .ofInt)) draft =
      some { draft with position := p.map some } := by
  cases p with
  | none => rw [Option.map_none, addEntries_absent, Option.map_none, ← free]
  | some n =>
      rw [Option.map_some, addEntries_part (show _ = some 3 by decide),
        addPart_plain (by decide), addPlainPart, free, optional?_ofInt (h n rfl)]
      rfl

theorem addEntries_swapPosition {p : Option Int} (h : ∀ n ∈ p, Word64 n) (levels : Nat)
    (free : draft.swapPosition = none) :
    addEntries levels (part "swap_position" (p.map .ofInt)) draft =
      some { draft with swapPosition := p.map some } := by
  cases p with
  | none => rw [Option.map_none, addEntries_absent, Option.map_none, ← free]
  | some n =>
      rw [Option.map_some, addEntries_part (show _ = some 4 by decide),
        addPart_plain (by decide), addPlainPart, free, optional?_ofInt (h n rfl)]
      rfl

theorem addEntries_deleted (d : Option Bool) (levels : Nat)
    (free : draft.deleted = none) :
    addEntries levels (part "deleted" (d.map .boolean)) draft =
      some { draft with deleted := d.map some } := by
  cases d with
  | none => rw [Option.map_none, addEntries_absent, Option.map_none, ← free]
  | some truth =>
      rw [Option.map_some, addEntries_part (show _ = some 5 by decide),
        addPart_plain (by decide), addPlainPart, free]
      rfl

/-- The fields are read back in their order, behind those found before. -/
theorem toFields_eq {fields : List (String × Value)} (h : ∀ x ∈ fields, x.2.Sendable)
    (levels : Nat) {found : List (String × Value)}
    (sorted : SortedList.Sorted Prod.fst (found ++ fields)) :
    toFields levels
      (fields.map (fun (name, value) => (Item.ofString name, ofValue value))) found =
        if fieldLevels fields ≤ levels then some (found ++ fields) else none := by
  induction fields generalizing found with
  | nil => rw [fieldLevels, if_pos (Nat.zero_le levels), List.append_nil]; rfl
  | cons x fields ih =>
      obtain ⟨name, value⟩ := x
      obtain ⟨first, rest⟩ := List.forall_mem_cons.mp h
      have largest : ∀ y ∈ found, y.1 < name := fun y hy =>
        (List.pairwise_append.mp sorted).2.2 y hy (name, value) List.mem_cons_self
      have placed : SortedList.insert Prod.fst (name, value) found =
          found ++ [(name, value)] :=
        SortedList.insert_eq_append largest
      rw [List.append_cons] at sorted
      rw [List.map_cons, toFields, string?_ofString, toValue_ofValue first]
      simp only [bind, Option.bind_some]
      by_cases own : value.levels ≤ levels
      · rw [if_pos own, Option.bind_some, placed, ih rest sorted, ← List.append_cons]
        have : fieldLevels ((name, value) :: fields) ≤ levels ↔
            fieldLevels fields ≤ levels := by
          rw [fieldLevels]
          omega
        simp only [this]
      · have : ¬ fieldLevels ((name, value) :: fields) ≤ levels := by
          rw [fieldLevels]
          omega
        rw [if_neg own, if_neg this]
        rfl

theorem addEntries_fields {fields : List (String × Value)}
    (h : ∀ x ∈ fields, x.2.Sendable) (sorted : SortedList.Sorted Prod.fst fields)
    (levels : Nat) (free : draft.fields = none) :
    addEntries levels (part "fields" (if fields.isEmpty then none
        else some (.map
          (fields.map (fun (name, value) => (.ofString name, ofValue value)))))) draft =
      if (if fields.isEmpty then 0 else fieldLevels fields + 1) ≤ levels then
        some { draft with fields := if fields.isEmpty then none else some fields }
      else none := by
  cases empty : fields.isEmpty with
  | true =>
      simp only [if_true, Nat.zero_le, addEntries_absent, ← free]
  | false =>
      simp only [Bool.false_eq_true, if_false]
      rw [addEntries_part (show _ = some 1 by decide), addPart_plain (by decide),
        addPlainPart, free, toFieldPart]
      cases levels with
      | zero => rfl
      | succ levels =>
          have all := @toFields_eq fields h levels [] sorted
          rw [List.nil_append] at all
          rw [if_neg (Nat.succ_ne_zero levels), Nat.succ_sub_one, all]
          by_cases room : fieldLevels fields ≤ levels
          · rw [if_pos room, if_pos (Nat.succ_le_succ room)]
            rfl
          · rw [if_neg room, if_neg (fun e => room (Nat.le_of_succ_le_succ e))]
            rfl

end Parts

section Messages

/-- The children are read back when their groups are. -/
theorem addEntries_children {children : List Group} {draft : Draft}
    (all : ∀ levels, toGroups levels (ofGroups children) [] =
      if groupLevels children ≤ levels then some children else none)
    (levels : Nat) (free : draft.children = none) :
    addEntries levels (part "children" (if children.isEmpty then none
        else some (.map (ofGroups children)))) draft =
      if (if children.isEmpty then 0 else groupLevels children + 1) ≤ levels then
        some { draft with children := if children.isEmpty then none else some children }
      else none := by
  cases empty : children.isEmpty with
  | true => simp only [if_true, Nat.zero_le, addEntries_absent, ← free]
  | false =>
      simp only [Bool.false_eq_true, if_false]
      rw [addEntries_part (show _ = some 2 by decide), addPart, free]
      cases levels with
      | zero => rfl
      | succ levels =>
          rw [Nat.succ_sub_one, all levels]
          by_cases room : groupLevels children ≤ levels
          · rw [if_pos room, if_pos (Nat.succ_le_succ room)]
            rfl
          · rw [if_neg room, if_neg (fun e => room (Nat.le_of_succ_le_succ e))]
            rfl

/-- A message is its draft, once all parts have been added. -/
theorem finish_eq (id : Int) (fields : List (String × Value)) (children : List Group)
    (position swapPosition : Option Int) (deleted : Option Bool) :
    Draft.finish ⟨some id, if fields.isEmpty then none else some fields,
      if children.isEmpty then none else some children, position.map some,
      swapPosition.map some, deleted.map some⟩ = some ⟨id, fields, children, position,
        swapPosition, deleted⟩ := by
  cases fields <;> cases children <;> cases position <;> cases swapPosition <;>
    cases deleted <;>
    rfl

mutual

/-- The item of a message stands for it, if the reader may go so deep. -/
theorem toMessage_ofMessage (levels : Nat) :
    (m : Message) → m.Sendable →
      toMessage levels (ofMessage m) = if m.levels ≤ levels then some m else none
  | ⟨id, fields, children, position, swapPosition, deleted⟩,
      .intro hid fieldsSorted _ values groupsSorted _ _ members hp hs => by
      rw [ofMessage, toMessage, Message.levels]
      cases levels with
      | zero => rw [if_pos rfl, if_neg (Nat.not_succ_le_zero _)]
      | succ levels =>
          have groups (levels : Nat) :=
            toGroups_ofGroups levels children members [] groupsSorted
          rw [if_neg (Nat.succ_ne_zero levels), Nat.succ_sub_one]
          simp only [addEntries_append, Option.bind_assoc]
          rw [addEntries_id hid levels rfl, Option.bind_some,
            addEntries_fields (fun x hx => (values x hx).2) fieldsSorted levels rfl]
          simp only [Nat.succ_le_succ_iff, max_le_iff]
          by_cases fieldsRoom : (if fields.isEmpty then 0 else fieldLevels fields + 1) ≤
            levels
          · rw [if_pos fieldsRoom, Option.bind_some, addEntries_children groups levels rfl]
            by_cases groupsRoom :
              (if children.isEmpty then 0 else groupLevels children + 1) ≤ levels
            · rw [if_pos groupsRoom, if_pos (And.intro fieldsRoom groupsRoom),
                Option.bind_some, addEntries_position hp levels rfl, Option.bind_some,
                addEntries_swapPosition hs levels rfl, Option.bind_some,
                addEntries_deleted deleted levels rfl, Option.bind_some]
              exact finish_eq id fields children position swapPosition deleted
            · rw [if_neg groupsRoom, if_neg (not_and_of_not_right _ groupsRoom)]
              rfl
          · rw [if_neg fieldsRoom, if_neg (not_and_of_not_left _ fieldsRoom)]
            rfl

/-- The groups are read back in their order, behind those found before. -/
theorem toGroups_ofGroups (levels : Nat) :
    (groups : List Group) → (∀ g ∈ groups, ∀ c ∈ g.members, c.Sendable) →
      ∀ found : List Group, SortedList.Sorted Group.name (found ++ groups) →
      toGroups levels (ofGroups groups) found =
        if groupLevels groups ≤ levels then some (found ++ groups) else none
  | [], _, found, _ => by
      rw [ofGroups, toGroups, groupLevels, if_pos (Nat.zero_le levels), List.append_nil]
  | ⟨name, members⟩ :: rest, sendable, found, sorted => by
      obtain ⟨first, others⟩ := List.forall_mem_cons.mp sendable
      have largest : ∀ g ∈ found, g.name < name := fun g hg =>
        (List.pairwise_append.mp sorted).2.2 g hg ⟨name, members⟩ List.mem_cons_self
      have placed : SortedList.insert Group.name ⟨name, members⟩ found =
          found ++ [⟨name, members⟩] :=
        SortedList.insert_eq_append largest
      rw [List.append_cons] at sorted
      rw [ofGroups, toGroups, string?_ofString, toMemberPart, groupLevels]
      simp only [bind, Option.bind_some]
      cases levels with
      | zero =>
          rw [if_pos rfl, if_neg (by omega)]
          rfl
      | succ levels =>
          rw [if_neg (Nat.succ_ne_zero levels), Nat.succ_sub_one,
            toMembers_ofMembers levels members first]
          by_cases own : memberLevels members ≤ levels
          · have room : max (memberLevels members + 1) (groupLevels rest) ≤ levels + 1 ↔
                groupLevels rest ≤ levels + 1 := by omega
            rw [if_pos own, Option.bind_some, placed,
              toGroups_ofGroups (levels + 1) rest others _ sorted, ← List.append_cons]
            simp only [room]
          · rw [if_neg own, if_neg (by omega)]
            rfl

theorem toMembers_ofMembers (levels : Nat) :
    (members : List Message) → (∀ m ∈ members, m.Sendable) →
      toMembers levels (ofMembers members) =
        if memberLevels members ≤ levels then some members else none
  | [], _ => by
      rw [ofMembers, toMembers, memberLevels, if_pos (Nat.zero_le levels)]
  | m :: rest, sendable => by
      obtain ⟨first, others⟩ := List.forall_mem_cons.mp sendable
      rw [ofMembers, toMembers, toMessage_ofMessage levels m first,
        toMembers_ofMembers levels rest others, memberLevels]
      simp only [max_le_iff]
      by_cases own : m.levels ≤ levels <;> by_cases room : memberLevels rest ≤ levels <;>
        simp [own, room]

end

end Messages

section Items

/-- An item can be written, and at most a number of arrays and maps stand inside each
other. -/
structure Item.Within (item : Item) (n : Nat) : Prop where
  fits : item.Fits
  levels : item.levels ≤ n

theorem Item.Within.mono {item : Item} {n k : Nat} (h : item.Within n) (more : n ≤ k) :
    item.Within k := ⟨h.fits, h.levels.trans more⟩

theorem Item.Within.array {items : List Item} {n : Nat}
    (length : items.length < 4294967296) (h : ∀ item ∈ items, item.Within n) :
    (Item.array items).Within (n + 1) where
  fits := .array length (fun item hitem => (h item hitem).fits)
  levels := by
    rw [Item.levels]
    exact Nat.succ_le_succ (levelsOfList_le_iff.mpr (fun item hitem => (h item hitem).levels))

theorem Item.Within.map {entries : List (Item × Item)} {n : Nat}
    (length : entries.length < 4294967296)
    (h : ∀ x ∈ entries, x.1.Within n ∧ x.2.Within n) :
    (Item.map entries).Within (n + 1) where
  fits := .map length (fun x hx => (h x hx).1.fits) (fun x hx => (h x hx).2.fits)
  levels := by
    rw [Item.levels]
    exact Nat.succ_le_succ
      (levelsOfEntries_le_iff.mpr (fun x hx => ⟨(h x hx).1.levels, (h x hx).2.levels⟩))

theorem within_ofString {s : String} (h : Brief s) (n : Nat) :
    (Item.ofString s).Within n :=
  ⟨.text h, Nat.zero_le n⟩

theorem within_ofInt {k : Int} (h : Word64 k) (n : Nat) : (Item.ofInt k).Within n := by
  obtain ⟨low, high⟩ := h
  rw [Item.ofInt]
  split
  · exact ⟨.unsigned (by omega), Nat.zero_le n⟩
  · exact ⟨.signed low high, Nat.zero_le n⟩

theorem within_boolean (truth : Bool) (n : Nat) : (Item.boolean truth).Within n :=
  ⟨.boolean truth, Nat.zero_le n⟩

/-- The packed value is a leaf or a map with one entry. -/
theorem within_ofValue {v : Value} (h : v.Sendable) :
    (ofValue v).Within (v.levels + 1) := by
  have entry {name : String} {content : Item} {n : Nat} (hname : Brief name)
      (inner : content.Within n) :
      (Item.map [(.ofString name, content)]).Within (n + 1) := by
    refine .map (show 1 < 4294967296 by decide) ?_
    rintro x (_ | ⟨_, ⟨⟩⟩)
    exact ⟨within_ofString hname n, inner⟩
  cases v with
  | null => exact within_ofString (by decide) _
  | text content => exact entry (by decide) (within_ofString h 0)
  | integer k => exact entry (by decide) (within_ofInt h 0)
  | real bits => exact entry (by decide) ⟨.binary64 bits, Nat.zero_le 0⟩
  | boolean truth => exact entry (by decide) (within_boolean truth 0)
  | bytes content =>
      refine entry (by decide) (.array (by rwa [List.length_map]) ?_)
      intro item hitem
      obtain ⟨b, -, rfl⟩ := List.mem_map.mp hitem
      have := b.toNat_lt
      exact ⟨.unsigned (by omega), Nat.zero_le 0⟩

theorem levels_le_fieldLevels {fields : List (String × Value)} {x : String × Value}
    (h : x ∈ fields) : x.2.levels ≤ fieldLevels fields := by
  induction fields with
  | nil => cases h
  | cons y rest ih =>
      obtain ⟨name, value⟩ := y
      rw [fieldLevels]
      rcases List.mem_cons.mp h with rfl | h
      · exact le_max_left _ _
      · exact (ih h).trans (le_max_right _ _)

/-- A part that is there is its name and its content. -/
theorem mem_part {name : String} {content : Option Item} {x : Item × Item} :
    x ∈ part name content ↔ x.1 = .ofString name ∧ content = some x.2 := by
  obtain ⟨key, value⟩ := x
  cases content with
  | none => simp [part]
  | some item => simp [part, Prod.ext_iff, eq_comm]

theorem length_part_le (name : String) (content : Option Item) :
    (part name content).length ≤ 1 := by
  cases content <;> simp [part]

theorem length_ofGroups (groups : List Group) :
    (ofGroups groups).length = groups.length := by
  induction groups with
  | nil => rw [ofGroups]; rfl
  | cons g rest ih =>
      obtain ⟨name, members⟩ := g
      rw [ofGroups, List.length_cons, ih, List.length_cons]

theorem length_ofMembers (members : List Message) :
    (ofMembers members).length = members.length := by
  induction members with
  | nil => rw [ofMembers]; rfl
  | cons m rest ih => rw [ofMembers, List.length_cons, ih, List.length_cons]

mutual

/-- The packed message can be written, and nests as deep as the message; the maps of
values are one level more. -/
theorem within_ofMessage :
    (m : Message) → m.Sendable → (ofMessage m).Within (m.levels + 1)
  | ⟨id, fields, children, position, swapPosition, deleted⟩,
      .intro hid _ fieldsLength values _ groupsLength names members hp hs => by
      -- the content of the largest parts
      have packed : (Item.map (fields.map (fun (name, value) =>
          (Item.ofString name, ofValue value)))).Within (fieldLevels fields + 1 + 1) := by
        refine .map (by rwa [List.length_map]) ?_
        intro x hx
        obtain ⟨y, hy, rfl⟩ := List.mem_map.mp hx
        obtain ⟨brief, sendable⟩ := values y hy
        exact ⟨within_ofString brief _, (within_ofValue sendable).mono
          (Nat.succ_le_succ (levels_le_fieldLevels hy))⟩
      have groups : (Item.map (ofGroups children)).Within (groupLevels children + 1 + 1) :=
        .map (by rwa [length_ofGroups]) (within_ofGroups children names members)
      have brief : ∀ name ∈ partNames, Brief name := by decide
      rw [ofMessage, Message.levels]
      refine .map ?_ ?_
      · simp only [List.length_append]
        grind [length_part_le]
      · intro x hx
        simp only [List.mem_append, mem_part] at hx
        rcases hx
          with ((((⟨key, content⟩ | ⟨key, content⟩) | ⟨key, content⟩) | ⟨key, content⟩) |
          ⟨key, content⟩) | ⟨key, content⟩ <;>
          refine ⟨key ▸ within_ofString (brief _ (by decide)) _, ?_⟩
        · exact Option.some.inj content ▸ within_ofInt hid _
        · split at content
          · cases content
          next some =>
            rw [if_neg some, ← Option.some.inj content]
            exact packed.mono (by omega)
        · split at content
          · cases content
          next some =>
            rw [if_neg some, ← Option.some.inj content]
            exact groups.mono (by omega)
        · obtain ⟨n, hn, eq⟩ := Option.map_eq_some_iff.mp content
          exact eq ▸ within_ofInt (hp n hn) _
        · obtain ⟨n, hn, eq⟩ := Option.map_eq_some_iff.mp content
          exact eq ▸ within_ofInt (hs n hn) _
        · obtain ⟨truth, -, eq⟩ := Option.map_eq_some_iff.mp content
          exact eq ▸ within_boolean truth _

theorem within_ofGroups :
    (groups : List Group) → (∀ g ∈ groups, Brief g.name ∧ g.members.length < 4294967296) →
      (∀ g ∈ groups, ∀ c ∈ g.members, c.Sendable) →
      ∀ x ∈ ofGroups groups, x.1.Within (groupLevels groups + 1) ∧
        x.2.Within (groupLevels groups + 1)
  | [], _, _ => by
      rw [ofGroups]
      exact fun x hx => absurd hx List.not_mem_nil
  | ⟨name, members⟩ :: rest, names, sendable => by
      obtain ⟨⟨brief, length⟩, others⟩ := List.forall_mem_cons.mp names
      obtain ⟨first, later⟩ := List.forall_mem_cons.mp sendable
      have own := within_ofMembers members first
      have groups := within_ofGroups rest others later
      rw [ofGroups, groupLevels]
      refine List.forall_mem_cons.mpr ⟨⟨within_ofString brief _, ?_⟩, fun x hx => ?_⟩
      · refine (Item.Within.array (by rwa [length_ofMembers]) own).mono ?_
        omega
      · exact (groups x hx).imp (fun key => key.mono (by omega))
          (fun item => item.mono (by omega))

theorem within_ofMembers :
    (members : List Message) → (∀ m ∈ members, m.Sendable) →
      ∀ item ∈ ofMembers members, item.Within (memberLevels members + 1)
  | [], _ => by
      rw [ofMembers]
      exact fun x hx => absurd hx List.not_mem_nil
  | m :: rest, sendable => by
      obtain ⟨first, others⟩ := List.forall_mem_cons.mp sendable
      have own := within_ofMessage m first
      have later := within_ofMembers rest others
      rw [ofMembers, memberLevels]
      refine List.forall_mem_cons.mpr ⟨own.mono ?_,
        fun item hitem => (later item hitem).mono ?_⟩
      · omega
      · omega

end

end Items

section RoundTrip

variable {α : Type} {interpret : Item → Option α} {item : Item}

/-- What a written item stands for is decoded, whatever follows. -/
theorem decodeWith_write {x : α} (h : item.Within (maxLevels + 1))
    (stands : interpret item = some x) (rest : Bytes) :
    decodeWith interpret (item.write ++ rest) = .ok x := by
  simp only [decodeWith, h.fits.readItem_write h.levels, Option.bind_some, stands]

/-- A written item that stands for nothing is not decoded. -/
theorem decodeWith_refused (h : item.Fits) (stands : interpret item = none)
    (rest : Bytes) : decodeWith interpret (item.write ++ rest) = .error .unreadable := by
  rcases h.readItem_write_cases (maxLevels + 1) rest with read | read
  · simp only [decodeWith, read, Option.bind_none]
  · simp only [decodeWith, read, Option.bind_some, stands]

/-- A part of a written item is not decoded. -/
theorem decodeWith_of_prefix (h : item.Fits) {start missing : Bytes}
    (whole : start ++ missing = item.write) (strict : missing ≠ []) :
    decodeWith interpret start = .error .unreadable := by
  simp only [decodeWith, h.readItem_of_prefix whole strict, Option.bind_none]

/-- A packed value is unpacked, whatever follows it. -/
theorem decode_encode_value {v : Value} (h : v.Sendable) (rest : Bytes) :
    Value.decode (v.encode ++ rest) = .ok v := by
  have shallow : v.levels ≤ maxLevels := by
    cases v <;> simp [Value.levels, maxLevels]
  refine decodeWith_write ((within_ofValue h).mono (Nat.succ_le_succ shallow)) ?_ rest
  rw [toValue_ofValue h, if_pos shallow]

/-- A packed message is unpacked, whatever follows it, unless it goes deeper than the
reader. -/
theorem decode_encode_message {m : Message} (h : m.Sendable) (rest : Bytes) :
    Message.decode (m.encode ++ rest) =
      if m.levels ≤ maxLevels then .ok m else .error .unreadable := by
  have within := within_ofMessage m h
  have stands := toMessage_ofMessage maxLevels m h
  split
  next shallow =>
    rw [if_pos shallow] at stands
    exact decodeWith_write (within.mono (Nat.succ_le_succ shallow)) stands rest
  next deep =>
    rw [if_neg deep] at stands
    exact decodeWith_refused within.fits stands rest

/-- What was packed is unpacked, whatever follows it, if it goes no deeper than the
reader, and no part of it that is not the whole can be unpacked. -/
theorem round_trip :
    (∀ v : Value, v.Sendable →
      (∀ rest, Value.decode (v.encode ++ rest) = .ok v) ∧
      ∀ start missing, start ++ missing = v.encode → missing ≠ [] →
        Value.decode start = .error .unreadable) ∧
    ∀ m : Message, m.Sendable →
      (∀ rest, Message.decode (m.encode ++ rest) =
        if m.levels ≤ maxLevels then .ok m else .error .unreadable) ∧
      ∀ start missing, start ++ missing = m.encode → missing ≠ [] →
        Message.decode start = .error .unreadable := by
  refine ⟨fun v h => ⟨decode_encode_value h, ?_⟩, fun m h => ⟨decode_encode_message h, ?_⟩⟩
  · exact fun start missing whole strict =>
      decodeWith_of_prefix (within_ofValue h).fits whole strict
  · exact fun start missing whole strict =>
      decodeWith_of_prefix (within_ofMessage m h).fits whole strict

/-- A message with a NaN, with bytes, with an element that moved and with a set without
elements is unpacked when something follows it, and is not when its last byte is missing;
so is the least number. -/
theorem round_trip_of_nested :
    ∃ m : Message, m.Sendable ∧ m.levels = 6 ∧
      Message.decode (m.encode ++ [0xc1]) = .ok m ∧
      Message.decode m.encode.dropLast = .error .unreadable ∧
      Value.decode (Value.integer (-9223372036854775808)).encode =
        .ok (.integer (-9223372036854775808)) := by
  have moved :
      Message.Sendable ⟨11, [("data", .bytes [0, 127, 128, 255])], [], some 3, some (-1),
      some false⟩ := by
    refine .intro (by decide) (List.pairwise_singleton _ _) (by decide) (by decide)
      List.Pairwise.nil (by decide) (by decide) (fun _ h => absurd h List.not_mem_nil) ?_ ?_
    · rintro p ⟨⟩
      decide
    · rintro p ⟨⟩
      decide
  have whole : Message.Sendable ⟨-129, [("ratio", .real 0x7ff8000000000001)],
      [⟨"access", []⟩,
        ⟨"tasks",
          [⟨11, [("data", .bytes [0, 127, 128, 255])], [], some 3, some (-1),
            some false⟩]⟩], none, none, none⟩ := by
    refine .intro (by decide) (List.pairwise_singleton _ _) (by decide) (by decide)
      (List.pairwise_pair.mpr (by decide)) (by decide) ?_ ?_ ?_ ?_
    · simp only [List.forall_mem_cons]
      exact ⟨by decide, by decide, fun _ h => absurd h List.not_mem_nil⟩
    · simp only [List.forall_mem_cons]
      exact ⟨fun _ h => absurd h List.not_mem_nil,
        ⟨moved, fun _ h => absurd h List.not_mem_nil⟩,
        fun _ h => absurd h List.not_mem_nil⟩
    · rintro p ⟨⟩
    · rintro p ⟨⟩
  obtain ⟨values, messages⟩ := round_trip
  obtain ⟨longer, shorter⟩ := messages _ whole
  obtain ⟨number, -⟩ := values (.integer (-9223372036854775808)) (by decide)
  have last := number []
  rw [List.append_nil] at last
  refine ⟨_, whole, by decide, longer [0xc1], ?_, last⟩
  exact shorter _ _ (List.dropLast_append_getLast (by decide)) (List.cons_ne_nil _ _)

end RoundTrip

end Packed
end RecordSync
