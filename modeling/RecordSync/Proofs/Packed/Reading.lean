import Mathlib.Tactic.Ring
import RecordSync.Packed.Reader

/-!
# Packed items are read back

An item that was written is read back from the front of any bytes that start with it, and
from no part of its own bytes.

**Heads.**  Every kind of length is written in one of four forms;
`Opening.read_writeLength` reads them back for all kinds at once.

**Prefixes.**  A reader is stable when bytes that are added at the end only stay over
(`Packed.Stable`).  A stable reader that has read an item from a prefix would read it from
the whole with bytes left over, so a prefix holds no item.

**Results.**
* `Item.Fits.readItem_write`: a written item is read back.
* `Item.Fits.readItem_write_cases`: what is read of a written item is that item, or
  nothing when it nests too deep.
* `Item.Fits.readItem_of_prefix`: nothing is read of a part of a written item.
-/

namespace RecordSync
namespace Packed

section Numbers

theorem length_bigEndian (width n : Nat) : (bigEndian width n).length = width := by
  induction width with
  | zero => rfl
  | succ width ih => rw [bigEndian, List.length_cons, ih]

/-- The bytes of a number are read from the highest on. -/
theorem foldl_bigEndian (width n acc : Nat) :
    (bigEndian width n).foldl (fun acc b => acc * 256 + b.toNat) acc =
      acc * 256 ^ width + n % 256 ^ width := by
  induction width generalizing acc with
  | zero => simp [bigEndian, Nat.mod_one]
  | succ width ih =>
      have shift : n >>> (8 * width) = n / 256 ^ width := by
        rw [Nat.shiftRight_eq_div_pow, Nat.pow_mul]
      have split : n % 256 ^ (width + 1) =
          n % 256 ^ width + 256 ^ width * (n / 256 ^ width % 256) := Nat.mod_pow_succ
      rw [bigEndian, List.foldl_cons, ih, UInt8.toNat_ofNat', shift, split]
      ring

theorem ofBigEndian_bigEndian {width n : Nat} (h : n < 256 ^ width) :
    ofBigEndian (bigEndian width n) = n := by
  rw [ofBigEndian, foldl_bigEndian, Nat.zero_mul, Nat.zero_add, Nat.mod_eq_of_lt h]

theorem takeBytes_append (bytes rest : Bytes) :
    takeBytes bytes.length (bytes ++ rest) = some (bytes, rest) := by
  simp [takeBytes]

theorem takeNumber_bigEndian {width n : Nat} (h : n < 256 ^ width) (rest : Bytes) :
    takeNumber width (bigEndian width n ++ rest) = some (n, rest) := by
  have taken := takeBytes_append (bigEndian width n) rest
  rw [length_bigEndian] at taken
  rw [takeNumber, taken]
  exact congrArg some (Prod.ext (ofBigEndian_bigEndian h) rfl)

end Numbers

namespace Opening

section Numbers

theorem unsigned_bigEndian (width : Nat) {n : Nat} (h : n < 256 ^ width) (rest : Bytes) :
    unsigned width (bigEndian width n ++ rest) = some (.leaf (.unsigned n), rest) := by
  rw [unsigned, takeNumber_bigEndian h]
  rfl

theorem read_writeUnsigned {n : Nat} (h : n < 18446744073709551616) (rest : Bytes) :
    read (writeUnsigned n ++ rest) = some (.leaf (.unsigned n), rest) := by
  rw [writeUnsigned]
  split
  next small =>
    have code : (UInt8.ofNat n).toNat = n := by
      rw [UInt8.toNat_ofNat']
      omega
    simp only [List.singleton_append, read, code, small, if_true]
  · split
    · exact unsigned_bigEndian 1 (by omega) rest
    · split
      · exact unsigned_bigEndian 2 (by omega) rest
      · split
        · exact unsigned_bigEndian 4 (by omega) rest
        · exact unsigned_bigEndian 8 (by omega) rest

/-- A number is read back from its two's complement, of which `half` patterns stand for no
negative number. -/
theorem signed_bigEndian (width : Nat) {half : Nat} (hhalf : 1 <<< (8 * width - 1) = half)
    (hwhole : 1 <<< (8 * width) = 2 * half) (room : 2 * half = 256 ^ width) {n : Int}
    (low : -half ≤ n) (high : n < half) (rest : Bytes) :
    signed width (bigEndian width (n % (2 * half : Nat)).toNat ++ rest) =
      some (.leaf (.signed n), rest) := by
  have pattern : n % (2 * half : Nat) = if 0 ≤ n then n else n + (2 * half : Nat) := by
    split
    · exact Int.emod_eq_of_lt (by omega) (by omega)
    · rw [← Int.add_emod_right]
      exact Int.emod_eq_of_lt (by omega) (by omega)
  have back : ofTwosComplement width (n % (2 * half : Nat)).toNat = n := by
    rw [ofTwosComplement, hhalf, hwhole, pattern]
    split <;> split <;> omega
  have fits : (n % (2 * half : Nat)).toNat < 256 ^ width := by
    rw [← room, pattern]
    split <;> omega
  rw [signed, takeNumber_bigEndian fits, Option.map_some]
  simp only [back]

theorem read_writeSigned {n : Int} (low : -9223372036854775808 ≤ n)
    (high : n < 9223372036854775808) (rest : Bytes) :
    read (writeSigned n ++ rest) = some (.leaf (.signed n), rest) := by
  rw [writeSigned]
  split
  next small =>
    have code : (UInt8.ofNat (n + 256).toNat).toNat = (n + 256).toNat := by
      rw [UInt8.toNat_ofNat']
      omega
    have back : (((n + 256).toNat : Nat) : Int) - 256 = n := by omega
    simp only [List.singleton_append, read, code]
    rw [if_neg (by omega), if_neg (by omega), if_neg (by omega), if_neg (by omega),
      if_pos (by omega), back]
  · split
    next fits => exact signed_bigEndian 1 rfl rfl rfl fits.1 fits.2 rest
    · split
      next fits => exact signed_bigEndian 2 rfl rfl rfl fits.1 fits.2 rest
      · split
        next fits => exact signed_bigEndian 4 rfl rfl rfl fits.1 fits.2 rest
        · exact signed_bigEndian 8 rfl rfl rfl low high rest

theorem read_binary32 (bits : UInt32) (rest : Bytes) :
    read ((Item.binary32 bits).write ++ rest) = some (.leaf (.binary32 bits), rest) := by
  have fits : bits.toNat < 256 ^ 4 := bits.toNat_lt
  have opens : read ((Item.binary32 bits).write ++ rest) =
      (takeNumber 4 (bigEndian 4 bits.toNat ++ rest)).map
        (fun result => (.leaf (.binary32 (UInt32.ofNat result.1)), result.2)) := rfl
  rw [opens, takeNumber_bigEndian fits, Option.map_some]
  simp only [UInt32.ofNat_toNat]

theorem read_binary64 (bits : UInt64) (rest : Bytes) :
    read ((Item.binary64 bits).write ++ rest) = some (.leaf (.binary64 bits), rest) := by
  have fits : bits.toNat < 256 ^ 8 := bits.toNat_lt
  have opens : read ((Item.binary64 bits).write ++ rest) =
      (takeNumber 8 (bigEndian 8 bits.toNat ++ rest)).map
        (fun result => (.leaf (.binary64 (UInt64.ofNat result.1)), result.2)) := rfl
  rw [opens, takeNumber_bigEndian fits, Option.map_some]
  simp only [UInt64.ofNat_toNat]

end Numbers

section Lengths

/-- The lead bytes of a kind of length: in each form the length is followed by what it
opens. -/
structure Forms (short room : Nat) (one : Option UInt8) (two four : UInt8)
    (opens : Nat → Bytes → Option (Opening × Bytes)) : Prop where
  inLead : ∀ n, n < room → ∀ rest, read (UInt8.ofNat (short + n) :: rest) = opens n rest
  inOne : ∀ lead ∈ one, ∀ rest, read (lead :: rest) =
    (takeNumber 1 rest).bind (fun (n, rest) => opens n rest)
  inTwo : ∀ rest, read (two :: rest) =
    (takeNumber 2 rest).bind (fun (n, rest) => opens n rest)
  inFour : ∀ rest, read (four :: rest) =
    (takeNumber 4 rest).bind (fun (n, rest) => opens n rest)

/-- A length is read back in each of its forms. -/
theorem Forms.read_writeLength {short room : Nat} {one : Option UInt8} {two four : UInt8}
    {opens : Nat → Bytes → Option (Opening × Bytes)}
    (forms : Forms short room one two four opens) {n : Nat} (h : n < 4294967296)
    (rest : Bytes) :
    read (writeLength short room one two four n ++ rest) = opens n rest := by
  -- what is read after a lead byte that tells the width of the length
  have wide {lead : UInt8} {width : Nat} (reads : ∀ rest, read (lead :: rest) =
      (takeNumber width rest).bind (fun (n, rest) => opens n rest)) (fits : n <
        256 ^ width) :
      read (lead :: bigEndian width n ++ rest) = opens n rest := by
    rw [List.cons_append, reads, takeNumber_bigEndian fits, Option.bind_some]
  rw [writeLength.eq_def]
  split
  next small => exact forms.inLead n small rest
  · cases one with
    | some lead =>
        dsimp only
        split
        · exact wide (forms.inOne lead rfl) (by omega)
        · split
          · exact wide forms.inTwo (by omega)
          · exact wide forms.inFour (by omega)
    | none =>
        dsimp only
        split
        · exact wide forms.inTwo (by omega)
        · exact wide forms.inFour (by omega)

theorem toNat_lead {short n : Nat} (h : short + n < 256) :
    (UInt8.ofNat (short + n)).toNat = short + n := by
  rw [UInt8.toNat_ofNat']
  omega

theorem forms_text : Forms 0xa0 32 (some 0xd9) 0xda 0xdb (content .text) where
  inLead n hn rest := by
    simp only [read, toNat_lead (show 0xa0 + n < 256 by omega)]
    rw [if_neg (by omega), if_neg (by omega), if_neg (by omega), if_pos (by omega),
      Nat.add_sub_cancel_left]
  inOne lead hlead rest := by
    cases hlead
    rfl
  inTwo _ := rfl
  inFour _ := rfl

theorem forms_binary : Forms 0 0 (some 0xc4) 0xc5 0xc6 (content .binary) where
  inLead n hn := absurd hn (Nat.not_lt_zero n)
  inOne lead hlead rest := by
    cases hlead
    rfl
  inTwo _ := rfl
  inFour _ := rfl

theorem forms_extension : Forms 0 0 (some 0xc7) 0xc8 0xc9 extension where
  inLead n hn := absurd hn (Nat.not_lt_zero n)
  inOne lead hlead rest := by
    cases hlead
    rfl
  inTwo _ := rfl
  inFour _ := rfl

theorem sized_eq (make : Nat → Opening) (width : Nat) (input : Bytes) :
    sized make width input =
      (takeNumber width input).bind (fun (n, rest) => some (make n, rest)) := by
  rw [sized, Option.map_eq_bind]
  rfl

theorem forms_array :
    Forms 0x90 16 none 0xdc 0xdd (fun n rest => some (.array n, rest)) where
  inLead n hn rest := by
    simp only [read, toNat_lead (show 0x90 + n < 256 by omega)]
    rw [if_neg (by omega), if_neg (by omega), if_pos (by omega), Nat.add_sub_cancel_left]
  inOne lead hlead := by cases hlead
  inTwo := sized_eq .array 2
  inFour := sized_eq .array 4

theorem forms_map : Forms 0x80 16 none 0xde 0xdf (fun n rest => some (.map n, rest)) where
  inLead n hn rest := by
    simp only [read, toNat_lead (show 0x80 + n < 256 by omega)]
    rw [if_neg (by omega), if_pos (by omega), Nat.add_sub_cancel_left]
  inOne lead hlead := by cases hlead
  inTwo := sized_eq .map 2
  inFour := sized_eq .map 4

theorem content_append (make : Bytes → Item) (bytes rest : Bytes) :
    content make bytes.length (bytes ++ rest) = some (.leaf (make bytes), rest) := by
  rw [content, takeBytes_append]
  rfl

theorem extension_append (tag : UInt8) (bytes rest : Bytes) :
    extension bytes.length (tag :: bytes ++ rest) =
      some (.leaf (.extension tag bytes), rest) :=
  content_append (.extension tag) bytes rest

end Lengths

end Opening

section Writing

/-- The numbers and the lengths in an item are those of the packed format. -/
inductive Item.Fits : Item → Prop
  | nil : Fits .nil
  | boolean (truth : Bool) : Fits (.boolean truth)
  | unsigned {n : Nat} : n < 18446744073709551616 → Fits (.unsigned n)
  | signed {n : Int} : -9223372036854775808 ≤ n → n < 9223372036854775808 →
      Fits (.signed n)
  | binary32 (bits : UInt32) : Fits (.binary32 bits)
  | binary64 (bits : UInt64) : Fits (.binary64 bits)
  | text {content : Bytes} : content.length < 4294967296 → Fits (.text content)
  | binary {content : Bytes} : content.length < 4294967296 → Fits (.binary content)
  | array {items : List Item} :
      items.length < 4294967296 → (∀ item ∈ items, Fits item) → Fits (.array items)
  | map {entries : List (Item × Item)} :
      entries.length < 4294967296 → (∀ x ∈ entries, Fits x.1) →
      (∀ x ∈ entries, Fits x.2) →
        Fits (.map entries)
  | extension {tag : UInt8} {content : Bytes} :
      content.length < 4294967296 → Fits (.extension tag content)

theorem writeItems_eq (items : List Item) :
    writeItems items = items.flatMap Item.write := by
  induction items with
  | nil => rfl
  | cons item rest ih => rw [writeItems, ih, List.flatMap_cons]

theorem writeEntries_eq (entries : List (Item × Item)) :
    writeEntries entries = entries.flatMap (fun x => x.1.write ++ x.2.write) := by
  induction entries with
  | nil => rfl
  | cons x rest ih =>
      obtain ⟨key, value⟩ := x
      rw [writeEntries, ih, List.flatMap_cons, List.append_assoc]

theorem Item.levelsOfList_le_iff {items : List Item} {n : Nat} :
    levelsOfList items ≤ n ↔ ∀ item ∈ items, item.levels ≤ n := by
  induction items with
  | nil => simp [levelsOfList]
  | cons item rest ih => rw [levelsOfList, max_le_iff, ih, List.forall_mem_cons]

theorem Item.levelsOfEntries_le_iff {entries : List (Item × Item)} {n : Nat} :
    levelsOfEntries entries ≤ n ↔ ∀ x ∈ entries, x.1.levels ≤ n ∧ x.2.levels ≤ n := by
  induction entries with
  | nil => simp [levelsOfEntries]
  | cons x rest ih =>
      obtain ⟨key, value⟩ := x
      rw [levelsOfEntries, max_le_iff, max_le_iff, ih, List.forall_mem_cons]

/-- Things that were written one after another are read back in their order. -/
theorem readMany_flatMap {α : Type} {one : Bytes → Option (α × Bytes)} {write : α → Bytes}
    {xs : List α} (h : ∀ x ∈ xs, ∀ rest, one (write x ++ rest) = some (x, rest))
    (found : List α) (rest : Bytes) :
    readMany one xs.length found (xs.flatMap write ++ rest) =
      some (found.reverse ++ xs, rest) := by
  induction xs generalizing found with
  | nil =>
      rw [List.append_nil]
      rfl
  | cons x xs ih =>
      rw [List.flatMap_cons, List.append_assoc, List.length_cons, readMany,
        h x List.mem_cons_self]
      dsimp only
      rw [ih (fun y hy => h y (List.mem_cons_of_mem _ hy)), List.reverse_cons,
        List.append_assoc]
      rfl

/-- A leaf is read back whole. -/
theorem readItem_of_leaf {input rest : Bytes} {item : Item}
    (h : Opening.read input = some (.leaf item, rest)) (nesting : Nat) :
    readItem nesting input = some (item, rest) := by
  rw [readItem.eq_def, h]

/-- An array is read back when its items are. -/
theorem readItem_array {items : List Item} (fits : items.length < 4294967296)
    {inner : Nat} (parts : ∀ item ∈ items, ∀ rest,
      readItem inner (item.write ++ rest) = some (item, rest))
    (rest : Bytes) :
    readItem (inner + 1) ((Item.array items).write ++ rest) =
      some (.array items, rest) := by
  rw [readItem.eq_def, Item.write, List.append_assoc,
    Opening.forms_array.read_writeLength fits, writeItems_eq]
  simp only [readMany_flatMap parts, Option.map_some, List.reverse_nil, List.nil_append]

/-- A map is read back when its keys and values are. -/
theorem readItem_map {entries : List (Item × Item)} (fits : entries.length < 4294967296)
    {inner : Nat}
    (keys : ∀ x ∈ entries, ∀ rest, readItem inner (x.1.write ++ rest) = some (x.1, rest))
    (values : ∀ x ∈ entries, ∀ rest, readItem inner (x.2.write ++ rest) = some (x.2, rest))
    (rest : Bytes) :
    readItem (inner + 1) ((Item.map entries).write ++ rest) =
      some (.map entries, rest) := by
  have parts : ∀ x ∈ entries, ∀ rest,
      readPair (readItem inner) ((x.1.write ++ x.2.write) ++ rest) = some (x, rest) := by
    intro x hx rest
    simp only [readPair, List.append_assoc, keys x hx, values x hx, Option.map_some]
  rw [readItem.eq_def, Item.write, List.append_assoc, Opening.forms_map.read_writeLength fits,
    writeEntries_eq]
  simp only [readMany_flatMap parts, Option.map_some, List.reverse_nil, List.nil_append]

/-- A written item is read back from the front of any bytes that start with it. -/
theorem Item.Fits.readItem_write {item : Item} (h : item.Fits) {nesting : Nat}
    (room : item.levels ≤ nesting) (rest : Bytes) :
    readItem nesting (item.write ++ rest) = some (item, rest) := by
  induction h generalizing nesting rest with
  | nil => exact readItem_of_leaf rfl nesting
  | boolean truth => cases truth <;> exact readItem_of_leaf rfl nesting
  | unsigned fits => exact readItem_of_leaf (Opening.read_writeUnsigned fits rest) nesting
  | signed low high =>
      exact readItem_of_leaf (Opening.read_writeSigned low high rest) nesting
  | binary32 bits => exact readItem_of_leaf (Opening.read_binary32 bits rest) nesting
  | binary64 bits => exact readItem_of_leaf (Opening.read_binary64 bits rest) nesting
  | @text bytes fits =>
      refine readItem_of_leaf ?_ nesting
      rw [Item.write, List.append_assoc, Opening.forms_text.read_writeLength fits,
        Opening.content_append]
  | binary fits =>
      refine readItem_of_leaf ?_ nesting
      rw [Item.write, List.append_assoc, Opening.forms_binary.read_writeLength fits,
        Opening.content_append]
  | extension fits =>
      refine readItem_of_leaf ?_ nesting
      rw [Item.write, List.append_assoc, Opening.forms_extension.read_writeLength fits,
        Opening.extension_append]
  | @array items fits _ ih =>
      rw [levels] at room
      obtain ⟨inner, rfl⟩ :=
        Nat.exists_eq_add_of_le' (Nat.lt_of_lt_of_le (Nat.succ_pos _) room)
      have within := levelsOfList_le_iff.mp (Nat.le_of_succ_le_succ room)
      exact readItem_array fits (fun item hitem => ih item hitem (within item hitem)) rest
  | @map entries fits _ _ ihKey ihValue =>
      rw [levels] at room
      obtain ⟨inner, rfl⟩ :=
        Nat.exists_eq_add_of_le' (Nat.lt_of_lt_of_le (Nat.succ_pos _) room)
      have within := levelsOfEntries_le_iff.mp (Nat.le_of_succ_le_succ room)
      exact readItem_map fits (fun x hx => ihKey x hx (within x hx).1)
        (fun x hx => ihValue x hx (within x hx).2) rest

end Writing

section Prefixes

variable {α β : Type}

/-- What is read off some bytes is read off longer ones too, and the added bytes stay
over. -/
def Stable (read : Bytes → Option (α × Bytes)) : Prop :=
  ∀ input x rest, read input = some (x, rest) →
    ∀ more, read (input ++ more) = some (x, rest ++ more)

namespace Stable

variable {read : Bytes → Option (α × Bytes)}

theorem some (x : α) : Stable (fun input => some (x, input)) := by
  rintro input y rest ⟨⟩ more
  rfl

theorem none : Stable (fun _ => (none : Option (α × Bytes))) := by
  rintro input y rest ⟨⟩

theorem bind (h : Stable read) {next : α → Bytes → Option (β × Bytes)}
    (h' : ∀ x, Stable (next x)) :
    Stable (fun input => (read input).bind (fun (x, rest) => next x rest)) := by
  intro input y rest eq more
  obtain ⟨⟨x, middle⟩, first, second⟩ := Option.bind_eq_some_iff.mp eq
  simp only [h input x middle first more, Option.bind_some]
  exact h' x middle y rest second more

theorem map (h : Stable read) (f : α → β) :
    Stable (fun input => (read input).map (fun (x, rest) => (f x, rest))) := by
  intro input y rest eq more
  obtain ⟨⟨x, middle⟩, first, second⟩ := Option.map_eq_some_iff.mp eq
  simp only [h input x middle first more, Option.map_some]
  cases second
  rfl

/-- A reader that looks at the first byte. -/
theorem cons {next : UInt8 → Bytes → Option (α × Bytes)}
    (nil : read [] = .none) (cons : ∀ lead rest, read (lead :: rest) = next lead rest)
    (h : ∀ lead, Stable (next lead)) : Stable read := by
  intro input x rest eq more
  cases input with
  | nil => simp [nil] at eq
  | cons lead input =>
      rw [cons] at eq
      rw [List.cons_append, cons]
      exact h lead input x rest eq more

end Stable

theorem stable_takeBytes (n : Nat) : Stable (takeBytes n) := by
  intro input x rest eq more
  simp only [takeBytes] at eq ⊢
  split at eq
  next whole =>
    cases eq
    rw [List.length_take] at whole
    have room : n ≤ input.length := by omega
    rw [List.take_append_of_le_length room, List.drop_append_of_le_length room,
      if_pos (by rw [List.length_take]; omega)]
  next => cases eq

theorem stable_takeNumber (width : Nat) : Stable (takeNumber width) :=
  (stable_takeBytes width).map ofBigEndian

namespace Opening

theorem stable_content (make : Bytes → Item) (size : Nat) : Stable (content make size) :=
  (stable_takeBytes size).map (fun bytes => Opening.leaf (make bytes))

theorem stable_sizedContent (make : Bytes → Item) (width : Nat) :
    Stable (sizedContent make width) :=
  (stable_takeNumber width).bind (stable_content make)

theorem stable_extension (size : Nat) : Stable (extension size) :=
  .cons rfl (fun _ _ => rfl) (fun tag => stable_content (.extension tag) size)

theorem stable_sizedExtension (width : Nat) : Stable (sizedExtension width) :=
  (stable_takeNumber width).bind stable_extension

/-- A number of some width, whatever it stands for. -/
theorem stable_number (width : Nat) (make : Nat → Opening) :
    Stable (fun input => (takeNumber width input).map (fun (n, rest) => (make n, rest))) :=
  (stable_takeNumber width).map make

/-- Each lead byte is followed by something of known width, or by a length and what it
opens. -/
theorem stable_read_cons (lead : UInt8) : Stable (fun rest => read (lead :: rest)) := by
  simp only [read]
  generalize lead.toNat = code
  split_ifs
  · exact .some _
  · exact .some _
  · exact .some _
  · exact stable_content _ _
  · exact .some _
  · split <;> first
      | exact .some _
      | exact .none
      | exact stable_number _ (fun n => .leaf (.unsigned n))
      | exact stable_number _ (fun n => .leaf (.signed (ofTwosComplement _ n)))
      | exact stable_number _ (fun n => .leaf (.binary32 (UInt32.ofNat n)))
      | exact stable_number _ (fun n => .leaf (.binary64 (UInt64.ofNat n)))
      | exact stable_number _ .array
      | exact stable_number _ .map
      | exact stable_sizedContent _ _
      | exact stable_extension _
      | exact stable_sizedExtension _

theorem stable_read : Stable read :=
  .cons rfl (fun _ _ => rfl) stable_read_cons

end Opening

theorem stable_readMany {one : Bytes → Option (α × Bytes)} (h : Stable one) (n : Nat)
    (found : List α) : Stable (readMany one n found) := by
  induction n generalizing found with
  | zero =>
      rintro input x rest ⟨⟩ more
      rfl
  | succ n ih =>
      intro input xs rest eq more
      rw [readMany] at eq ⊢
      cases first : one input with
      | none => simp [first] at eq
      | some result =>
          obtain ⟨x, middle⟩ := result
          simp only [first] at eq
          simp only [h input x middle first more]
          exact ih (x :: found) middle xs rest eq more

theorem stable_readPair {one : Bytes → Option (α × Bytes)} (h : Stable one) :
    Stable (readPair one) := by
  have same : readPair one = fun input =>
      (one input).bind
        (fun (x, rest) => (one rest).map (fun (y, rest) => ((x, y), rest))) := by
    funext input
    rw [readPair]
    cases one input <;> rfl
  rw [same]
  exact h.bind (fun x => h.map (fun y => (x, y)))

/-- The rest of an item after what stands at its front. -/
def readRest : Nat → Opening → Bytes → Option (Item × Bytes)
  | _, .leaf item, rest => some (item, rest)
  | inner + 1, .array size, rest =>
    (readMany (readItem inner) size [] rest).map (fun (items, rest) => (.array items, rest))
  | inner + 1, .map size, rest =>
    (readMany (readPair (readItem inner)) size [] rest).map
      (fun (entries, rest) => (.map entries, rest))
  | 0, _, _ => none

theorem readItem_eq (nesting : Nat) (input : Bytes) :
    readItem nesting input =
      (Opening.read input).bind (fun (opening, rest) => readRest nesting opening rest) := by
  rw [readItem.eq_def]
  cases Opening.read input with
  | none => rfl
  | some result =>
      obtain ⟨opening, rest⟩ := result
      cases opening <;> cases nesting <;> rfl

theorem stable_readItem (nesting : Nat) : Stable (readItem nesting) := by
  induction nesting with
  | zero =>
      rw [funext (readItem_eq 0)]
      refine Opening.stable_read.bind (fun opening => ?_)
      cases opening with
      | leaf item => exact .some item
      | array | map => exact .none
  | succ inner ih =>
      rw [funext (readItem_eq (inner + 1))]
      refine Opening.stable_read.bind (fun opening => ?_)
      cases opening with
      | leaf item => exact .some item
      | array size => exact (stable_readMany ih size []).map Item.array
      | map size => exact (stable_readMany (stable_readPair ih) size []).map Item.map

/-- What one reader reads the other reads too. -/
def Covers (read read' : Bytes → Option (α × Bytes)) : Prop :=
  ∀ input result, read input = some result → read' input = some result

theorem Covers.readMany {one one' : Bytes → Option (α × Bytes)}
    (h : Covers one one') (n : Nat) (found : List α) :
    Covers (readMany one n found) (readMany one' n found) := by
  induction n generalizing found with
  | zero => exact fun _ _ eq => eq
  | succ n ih =>
      intro input result eq
      rw [Packed.readMany] at eq ⊢
      cases first : one input with
      | none => simp [first] at eq
      | some read =>
          simp only [first] at eq
          simp only [h input read first]
          exact ih (read.1 :: found) read.2 result eq

theorem Covers.map {read read' : Bytes → Option (α × Bytes)} (h : Covers read read')
    (f : α → β) :
    Covers (fun input => (read input).map (fun (x, rest) => (f x, rest)))
      (fun input => (read' input).map (fun (x, rest) => (f x, rest))) := by
  intro input result eq
  obtain ⟨first, found, rfl⟩ := Option.map_eq_some_iff.mp eq
  simp only [h input first found, Option.map_some]

theorem Covers.readPair {one one' : Bytes → Option (α × Bytes)} (h : Covers one one') :
    Covers (readPair one) (readPair one') := by
  intro input result eq
  rw [Packed.readPair] at eq ⊢
  cases first : one input with
  | none => simp [first] at eq
  | some read =>
      simp only [first] at eq
      simp only [h input read first]
      exact h.map (fun y => (read.1, y)) read.2 result eq

/-- A reader that may go deeper reads the same. -/
theorem covers_readItem {nesting nesting' : Nat} (deeper : nesting ≤ nesting') :
    Covers (readItem nesting) (readItem nesting') := by
  induction nesting generalizing nesting' with
  | zero =>
      intro input result eq
      rw [readItem_eq] at eq ⊢
      obtain ⟨⟨opening, rest⟩, opened, eq⟩ := Option.bind_eq_some_iff.mp eq
      rw [opened, Option.bind_some]
      cases opening with
      | leaf item => exact eq
      | array | map => cases eq
  | succ inner ih =>
      obtain ⟨inner', rfl⟩ :=
        Nat.exists_eq_add_of_le' (Nat.lt_of_lt_of_le (Nat.succ_pos _) deeper)
      have further := ih (Nat.le_of_succ_le_succ deeper)
      intro input result eq
      rw [readItem_eq] at eq ⊢
      obtain ⟨⟨opening, rest⟩, opened, eq⟩ := Option.bind_eq_some_iff.mp eq
      rw [opened, Option.bind_some]
      cases opening with
      | leaf item => exact eq
      | array size => exact (further.readMany size []).map Item.array rest result eq
      | map size => exact (further.readPair.readMany size []).map Item.map rest result eq

variable {item : Item}

/-- What is read of a written item is that item, or nothing when it nests too deep. -/
theorem Item.Fits.readItem_write_cases (h : item.Fits) (nesting : Nat) (rest : Bytes) :
    readItem nesting (item.write ++ rest) = none ∨
      readItem nesting (item.write ++ rest) = some (item, rest) := by
  cases read : readItem nesting (item.write ++ rest) with
  | none => exact .inl rfl
  | some result =>
      have deep := covers_readItem (le_max_left nesting item.levels) _ _ read
      rw [h.readItem_write (le_max_right nesting item.levels)] at deep
      exact .inr deep.symm

/-- Nothing is read of a part of a written item. -/
theorem Item.Fits.readItem_of_prefix (h : item.Fits) {start missing : Bytes}
    (whole : start ++ missing = item.write) (strict : missing ≠ []) (nesting : Nat) :
    readItem nesting start = none := by
  cases read : readItem nesting start with
  | none => rfl
  | some result =>
      obtain ⟨other, rest⟩ := result
      have longer := stable_readItem nesting start other rest read missing
      have deep := covers_readItem (le_max_left nesting item.levels) _ _ longer
      have own := h.readItem_write (le_max_right nesting item.levels) []
      rw [List.append_nil, ← whole, deep] at own
      have none : rest ++ missing = [] := congrArg Prod.snd (Option.some.inj own)
      exact absurd (List.append_eq_nil_iff.mp none).2 strict

end Prefixes

end Packed
end RecordSync
