import RecordSync.Packed.Item

/-!
# Reading packed items

`readItem` takes one item off the front of some bytes and leaves the rest.  It reads every
form of the format, not only the shortest; the one reserved lead byte starts no item.

**Nesting.**  The reader is given the number of arrays and maps that may stand inside each
other; items nested deeper are refused.
-/

namespace RecordSync
namespace Packed

def takeBytes (n : Nat) (input : Bytes) : Option (Bytes × Bytes) :=
  let taken := input.take n
  if taken.length = n then some (taken, input.drop n) else none

/-- Takes a number of a given width off the front. -/
def takeNumber (width : Nat) (input : Bytes) : Option (Nat × Bytes) :=
  (takeBytes width input).map (fun (bytes, rest) => (ofBigEndian bytes, rest))

/-- The number that a two's complement pattern of some width stands for. -/
def ofTwosComplement (width : Nat) (pattern : Nat) : Int :=
  if pattern < 1 <<< (8 * width - 1) then pattern
  else (pattern : Int) - (1 <<< (8 * width) : Nat)

/-- What stands at the front of some bytes: a whole leaf, or the head of an array or a map
with the number of its parts. -/
inductive Opening
  | leaf (item : Item)
  | array (size : Nat)
  | map (size : Nat)

namespace Opening

def unsigned (width : Nat) (input : Bytes) : Option (Opening × Bytes) :=
  (takeNumber width input).map (fun (n, rest) => (.leaf (.unsigned n), rest))

def signed (width : Nat) (input : Bytes) : Option (Opening × Bytes) :=
  (takeNumber width input).map
    (fun (n, rest) => (.leaf (.signed (ofTwosComplement width n)), rest))

/-- A text or byte string of known length. -/
def content (make : Bytes → Item) (size : Nat) (input : Bytes) :
    Option (Opening × Bytes) :=
  (takeBytes size input).map (fun (bytes, rest) => (.leaf (make bytes), rest))

/-- A text or byte string whose length stands first. -/
def sizedContent (make : Bytes → Item) (width : Nat) (input : Bytes) :
    Option (Opening × Bytes) :=
  (takeNumber width input).bind (fun (size, rest) => content make size rest)

/-- An extension of known length: its tag, then its bytes. -/
def extension (size : Nat) : Bytes → Option (Opening × Bytes)
  | [] => none
  | tag :: rest => content (.extension tag) size rest

/-- An extension whose length stands first. -/
def sizedExtension (width : Nat) (input : Bytes) : Option (Opening × Bytes) :=
  (takeNumber width input).bind (fun (size, rest) => extension size rest)

/-- The head of an array or map whose size stands first. -/
def sized (make : Nat → Opening) (width : Nat) (input : Bytes) :
    Option (Opening × Bytes) :=
  (takeNumber width input).map (fun (size, rest) => (make size, rest))

/-- Reads a leaf or a head off the front. -/
def read : Bytes → Option (Opening × Bytes)
  | [] => none
  | lead :: rest =>
    let code := lead.toNat
    if code < 0x80 then some (.leaf (.unsigned code), rest)
    else if code < 0x90 then some (.map (code - 0x80), rest)
    else if code < 0xa0 then some (.array (code - 0x90), rest)
    else if code < 0xc0 then content .text (code - 0xa0) rest
    else if 0xe0 ≤ code then some (.leaf (.signed (code - 256)), rest)
    else
      match code with
      | 0xc0 => some (.leaf .nil, rest)
      | 0xc2 => some (.leaf (.boolean false), rest)
      | 0xc3 => some (.leaf (.boolean true), rest)
      | 0xc4 => sizedContent .binary 1 rest
      | 0xc5 => sizedContent .binary 2 rest
      | 0xc6 => sizedContent .binary 4 rest
      | 0xc7 => sizedExtension 1 rest
      | 0xc8 => sizedExtension 2 rest
      | 0xc9 => sizedExtension 4 rest
      | 0xca =>
        (takeNumber 4 rest).map (fun (n, rest) => (.leaf (.binary32 (UInt32.ofNat n)), rest))
      | 0xcb =>
        (takeNumber 8 rest).map (fun (n, rest) => (.leaf (.binary64 (UInt64.ofNat n)), rest))
      | 0xcc => unsigned 1 rest
      | 0xcd => unsigned 2 rest
      | 0xce => unsigned 4 rest
      | 0xcf => unsigned 8 rest
      | 0xd0 => signed 1 rest
      | 0xd1 => signed 2 rest
      | 0xd2 => signed 4 rest
      | 0xd3 => signed 8 rest
      | 0xd4 => extension 1 rest
      | 0xd5 => extension 2 rest
      | 0xd6 => extension 4 rest
      | 0xd7 => extension 8 rest
      | 0xd8 => extension 16 rest
      | 0xd9 => sizedContent .text 1 rest
      | 0xda => sizedContent .text 2 rest
      | 0xdb => sizedContent .text 4 rest
      | 0xdc => sized .array 2 rest
      | 0xdd => sized .array 4 rest
      | 0xde => sized .map 2 rest
      | 0xdf => sized .map 4 rest
      | _ => none

end Opening

/-- Reads a number of things one after another; `found` holds those already read, the last
first. -/
def readMany {α : Type} (one : Bytes → Option (α × Bytes)) :
    Nat → List α → Bytes → Option (List α × Bytes)
  | 0, found, input => some (found.reverse, input)
  | n + 1, found, input =>
    match one input with
    | some (x, rest) => readMany one n (x :: found) rest
    | none => none

def readPair {α : Type} (one : Bytes → Option (α × Bytes)) (input : Bytes) :
    Option ((α × α) × Bytes) :=
  match one input with
  | some (x, rest) => (one rest).map (fun (y, rest) => ((x, y), rest))
  | none => none

/-- Reads one item off the front, in which at most `nesting` arrays and maps stand inside
each other. -/
def readItem (nesting : Nat) (input : Bytes) : Option (Item × Bytes) :=
  match Opening.read input with
  | none => none
  | some (.leaf item, rest) => some (item, rest)
  | some (.array size, rest) =>
    match nesting with
    | 0 => none
    | inner + 1 =>
      (readMany (readItem inner) size [] rest).map (fun (items, rest) => (.array items, rest))
  | some (.map size, rest) =>
    match nesting with
    | 0 => none
    | inner + 1 =>
      (readMany (readPair (readItem inner)) size [] rest).map
        (fun (entries, rest) => (.map entries, rest))

end Packed
end RecordSync
