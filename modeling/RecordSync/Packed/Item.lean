import RecordSync.Value

/-!
# Packed items

An item is one object of the MessagePack format: a leaf, a list of items, a list of pairs
of items, or an extension.  This module gives the items, how deep they nest, and the bytes
that stand for them.

**Writing.**  Numbers and lengths take the shortest form that holds them, and a number
that is not negative takes an unsigned form.  Multi-byte quantities have their highest
byte first.
-/

namespace RecordSync
namespace Packed

/-- An object of the packed format. -/
inductive Item
  | nil
  | boolean (truth : Bool)
  /-- A number in one of the unsigned forms. -/
  | unsigned (number : Nat)
  /-- A number in one of the signed forms. -/
  | signed (number : Int)
  | binary32 (bits : UInt32)
  | binary64 (bits : UInt64)
  /-- The bytes of a text, which need not be well-formed. -/
  | text (content : Bytes)
  | binary (content : Bytes)
  | array (items : List Item)
  | map (entries : List (Item × Item))
  | extension (tag : UInt8) (content : Bytes)
deriving Inhabited

namespace Item

mutual

/-- How many arrays, maps and extensions stand inside each other. -/
def levels : Item → Nat
  | array items => levelsOfList items + 1
  | map entries => levelsOfEntries entries + 1
  | extension _ _ => 1
  | _ => 0

def levelsOfList : List Item → Nat
  | [] => 0
  | item :: rest => max item.levels (levelsOfList rest)

def levelsOfEntries : List (Item × Item) → Nat
  | [] => 0
  | (key, value) :: rest => max (max key.levels value.levels) (levelsOfEntries rest)

end

/-- The item of a number, in an unsigned form where there is one. -/
def ofInt (n : Int) : Item :=
  if 0 ≤ n then unsigned n.toNat else signed n

def ofString (s : String) : Item :=
  text s.toUTF8.data.toList

end Item

/-- The lowest `width` bytes of a number, the highest first. -/
def bigEndian : Nat → Nat → Bytes
  | 0, _ => []
  | width + 1, n => UInt8.ofNat (n >>> (8 * width)) :: bigEndian width n

/-- The number whose bytes are given, the highest first. -/
def ofBigEndian (bytes : Bytes) : Nat :=
  bytes.foldl (fun acc b => acc * 256 + b.toNat) 0

/-- The lead byte and the length of a text, byte string, array or map: `short` is the lead
byte of the empty one, which holds lengths below `room`, and the longer forms have lead
bytes of their own, if there is one for a single length byte. -/
def writeLength (short room : Nat) (one : Option UInt8) (two four : UInt8) (n : Nat) :
    Bytes :=
  if n < room then [UInt8.ofNat (short + n)]
  else
    match one with
    | some lead =>
      if n < 256 then lead :: bigEndian 1 n
      else if n < 65536 then two :: bigEndian 2 n
      else four :: bigEndian 4 n
    | none => if n < 65536 then two :: bigEndian 2 n else four :: bigEndian 4 n

/-- The shortest unsigned form of a number. -/
def writeUnsigned (n : Nat) : Bytes :=
  if n < 128 then [UInt8.ofNat n]
  else if n < 256 then 0xcc :: bigEndian 1 n
  else if n < 65536 then 0xcd :: bigEndian 2 n
  else if n < 4294967296 then 0xce :: bigEndian 4 n
  else 0xcf :: bigEndian 8 n

/-- The shortest signed form of a number, in two's complement. -/
def writeSigned (n : Int) : Bytes :=
  if -32 ≤ n ∧ n < 0 then [UInt8.ofNat (n + 256).toNat]
  else if -128 ≤ n ∧ n < 128 then 0xd0 :: bigEndian 1 (n % 256).toNat
  else if -32768 ≤ n ∧ n < 32768 then 0xd1 :: bigEndian 2 (n % 65536).toNat
  else if -2147483648 ≤ n ∧ n < 2147483648 then 0xd2 :: bigEndian 4 (n % 4294967296).toNat
  else 0xd3 :: bigEndian 8 (n % 18446744073709551616).toNat

mutual

/-- The bytes of an item. -/
def Item.write : Item → Bytes
  | .nil => [0xc0]
  | .boolean false => [0xc2]
  | .boolean true => [0xc3]
  | .unsigned n => writeUnsigned n
  | .signed n => writeSigned n
  | .binary32 bits => 0xca :: bigEndian 4 bits.toNat
  | .binary64 bits => 0xcb :: bigEndian 8 bits.toNat
  | .text content => writeLength 0xa0 32 (some 0xd9) 0xda 0xdb content.length ++ content
  | .binary content => writeLength 0 0 (some 0xc4) 0xc5 0xc6 content.length ++ content
  | .array items => writeLength 0x90 16 none 0xdc 0xdd items.length ++ writeItems items
  | .map entries =>
      writeLength 0x80 16 none 0xde 0xdf entries.length ++ writeEntries entries
  | .extension tag content =>
    writeLength 0 0 (some 0xc7) 0xc8 0xc9 content.length ++ tag :: content

def writeItems : List Item → Bytes
  | [] => []
  | item :: rest => item.write ++ writeItems rest

/-- The bytes of entries one after another, each key before its value. -/
def writeEntries : List (Item × Item) → Bytes
  | [] => []
  | (key, value) :: rest => key.write ++ (value.write ++ writeEntries rest)

end

end Packed
end RecordSync
