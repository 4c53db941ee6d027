import RecordSync.Yaml.Cursor

/-!
# YAML tags

A tag says what kind of thing a node is.  It stands for a URI, which is written out
between angle brackets, or shortened to a handle and the rest of the URI.  What a handle
stands for is said in front of a document; two handles are known everywhere.

A URI is kept as octets.  An octet may be written as a percent sign and two hexadecimal
digits, and octets that are written so must make up characters of UTF-8.
-/

namespace RecordSync
namespace Yaml

/-- The octets of a URI. -/
abbrev Uri := List UInt8

namespace Uri

def ofAscii (text : List Char) : Uri := text.map (fun x => UInt8.ofNat x.toNat)

/-- A character that may stand in a URI.  A shortened one leaves commas and brackets to
the collection around it. -/
def allows (short : Bool) (x : Char) : Bool :=
  isWord x || ";/?:@&=+$.!~*'()".toList.contains x || (!short && ",[]".toList.contains x)

def escapedOctet (c : Cursor) : Option (UInt8 × Cursor) :=
  match c.rest with
  | '%' :: x :: y :: _ => do
    let high ← hexValue? x
    let low ← hexValue? y
    some (UInt8.ofNat (high * 16 + low), c.skip 3)
  | _ => none

/-- The number of octets that follow the first one of a character. -/
def trailing? (lead : UInt8) : Option Nat :=
  if lead < 0x80 then some 0
  else if 0xc0 ≤ lead && lead < 0xe0 then some 1
  else if 0xe0 ≤ lead && lead < 0xf0 then some 2
  else if 0xf0 ≤ lead && lead < 0xf8 then some 3
  else none

def trailingOctets : Nat → Cursor → Option (Uri × Cursor)
  | 0, c => some ([], c)
  | n + 1, c => do
    let (octet, c) ← escapedOctet c
    if octet < 0x80 || 0xc0 ≤ octet then none
    let (octets, c) ← trailingOctets n c
    some (octet :: octets, c)

def escapedChar (c : Cursor) : Option (Uri × Cursor) := do
  let (lead, c) ← escapedOctet c
  let (octets, c) ← trailingOctets (← trailing? lead) c
  some (lead :: octets, c)

/-- Reads the characters of a URI, of which there may be none. -/
def characters (short : Bool) : Nat → Cursor → Option (Uri × Cursor)
  | 0, c => some ([], c)
  | fuel + 1, c =>
    match c.peek 0 with
    | none => some ([], c)
    | some x =>
      if x == '%' then do
        let (octets, c) ← escapedChar c
        let (more, c) ← characters short fuel c
        some (octets ++ more, c)
      else if allows short x then do
        let (more, c) ← characters short fuel (c.skip 1)
        some (ofAscii [x] ++ more, c)
      else some ([], c)

/-- The octets before the first zero, which ends a URI. -/
def untilZero (octets : Uri) : Uri := octets.takeWhile (· != 0)

/-- Reads a URI of at least one character. -/
def read (short : Bool) (c : Cursor) : Option (Uri × Cursor) := do
  let (octets, c) ← characters short c.rest.length c
  if octets.isEmpty then none else some (octets.untilZero, c)

end Uri

/-- The URIs that handles stand for. -/
abbrev Handles := List (String × Uri)

namespace Handles

/-- What the handle of the kinds that YAML itself knows stands for. -/
def core : Uri := Uri.ofAscii "tag:yaml.org,2002:".toList

/-- The handles that are known everywhere. -/
def standard : Handles := [("!", Uri.ofAscii ['!']), ("!!", core)]

end Handles

/-- A tag as it is written.  Without a handle the rest is all of the URI. -/
structure Tag where
  handle : String
  rest : Uri
deriving DecidableEq, Repr

namespace Tag

/-- The URI that a tag stands for, if its handle is known. -/
def uri? (handles : Handles) (t : Tag) : Option Uri :=
  if t.handle = "" then some t.rest
  else (handles.find? (fun h => h.1 == t.handle)).map (fun h => h.2 ++ t.rest)

/-- Reads a tag behind its exclamation mark.  One of the mark alone stands for itself. -/
def read (c : Cursor) : Option (Tag × Cursor) :=
  if c.sees '<' then do
    let (uri, c) ← Uri.read false (c.skip 1)
    if c.sees '>' then some (⟨"", uri⟩, c.skip 1) else none
  else
    let (word, c) := c.takeWhile isWord
    if c.sees '!' then do
      let (uri, c) ← Uri.read true (c.skip 1)
      some (⟨"!" ++ String.ofList word ++ "!", uri⟩, c)
    else do
      let (octets, c) ← Uri.characters true c.rest.length c
      let uri := (Uri.ofAscii word ++ octets).untilZero
      some (if uri.isEmpty then ⟨"", Uri.ofAscii ['!']⟩ else ⟨"!", uri⟩, c)

end Tag
end Yaml
end RecordSync
