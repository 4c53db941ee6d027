/-!
# Places in a YAML text

A cursor is a place in a text: what is still to be read, and how far it is from the start.
Blanks are spaces and tabs.  There are five line breaks; the common ones are read as a
line feed, the other two as themselves.  Columns count characters, while the distance from
the start counts the octets of their UTF-8 form.
-/

namespace RecordSync
namespace Yaml

/-- A place in a text. -/
structure Cursor where
  rest : List Char
  /-- The number of octets before the place. -/
  index : Nat
  line : Nat
  column : Nat

def isBlank (c : Char) : Bool := c == ' ' || c == '\t'

def isBreak (c : Char) : Bool :=
  c == '\n' || c == '\r' || c == '\u0085' || c == '\u2028' || c == '\u2029'

/-- A character that a YAML text may hold. -/
def isAllowed (c : Char) : Bool :=
  c == '\t' || c == '\n' || c == '\r' || c == '\u0085' || (' ' ≤ c && c ≤ '~') ||
    ('\u00a0' ≤ c && c ≤ '\ufffd') || 65536 ≤ c.toNat

def isWord (c : Char) : Bool := c.isAlphanum || c == '_' || c == '-'

def hexValue? (c : Char) : Option Nat :=
  if '0' ≤ c && c ≤ '9' then some (c.toNat - '0'.toNat)
  else if 'a' ≤ c && c ≤ 'f' then some (c.toNat - 'a'.toNat + 10)
  else if 'A' ≤ c && c ≤ 'F' then some (c.toNat - 'A'.toNat + 10)
  else none

/-- The number of octets that a text takes. -/
def octetCount (text : List Char) : Nat :=
  text.foldl (fun count c => count + c.utf8Size) 0

namespace Cursor

def start (text : List Char) : Cursor := ⟨text, 0, 0, 0⟩

def peek (c : Cursor) (n : Nat) : Option Char := c.rest[n]?

def sees (c : Cursor) (x : Char) : Bool := c.peek 0 == some x

def test (c : Cursor) (n : Nat) (p : Char → Bool) : Bool := (c.peek n).any p

/-- At a distance there is a blank, a line break or the end. -/
def isBlankOrEnd (c : Cursor) (n : Nat) : Bool :=
  match c.peek n with
  | some x => isBlank x || isBreak x
  | none => true

/-- Moves on by a number of characters of one line. -/
def skip (c : Cursor) (n : Nat) : Cursor :=
  ⟨c.rest.drop n, c.index + octetCount (c.rest.take n), c.line, c.column + n⟩

/-- Reads a line break: what it stands for, and the start of the next line. -/
def takeBreak (c : Cursor) : List Char × Cursor :=
  let next (n : Nat) : Cursor :=
    ⟨c.rest.drop n, c.index + octetCount (c.rest.take n), c.line + 1, 0⟩
  match c.rest with
  | '\r' :: '\n' :: _ => (['\n'], next 2)
  | '\u2028' :: _ => (['\u2028'], next 1)
  | '\u2029' :: _ => (['\u2029'], next 1)
  | _ => (['\n'], next 1)

/-- Moves on while a condition holds; gives the characters on the way. -/
def takeWhile (c : Cursor) (p : Char → Bool) : List Char × Cursor :=
  let taken := c.rest.takeWhile p
  (taken, c.skip taken.length)

/-- Moves past blanks. -/
def skipBlanks (c : Cursor) : Cursor := (c.takeWhile isBlank).2

/-- Moves past a comment, if there is one. -/
def skipComment (c : Cursor) : Cursor :=
  if c.sees '#' then (c.takeWhile (fun x => !isBreak x)).2 else c

/-- Moves to the next line, if nothing but blanks and a comment is left on this one. -/
def nextLine? (c : Cursor) : Option Cursor :=
  let c := c.skipBlanks.skipComment
  if c.rest.isEmpty then some c
  else if c.test 0 isBreak then some c.takeBreak.2
  else none

/-- A line starts here with a mark of three equal characters. -/
def isMark (c : Cursor) (x : Char) : Bool :=
  c.column == 0 && c.rest.take 3 == [x, x, x] && c.isBlankOrEnd 3

/-- A line starts here with the mark of the start or the end of a document. -/
def isDocumentMark (c : Cursor) : Bool := c.isMark '-' || c.isMark '.'

end Cursor
end Yaml
end RecordSync
