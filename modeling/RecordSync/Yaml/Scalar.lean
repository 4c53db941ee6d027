import RecordSync.Yaml.Cursor

/-!
# YAML scalars

How the text of a scalar is read off a YAML text.  A plain or quoted scalar may go over
several lines: a single line break stands for a space, more stand for all but the first,
and the blanks around them are dropped.  A block scalar keeps its lines, or folds them in
the same way.

Each reader gives nothing where the text is not well-formed.
-/

namespace RecordSync
namespace Yaml

/-- The blanks and line breaks between two pieces of a scalar. -/
structure Gap where
  /-- The blanks, while there is no line break. -/
  blanks : List Char
  /-- The first line break. -/
  first : List Char
  more : List Char
  broken : Bool

namespace Gap

/-- Nothing between two pieces. -/
def none : Gap := ⟨[], [], [], false⟩

/-- What a gap stands for. -/
def text (g : Gap) : List Char :=
  if g.broken then
    if g.first = ['\n'] then (if g.more.isEmpty then [' '] else g.more)
    else g.first ++ g.more
  else g.blanks

/-- Reads on through blanks and line breaks.  On a further line a tab may not stand where
the scalar is still to be indented. -/
def read (indent : Int) : Nat → Gap → Cursor → Option (Gap × Cursor)
  | 0, g, c => some (g, c)
  | fuel + 1, g, c =>
    match c.peek 0 with
    | Option.none => some (g, c)
    | some x =>
      if isBlank x then
        if g.broken && (c.column : Int) < indent && x == '\t' then Option.none
        else
          let g := if g.broken then g else { g with blanks := g.blanks ++ [x] }
          read indent fuel g (c.skip 1)
      else if isBreak x then
        let (taken, c) := c.takeBreak
        read indent fuel
          (if g.broken then { g with more := g.more ++ taken } else ⟨[], taken, [], true⟩) c
      else some (g, c)

end Gap

/-- Reads a piece of a plain scalar, up to a blank, a line break or what ends the
scalar. -/
def plainPiece (flow : Bool) : Nat → List Char → Cursor → Option (List Char × Cursor)
  | 0, found, c => some (found.reverse, c)
  | fuel + 1, found, c =>
    if c.isBlankOrEnd 0 then some (found.reverse, c)
    else if flow && c.sees ':' && c.test 1
      (fun x => ",?[]\x7b\x7d".toList.contains x) then none
    else if (c.sees ':' && c.isBlankOrEnd 1) ||
        (flow && c.test 0 (fun x => ",[]\x7b\x7d".toList.contains x)) then
      some (found.reverse, c)
    else plainPiece flow fuel ((c.peek 0).toList ++ found) (c.skip 1)

/-- Reads the further pieces of a plain scalar; says whether it ended behind a line
break. -/
def plainPieces (flow : Bool) (indent : Int) : Nat → List Char → Gap → Cursor →
    Option (List Char × Bool × Cursor)
  | 0, found, g, c => some (found, g.broken, c)
  | fuel + 1, found, g, c =>
    if c.isDocumentMark || c.sees '#' then some (found, g.broken, c)
    else do
      let (piece, c) ← plainPiece flow c.rest.length [] c
      let (found, g) := if piece.isEmpty then (found, g)
      else (found ++ g.text ++ piece, Gap.none)
      if !c.test 0 (fun x => isBlank x || isBreak x) then some (found, g.broken, c)
      else
        let (g, c) ← g.read indent c.rest.length c
        if !flow && (c.column : Int) < indent then some (found, g.broken, c)
        else plainPieces flow indent fuel found g c

def plainScalar (flow : Bool) (indent : Int) (c : Cursor) :
    Option (List Char × Bool × Cursor) :=
  plainPieces flow indent (c.rest.length + 1) [] Gap.none c

/-- The character whose number is written in hexadecimal digits, if there is one. -/
def hexChar? (width : Nat) (digits : List Char) : Option Char :=
  if digits.length ≠ width then none
  else do
    let values ← digits.mapM hexValue?
    let n := values.foldl (fun acc v => acc * 16 + v) 0
    if h : n.isValidChar then some (Char.ofNatAux n h) else none

/-- The escapes of one character in a double-quoted scalar. -/
def escapes : List (Char × Char) :=
  [('0', '\x00'), ('a', '\x07'), ('b', '\x08'), ('t', '\t'), ('\t', '\t'), ('n', '\n'),
    ('v', '\x0b'), ('f', '\x0c'), ('r', '\r'), ('e', '\x1b'), (' ', ' '),
    ('"', '"'), ('/', '/'), ('\\', '\\'), ('N', '\u0085'), ('_', '\u00a0'),
    ('L', '\u2028'), ('P', '\u2029')]

/-- Reads an escape behind its backslash. -/
def escape (c : Cursor) : Option (Char × Cursor) := do
  let x ← c.peek 0
  let hex (width : Nat) : Option (Char × Cursor) :=
    (hexChar? width ((c.rest.drop 1).take width)).map (fun y => (y, c.skip (width + 1)))
  match x with
  | 'x' => hex 2
  | 'u' => hex 4
  | 'U' => hex 8
  | _ => (escapes.find? (fun e => e.1 == x)).map (fun e => (e.2, c.skip 1))

/-- Reads a piece of a quoted scalar, up to a blank, a line break or the closing quote;
says whether it ended with an escaped line break. -/
def quotedPiece (quote : Char) : Nat → List Char → Cursor →
    Option (List Char × Bool × Cursor)
  | 0, found, c => some (found.reverse, false, c)
  | fuel + 1, found, c =>
    match c.peek 0 with
    | none => some (found.reverse, false, c)
    | some x =>
      if isBlank x || isBreak x then some (found.reverse, false, c)
      else if quote == '\'' && x == quote && c.peek 1 == some quote then
        quotedPiece quote fuel (quote :: found) (c.skip 2)
      else if x == quote then some (found.reverse, false, c)
      else if quote == '"' && x == '\\' then
        if c.test 1 isBreak then some (found.reverse, true, (c.skip 1).takeBreak.2)
        else do
          let (y, c) ← escape (c.skip 1)
          quotedPiece quote fuel (y :: found) c
      else quotedPiece quote fuel (x :: found) (c.skip 1)

def quotedPieces (quote : Char) : Nat → List Char → Cursor → Option (List Char × Cursor)
  | 0, _, _ => none
  | fuel + 1, found, c =>
    if c.isDocumentMark || c.rest.isEmpty then none
    else do
      let (piece, escaped, c) ← quotedPiece quote c.rest.length [] c
      if c.sees quote then some (found ++ piece, c.skip 1)
      else
        let (g, c) ← Gap.read (-1) c.rest.length ⟨[], [], [], escaped⟩ c
        quotedPieces quote fuel (found ++ piece ++ g.text) c

def quotedScalar (quote : Char) (c : Cursor) : Option (List Char × Cursor) :=
  quotedPieces quote (c.rest.length + 1) [] c

/-- Reads the empty lines before a line of a block scalar.  The scalar's indentation is
given if it is known; gives the breaks and the greatest column reached. -/
def blockBreaks (indent : Option Nat) : Nat → Nat → List Char → Cursor →
    Option (Nat × List Char × Cursor)
  | 0, most, breaks, c => some (most, breaks, c)
  | fuel + 1, most, breaks, c =>
    let room := indent.elim c.rest.length (· - c.column)
    let spaces := ((c.rest.take room).takeWhile (· == ' ')).length
    let c := c.skip spaces
    let most := max most c.column
    if indent.all (c.column < ·) && c.sees '\t' then none
    else if c.test 0 isBreak then
      let (taken, c) := c.takeBreak
      blockBreaks indent fuel most (breaks ++ taken) c
    else some (most, breaks, c)

/-- Reads the lines of a block scalar.  `last` is the break behind the line before,
`breaks` those of the empty lines behind it, and `led` says that the line before starts
with a blank. -/
def blockLines (literal : Bool) (indent : Nat) :
    Nat → List Char → List Char → List Char → Bool →
    Cursor → Option (List Char × List Char × List Char × Cursor)
  | 0, found, last, breaks, _, c => some (found, last, breaks, c)
  | fuel + 1, found, last, breaks, led, c =>
    if c.column ≠ indent || c.rest.isEmpty then some (found, last, breaks, c)
    else do
      let blank := c.test 0 isBlank
      let glue :=
        if !literal && last == ['\n'] && !led && !blank then
          (if breaks.isEmpty then [' '] else breaks)
        else last ++ breaks
      let (line, c) := c.takeWhile (fun x => !isBreak x)
      let (last, c) := if c.rest.isEmpty then ([], c) else c.takeBreak
      let (_, breaks, c) ← blockBreaks (some indent) c.rest.length 0 [] c
      blockLines literal indent fuel (found ++ glue ++ line) last breaks blank c

/-- What follows the mark of a block scalar: whether the last line breaks are kept
(`some true`), dropped (`some false`) or cut to one, and the indentation. -/
def blockHeader (c : Cursor) : Option (Option Bool × Option Nat × Cursor) := do
  let chomp (c : Cursor) : Option Bool × Cursor :=
    if c.sees '+' then (some true, c.skip 1)
    else if c.sees '-' then (some false, c.skip 1)
    else (none, c)
  let size (c : Cursor) : Option (Option Nat × Cursor) :=
    match c.peek 0 with
    | some x =>
      if x == '0' then none
      else if x.isDigit then some (some (x.toNat - '0'.toNat), c.skip 1)
      else some (none, c)
    | none => some (none, c)
  match chomp c with
  | (some keep, c) =>
    let (indent, c) ← size c
    some (some keep, indent, c)
  | (none, c) =>
    let (indent, c) ← size c
    let (keep, c) := if indent.isSome then chomp c else (none, c)
    some (keep, indent, c)

/-- Reads a block scalar behind its mark, in a block of a given indentation. -/
def blockScalar (literal : Bool) (parent : Int) (c : Cursor) :
    Option (List Char × Cursor) := do
  let (keep, indent, c) ← blockHeader c
  let c ← c.nextLine?
  let indent := indent.map (fun n => n + parent.toNat)
  let (most, breaks, c) ← blockBreaks indent c.rest.length 0 [] c
  let indent := indent.getD (max most (max (parent + 1).toNat 1))
  let (found, last, breaks, c) ← blockLines literal indent (c.rest.length + 1) [] []
      breaks false c
  let found := if keep == some false then found else found ++ last
  some (if keep == some true then found ++ breaks else found, c)

end Yaml
end RecordSync
