import RecordSync.Yaml.Directive
import RecordSync.Yaml.Scalar

/-!
# YAML tokens

A YAML text is cut into tokens.  Indentation becomes tokens too: a block starts where a
line is indented further and ends where one is indented less.

**Keys.**  Whether a scalar or a bracketed collection is the key of an entry is known only
when a colon follows, on the same line and within 1024 octets.  So a place where a key may
start is remembered, one for each level of brackets, and the tokens for the key are put in
there when the colon comes.
-/

namespace RecordSync
namespace Yaml

inductive Style
  | plain
  | quoted
  | literal
  | folded
deriving DecidableEq, Repr

inductive Token
  | directive (d : Directive)
  | documentStart
  | documentEnd
  | blockSequenceStart
  | blockMappingStart
  | blockEnd
  | flowSequenceStart
  | flowSequenceEnd
  | flowMappingStart
  | flowMappingEnd
  | blockEntry
  | flowEntry
  | key
  | value
  | anchor (name : String)
  | alias (name : String)
  | tag (t : Tag)
  | scalar (style : Style) (text : String)
deriving DecidableEq, Repr

/-- A place where a key may have started. -/
structure KeyPlace where
  /-- What starts here can only be a key. -/
  required : Bool
  /-- The number of tokens before the place. -/
  tokens : Nat
  cursor : Cursor

/-- The state of cutting a text into tokens. -/
structure Scanner where
  cursor : Cursor
  tokens : List Token
  /-- The column of the current block; `-1` outside. -/
  indent : Int
  /-- The columns of the blocks around it. -/
  indents : List Int
  /-- A key may start here. -/
  keyAllowed : Bool
  /-- The place of a key on the current level of brackets. -/
  keyPlace : Option KeyPlace
  /-- The places on the levels around it, the next first. -/
  outer : List (Option KeyPlace)

namespace Scanner

/-- The start of a text.  A byte order mark in front is passed over, but takes a
column. -/
def start (text : List Char) : Scanner :=
  let c := Cursor.start text
  ⟨if c.sees '\ufeff' then c.skip 1 else c, [], -1, [], true, none, []⟩

def inFlow (s : Scanner) : Bool := !s.outer.isEmpty

def emit (s : Scanner) (t : Token) : Scanner := { s with tokens := s.tokens ++ [t] }

/-- Adds a token and moves behind its characters. -/
def emitSkip (s : Scanner) (t : Token) (n : Nat) : Scanner :=
  { s.emit t with cursor := s.cursor.skip n }

/-- Gives up a place where a key may have started. -/
def dropKey (s : Scanner) : Option Scanner :=
  if s.keyPlace.any (·.required) then none else some { s with keyPlace := none }

/-- Gives up a place from which a key can no longer reach here. -/
def expireKey (s : Scanner) (place : Option KeyPlace) : Option (Option KeyPlace) :=
  match place with
  | none => some none
  | some k =>
    if k.cursor.line < s.cursor.line || k.cursor.index + 1024 < s.cursor.index then
      (if k.required then none else some none)
    else some place

/-- Gives up all such places. -/
def expireKeys (s : Scanner) : Option Scanner := do
  let place ← s.expireKey s.keyPlace
  let outer ← s.outer.mapM s.expireKey
  some { s with keyPlace := place, outer := outer }

/-- Remembers that a key may start here. -/
def saveKey (s : Scanner) : Option Scanner :=
  if s.keyAllowed then do
    let s ← s.dropKey
    let required := !s.inFlow && s.indent == (s.cursor.column : Int)
    some { s with keyPlace := some ⟨required, s.tokens.length, s.cursor⟩ }
  else some s

/-- Opens a block at a column that is further in, with its token at a place. -/
def indentTo (s : Scanner) (column : Nat) (place : Nat) (t : Token) : Scanner :=
  if !s.inFlow && s.indent < (column : Int) then
    { s with
      indents := s.indent :: s.indents
      indent := column
      tokens := s.tokens.take place ++ t :: s.tokens.drop place }
  else s

/-- Closes the blocks that are further in than a column. -/
def closeBlocks (column : Int) : List Int → Scanner → Scanner
  | [], s => s
  | around :: rest, s =>
    if s.indent ≤ column then s
    else closeBlocks column rest { s.emit .blockEnd with indent := around, indents := rest }

/-- Comes back to a column outside of brackets. -/
def dedentTo (s : Scanner) (column : Int) : Scanner :=
  if s.inFlow then s else closeBlocks column s.indents s

/-- Moves to the next character that belongs to a token, past blanks, comments and line
breaks. -/
def skipSpace : Nat → Scanner → Scanner
  | 0, s => s
  | fuel + 1, s =>
    let tabs := s.inFlow || !s.keyAllowed
    let (_, c) := s.cursor.takeWhile (fun x => x == ' ' || (tabs && x == '\t'))
    let c := c.skipComment
    if c.test 0 isBreak then
      skipSpace fuel
        { s with cursor := c.takeBreak.2, keyAllowed := s.keyAllowed || !s.inFlow }
    else { s with cursor := c }

/-- Adds the mark of a document. -/
def documentMark (s : Scanner) (t : Token) : Option Scanner := do
  let s ← (s.dedentTo (-1)).dropKey
  some ({ s with keyAllowed := false }.emitSkip t 3)

def directive (s : Scanner) : Option Scanner := do
  let s ← (s.dedentTo (-1)).dropKey
  let (d, c) ← Directive.read (s.cursor.skip 1)
  some { s.emit (.directive d) with cursor := c, keyAllowed := false }

def openFlow (s : Scanner) (t : Token) : Option Scanner := do
  let s ← s.saveKey
  some ({ s with
    outer := s.keyPlace :: s.outer, keyPlace := none, keyAllowed := true }.emitSkip t 1)

def closeFlow (s : Scanner) (t : Token) : Option Scanner := do
  let s ← s.dropKey
  let s := match s.outer with
    | place :: outer => { s with keyPlace := place, outer := outer }
    | [] => s
  some ({ s with keyAllowed := false }.emitSkip t 1)

def flowEntry (s : Scanner) : Option Scanner := do
  let s ← s.dropKey
  some ({ s with keyAllowed := true }.emitSkip .flowEntry 1)

def blockEntry (s : Scanner) : Option Scanner :=
  if !s.inFlow && !s.keyAllowed then none
  else do
    let s ← (s.indentTo s.cursor.column s.tokens.length .blockSequenceStart).dropKey
    some ({ s with keyAllowed := true }.emitSkip .blockEntry 1)

def keyMark (s : Scanner) : Option Scanner :=
  if !s.inFlow && !s.keyAllowed then none
  else do
    let s ← (s.indentTo s.cursor.column s.tokens.length .blockMappingStart).dropKey
    some ({ s with keyAllowed := !s.inFlow }.emitSkip .key 1)

/-- Adds the colon between a key and its value. -/
def valueMark (s : Scanner) : Option Scanner :=
  match s.keyPlace with
  | some k =>
    let s := { s with
      tokens := s.tokens.take k.tokens ++ Token.key :: s.tokens.drop k.tokens
      keyPlace := none }
    let s := s.indentTo k.cursor.column k.tokens .blockMappingStart
    some ({ s with keyAllowed := false }.emitSkip .value 1)
  | none =>
    if !s.inFlow && !s.keyAllowed then none
    else
      let s := s.indentTo s.cursor.column s.tokens.length .blockMappingStart
      some ({ s with keyAllowed := !s.inFlow }.emitSkip .value 1)

def nodeName (s : Scanner) (make : String → Token) : Option Scanner := do
  let s ← s.saveKey
  let (name, c) := (s.cursor.skip 1).takeWhile isWord
  let ends := c.isBlankOrEnd 0 || c.test 0 (fun x => "?:,]\x7d%@`".toList.contains x)
  if name.isEmpty || !ends then none
  else some { s.emit (make (String.ofList name)) with cursor := c, keyAllowed := false }

def tag (s : Scanner) : Option Scanner := do
  let s ← s.saveKey
  let (t, c) ← Tag.read (s.cursor.skip 1)
  if c.isBlankOrEnd 0 || (s.inFlow && c.sees ',') then
    some { s.emit (.tag t) with cursor := c, keyAllowed := false }
  else none

def blockText (s : Scanner) (literal : Bool) : Option Scanner := do
  let s ← s.dropKey
  let (text, c) ← blockScalar literal s.indent (s.cursor.skip 1)
  let style := if literal then Style.literal else .folded
  some { s.emit (.scalar style (String.ofList text)) with cursor := c, keyAllowed := true }

def quotedText (s : Scanner) (quote : Char) : Option Scanner := do
  let s ← s.saveKey
  let (text, c) ← quotedScalar quote (s.cursor.skip 1)
  some { s.emit (.scalar .quoted (String.ofList text)) with cursor := c, keyAllowed := false }

/-- Adds a plain scalar, behind which a key may start if it ended with its line. -/
def plainText (s : Scanner) : Option Scanner := do
  let s ← s.saveKey
  let (text, broken, c) ← plainScalar s.inFlow (s.indent + 1) s.cursor
  some { s.emit (.scalar .plain (String.ofList text)) with cursor := c, keyAllowed := broken }

/-- Adds the token that starts with a character. -/
def token (s : Scanner) (x : Char) : Option Scanner :=
  let c := s.cursor
  let flow := s.inFlow
  if isBlank x then none
  else if c.column == 0 && x == '%' then s.directive
  else if c.isMark '-' then s.documentMark .documentStart
  else if c.isMark '.' then s.documentMark .documentEnd
  else if x == '[' then s.openFlow .flowSequenceStart
  else if x == '\x7b' then s.openFlow .flowMappingStart
  else if x == ']' then s.closeFlow .flowSequenceEnd
  else if x == '\x7d' then s.closeFlow .flowMappingEnd
  else if x == ',' then s.flowEntry
  else if x == '-' && c.isBlankOrEnd 1 then s.blockEntry
  else if x == '?' && (flow || c.isBlankOrEnd 1) then s.keyMark
  else if x == ':' && (flow || c.isBlankOrEnd 1) then s.valueMark
  else if x == '*' then s.nodeName .alias
  else if x == '&' then s.nodeName .anchor
  else if x == '!' then s.tag
  else if x == '|' && !flow then s.blockText true
  else if x == '>' && !flow then s.blockText false
  else if x == '\'' || x == '"' then s.quotedText x
  else if !("-?:,[]\x7b\x7d#&*!|>'\"%@`".toList.contains x) || (x == '-' &&
    !c.test 1 isBlank) ||
      (!flow && (x == '?' || x == ':') && !c.isBlankOrEnd 1) then s.plainText
  else none

/-- Cuts the rest of a text into tokens, at most a number of them. -/
def run : Nat → Scanner → Option (List Token)
  | 0, _ => none
  | fuel + 1, s => do
    let s ← (s.skipSpace (s.cursor.rest.length + 1)).expireKeys
    let s := s.dedentTo s.cursor.column
    match s.cursor.peek 0 with
    | none =>
      let s ← (s.dedentTo (-1)).dropKey
      some s.tokens
    | some x => do
      let s ← s.token x
      run fuel s

end Scanner

/-- The tokens of a text; nothing if it is not well-formed.  Each token but the last takes
a character. -/
def tokens? (text : String) : Option (List Token) :=
  let chars := text.toList
  if chars.all isAllowed then (Scanner.start chars).run (chars.length + 1) else none

end Yaml
end RecordSync
