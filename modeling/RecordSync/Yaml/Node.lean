import RecordSync.Yaml.Token

/-!
# YAML nodes

The content of a document: a scalar, a sequence, or a mapping whose entries stand in their
order.  A text holds one document or none.

**Names.**  A node may be named, and a reference stands for a named node.  Where a node is
named, its name gets a number, which is how many different names have been given before; a
reference to the name from there on stands for the number.  In the end a number belongs to
the last node that got it, even to one of another name or one around the reference.

**Tags.**  The handle of every tag must be known.  Only scalars keep their tag.
-/

namespace RecordSync
namespace Yaml

inductive Node
  | scalar (style : Style) (tag : Option Uri) (text : String)
  | sequence (items : List Node)
  | mapping (entries : List (Node × Node))
  /-- A node whose name got a number. -/
  | named (number : Nat) (content : Node)
  /-- A reference to a number. -/
  | reference (number : Nat)
deriving Repr

/-- What is known at a place in a document. -/
structure Scope where
  handles : Handles
  /-- The names that have been given, each once with its latest number. -/
  names : List (String × Nat)

namespace Scope

def nextNumber (s : Scope) : Nat := s.names.length

def bind (s : Scope) (name : String) : Scope :=
  { s with names := (name, s.nextNumber) :: s.names.filter (fun n => n.1 != name) }

def number? (s : Scope) (name : String) : Option Nat :=
  (s.names.find? (fun n => n.1 == name)).map Prod.snd

end Scope

/-- Something that was read, with the tokens that are left and what is known behind it. -/
abbrev Read (α : Type) := α × List Token × Scope

/-- The scalar that stands where there is nothing. -/
def Node.absent : Node := .scalar .plain none ""

/-- What may stand before a node. -/
structure Properties where
  name : Option String
  tag : Option Uri

/-- Reads what stands before a node. -/
def properties (s : Scope) : List Token → Option (Properties × List Token)
  | .anchor name :: .tag t :: rest | .tag t :: .anchor name :: rest =>
    (t.uri? s.handles).map (fun uri => (⟨some name, some uri⟩, rest))
  | .anchor name :: rest => some (⟨some name, none⟩, rest)
  | .tag t :: rest => (t.uri? s.handles).map (fun uri => (⟨none, some uri⟩, rest))
  | tokens => some (⟨none, none⟩, tokens)

/-- Where a node may stand. -/
inductive Place
  | flow
  | block
  /-- In a block where a sequence need not be indented. -/
  | entry
deriving DecidableEq

mutual

def readNode : Nat → Place → List Token → Scope → Option (Read Node)
  | 0, _, _, _ => none
  | _ + 1, _, .alias name :: rest, scope =>
    (scope.number? name).map (fun n => (.reference n, rest, scope))
  | fuel + 1, place, tokens, scope => do
    let (found, tokens) ← properties scope tokens
    match found.name with
    | some name =>
      let (content, rest, after) ← readContent fuel place found tokens (scope.bind name)
      some (.named scope.nextNumber content, rest, after)
    | none => readContent fuel place found tokens scope

/-- Reads a node behind its properties. -/
def readContent : Nat → Place → Properties → List Token → Scope → Option (Read Node)
  | 0, _, _, _, _ => none
  | fuel + 1, place, found, tokens, scope =>
    match place, tokens with
    | .entry, .blockEntry :: _ => readPlainSequence fuel tokens scope []
    | _, .scalar style text :: rest => some (.scalar style found.tag text, rest, scope)
    | _, .flowSequenceStart :: rest => readFlowSequence fuel true rest scope []
    | _, .flowMappingStart :: rest => readFlowMapping fuel true rest scope []
    | .block, .blockSequenceStart :: rest | .entry, .blockSequenceStart :: rest =>
      readBlockSequence fuel rest scope []
    | .block, .blockMappingStart :: rest | .entry, .blockMappingStart :: rest =>
      readBlockMapping fuel rest scope []
    | _, _ =>
      if found.name.isSome || found.tag.isSome then
        some (.scalar .plain found.tag "", tokens, scope)
      else none

/-- Reads a node, unless one of some tokens shows that there is none. -/
def readUnless : Nat → Place → List Token → List Token → Scope → Option (Read Node)
  | 0, _, _, _, _ => none
  | fuel + 1, place, ends, tokens, scope =>
    if tokens.head?.any ends.contains then some (.absent, tokens, scope)
    else readNode fuel place tokens scope

/-- Reads the value of an entry, if there is one. -/
def readValue : Nat → Place → List Token → List Token → Scope → Option (Read Node)
  | 0, _, _, _, _ => none
  | fuel + 1, place, ends, .value :: rest, scope => readUnless fuel place ends rest scope
  | _, _, _, tokens, scope => some (.absent, tokens, scope)

/-- Reads the entries of an indented sequence and its end. -/
def readBlockSequence : Nat → List Token → Scope → List Node → Option (Read Node)
  | fuel + 1, .blockEntry :: rest, scope, found => do
    let (item, rest, scope) ← readUnless fuel .block [.blockEntry, .blockEnd] rest scope
    readBlockSequence fuel rest scope (item :: found)
  | _, .blockEnd :: rest, scope, found => some (.sequence found.reverse, rest, scope)
  | _, _, _, _ => none

/-- Reads the entries of a sequence that is not indented. -/
def readPlainSequence : Nat → List Token → Scope → List Node → Option (Read Node)
  | fuel + 1, .blockEntry :: rest, scope, found => do
    let (item, rest, scope) ←
      readUnless fuel .block [.blockEntry, .key, .value, .blockEnd] rest scope
    readPlainSequence fuel rest scope (item :: found)
  | _, tokens, scope, found => some (.sequence found.reverse, tokens, scope)

/-- Reads the entries of a mapping in a block and its end. -/
def readBlockMapping : Nat → List Token → Scope → List (Node × Node) → Option (Read Node)
  | fuel + 1, .key :: rest, scope, found => do
    let ends : List Token := [.key, .value, .blockEnd]
    let (key, rest, scope) ← readUnless fuel .entry ends rest scope
    let (value, rest, scope) ← readValue fuel .entry ends rest scope
    readBlockMapping fuel rest scope ((key, value) :: found)
  | _, .blockEnd :: rest, scope, found => some (.mapping found.reverse, rest, scope)
  | _, _, _, _ => none

/-- Reads the entries of a bracketed sequence and its end; `first` says that none has been
read. -/
def readFlowSequence : Nat → Bool → List Token → Scope → List Node → Option (Read Node)
  | 0, _, _, _, _ => none
  | fuel + 1, first, tokens, scope, found =>
    match first, tokens with
    | _, .flowSequenceEnd :: rest => some (.sequence found.reverse, rest, scope)
    | false, .flowEntry :: .flowSequenceEnd :: rest =>
        some (.sequence found.reverse, rest, scope)
    | true, rest | false, .flowEntry :: rest => do
      let (item, rest, scope) ← readFlowItem fuel rest scope
      readFlowSequence fuel false rest scope (item :: found)
    | _, _ => none

/-- Reads an item of a bracketed sequence, which may be a single entry of a mapping.  If
the key of the entry is missing, the token in its place is passed over. -/
def readFlowItem : Nat → List Token → Scope → Option (Read Node)
  | fuel + 1, .key :: rest, scope => do
    let (key, rest, scope) ←
      match rest with
      | .value :: rest | .flowEntry :: rest | .flowSequenceEnd :: rest =>
        some (.absent, rest, scope)
      | _ => readNode fuel .flow rest scope
    let (value, rest, scope) ← readValue fuel .flow [.flowEntry, .flowSequenceEnd] rest scope
    some (.mapping [(key, value)], rest, scope)
  | fuel + 1, tokens, scope => readNode fuel .flow tokens scope
  | 0, _, _ => none

/-- Reads the entries of a bracketed mapping and its end; `first` says that none has been
read. -/
def readFlowMapping : Nat → Bool → List Token → Scope → List (Node × Node) →
    Option (Read Node)
  | 0, _, _, _, _ => none
  | fuel + 1, first, tokens, scope, found =>
    match first, tokens with
    | _, .flowMappingEnd :: rest => some (.mapping found.reverse, rest, scope)
    | false, .flowEntry :: .flowMappingEnd :: rest =>
        some (.mapping found.reverse, rest, scope)
    | true, rest | false, .flowEntry :: rest => do
      let (entry, rest, scope) ← readFlowEntry fuel rest scope
      readFlowMapping fuel false rest scope (entry :: found)
    | _, _ => none

/-- Reads an entry of a bracketed mapping; one without a colon has no value. -/
def readFlowEntry : Nat → List Token → Scope → Option (Read (Node × Node))
  | fuel + 1, .key :: rest, scope => do
    let (key, rest, scope) ← readUnless fuel .flow
        [.value, .flowEntry, .flowMappingEnd] rest scope
    let (value, rest, scope) ← readValue fuel .flow [.flowEntry, .flowMappingEnd] rest scope
    some ((key, value), rest, scope)
  | fuel + 1, tokens, scope => do
    let (key, rest, scope) ← readNode fuel .flow tokens scope
    some ((key, .absent), rest, scope)
  | 0, _, _ => none

end

/-- The tokens without the marks of document ends in front. -/
def dropDocumentEnds (tokens : List Token) : List Token :=
  tokens.dropWhile (· == .documentEnd)

/-- Reads the directives in front of a document. -/
def directives : List Token → List Directive × List Token
  | .directive d :: rest =>
    let (more, rest) := directives rest
    (d :: more, rest)
  | tokens => ([], tokens)

/-- Reads a document, which may be empty behind its mark.  Directives must have the mark
behind them. -/
def readDocument (tokens : List Token) : Option (Read Node) := do
  let (given, rest) := directives tokens
  let scope : Scope := ⟨← Directive.handles? given, []⟩
  let fuel := 4 * tokens.length + 4
  match rest with
  | .documentStart :: rest =>
    if rest.isEmpty || rest.head? == some .documentEnd then some (.absent, rest, scope)
    else readNode fuel .block rest scope
  | rest => if given.isEmpty then readNode fuel .block rest scope else none

/-- The node of the only document that tokens make up, if there is a document. -/
def ofTokens? (tokens : List Token) : Option (Option Node) :=
  if tokens.isEmpty then some none
  else do
    let (node, rest, _) ← readDocument tokens
    if (dropDocumentEnds rest).isEmpty then some (some node) else none

/-- The node of the only document of a text.  The outer option is empty for a text that is
not well-formed, the inner for one without a document. -/
def document? (text : String) : Option (Option Node) :=
  (tokens? text).bind ofTokens?

/-! ## Named nodes -/

mutual

/-- The numbers that were got in a node, with their nodes, in the order of the text. -/
def Node.numbered : Node → List (Nat × Node)
  | .scalar _ _ _ | .reference _ => []
  | .sequence items => numberedItems items
  | .mapping entries => numberedEntries entries
  | .named number content => (number, content) :: content.numbered

def numberedItems : List Node → List (Nat × Node)
  | [] => []
  | item :: rest => item.numbered ++ numberedItems rest

def numberedEntries : List (Node × Node) → List (Nat × Node)
  | [] => []
  | (key, value) :: rest => key.numbered ++ value.numbered ++ numberedEntries rest

end

/-- What a node of a document is, be it named or a reference. -/
def Node.resolve? (root : Node) : Node → Option Node
  | .named _ content => some content
  | .reference number =>
      (root.numbered.reverse.find? (fun n => n.1 == number)).map Prod.snd
  | node => some node

end Yaml
end RecordSync
