import RecordSync.Yaml.Tag

/-!
# YAML directives

What is said in front of a document: the version of the format, and what handles of tags
stand for.  The version is said at most once and must be a known one, and so is each
handle.
-/

namespace RecordSync
namespace Yaml

/-- A line in front of a document. -/
inductive Directive
  | version (major minor : Nat)
  | handle (name : String) (uri : Uri)
deriving DecidableEq, Repr

namespace Directive

def number (c : Cursor) : Option (Nat × Cursor) :=
  let (digits, c) := c.takeWhile Char.isDigit
  if digits.isEmpty || 9 < digits.length then none
  else some (digits.foldl (fun n x => n * 10 + (x.toNat - '0'.toNat)) 0, c)

def readVersion (c : Cursor) : Option (Directive × Cursor) := do
  let (major, c) ← number c
  if !c.sees '.' then none
  let (minor, c) ← number (c.skip 1)
  some (.version major minor, c)

/-- Reads a handle and the URI that it stands for. -/
def readHandle (c : Cursor) : Option (Directive × Cursor) := do
  if !c.sees '!' then none
  let (word, c) := (c.skip 1).takeWhile isWord
  let (name, c) ←
    if c.sees '!' then some ("!" ++ String.ofList word ++ "!", c.skip 1)
    else if word.isEmpty then some ("!", c)
    else none
  if !c.test 0 isBlank then none
  let (uri, c) ← Uri.read false c.skipBlanks
  if c.isBlankOrEnd 0 then some (.handle name uri, c) else none

/-- Reads a directive behind its percent sign, up to the start of the next line. -/
def read (c : Cursor) : Option (Directive × Cursor) := do
  let (word, c) := c.takeWhile isWord
  if !c.isBlankOrEnd 0 then none
  let (found, c) ←
    match String.ofList word with
    | "YAML" => readVersion c.skipBlanks
    | "TAG" => readHandle c.skipBlanks
    | _ => none
  some (found, ← c.nextLine?)

/-- The directive gives a version. -/
def isVersion : Directive → Bool
  | version _ _ => true
  | handle _ _ => false

/-- The versions of the format that are known. -/
def isKnown : Directive → Bool
  | version major minor => major == 1 && (minor == 1 || minor == 2)
  | handle _ _ => true

def handle? : Directive → Option (String × Uri)
  | version _ _ => none
  | handle name uri => some (name, uri)

/-- The handles that are known behind some directives, the given ones first. -/
def handles? (found : List Directive) : Option Handles :=
  let given := found.filterMap handle?
  if found.all isKnown && found.countP isVersion ≤ 1 && (given.map Prod.fst).Nodup then
    some (given ++ Handles.standard)
  else none

end Directive
end Yaml
end RecordSync
