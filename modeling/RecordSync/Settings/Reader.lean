import RecordSync.Settings
import RecordSync.Yaml.Node

/-!
# Settings from a text

Settings are written as a YAML mapping from their names.  What is not named has its
default, unknown names are passed over, and a known name may stand only once.  A text
without a document holds no settings of its own.

Text settings take the text of any scalar.  Numbers are whole, in decimal without leading
zeros or with one of the marks for hexadecimal, octal and binary; they stand plain, or in
a literal block that has the tag of whole numbers.  A plain null stands for no time limit,
unless it has another tag.
-/

namespace RecordSync
namespace Settings

/-- A number in a base, from its digits. -/
def ofDigits? (base : Nat) (digits : List Char) : Option Nat :=
  if digits.isEmpty then none
  else do
    let values ← digits.mapM Yaml.hexValue?
    if values.any (base ≤ ·) then none
    else some (values.foldl (fun acc v => acc * base + v) 0)

/-- The whole number that a plain scalar stands for; it may have a plus in front. -/
def ofScalar? (text : String) : Option Nat :=
  let digits := match text.toList with
    | '+' :: rest => rest
    | chars => chars
  match digits with
  | '0' :: 'x' :: rest => ofDigits? 16 rest
  | '0' :: 'o' :: rest => ofDigits? 8 rest
  | '0' :: 'b' :: rest => ofDigits? 2 rest
  | ['0'] => some 0
  | '0' :: _ => none
  | digits => ofDigits? 10 digits

def textOf? : Yaml.Node → Option String
  | .scalar _ _ text => some text
  | _ => none

def numberTag : Yaml.Uri := Yaml.Handles.core ++ Yaml.Uri.ofAscii "int".toList

def nullTag : Yaml.Uri := Yaml.Handles.core ++ Yaml.Uri.ofAscii "null".toList

/-- The number below a bound that a node stands for. -/
def numberOf? (bound : Nat) : Yaml.Node → Option Nat
  | .scalar style tag text =>
    if style = .plain || (style = .literal && tag = some numberTag) then
      (ofScalar? text).filter (· < bound)
    else none
  | _ => none

/-- The texts that stand for null. -/
def nulls : List String := ["~", "null", "Null", "NULL"]

/-- The time limit that a node stands for. -/
def limitOf? (node : Yaml.Node) : Option (Option Nat) :=
  let number := (numberOf? (1 <<< 64) node).map some
  match node with
  | .scalar .plain none text =>
      if text = "" || nulls.contains text then some none else number
  | .scalar .plain (some tag) text =>
    if tag = nullTag then (if nulls.contains text then some none else none) else number
  | _ => number

def withEntry (s : Settings) (name : String) (content : Yaml.Node) : Option Settings :=
  match name with
  | "saving_text" => (textOf? content).map (fun t => { s with savingText := t })
  | "saved_text" => (textOf? content).map (fun t => { s with savedText := t })
  | "failed_text" => (textOf? content).map (fun t => { s with failedText := t })
  | "id_batch_size" =>
      (numberOf? (1 <<< 32) content).map (fun n => { s with batchSize := n })
  | "drain_timeout_ms" => (limitOf? content).map (fun n => { s with drainTimeout := n })
  | _ => some s

def names : List String :=
  ["saving_text", "saved_text", "failed_text", "id_batch_size", "drain_timeout_ms"]

/-- Takes over the entries of a mapping in a document, none of which may have one of the
names that are taken. -/
def withEntries (root : Yaml.Node) (taken : List String) :
    List (Yaml.Node × Yaml.Node) → Settings → Option Settings
  | [], s => some s
  | (key, value) :: rest, s => do
    let name ← textOf? (← root.resolve? key)
    if taken.contains name then none
    let s ← s.withEntry name (← root.resolve? value)
    withEntries root (if names.contains name then name :: taken else taken) rest s

/-- The settings that a document gives. -/
def ofNode? (root : Yaml.Node) : Option Settings := do
  match ← root.resolve? root with
  | .mapping entries => withEntries root [] entries .default
  | .scalar .plain _ "" => some .default
  | _ => none

/-- The settings that a text gives. -/
def ofText (text : String) : Except SettingsError Settings :=
  let read : Option Settings :=
    (Yaml.document? text).bind (fun node => node.elim (some .default) ofNode?)
  match read with
  | some s => s.validate
  | none => .error .unreadable

end Settings
end RecordSync
