import RecordSync.Message
import RecordSync.Packed.Reader

/-!
# Packed values and messages

The packed forms of `Value` and `Message`, and how they are read back.

**Values.**  Null is the text of its name.  Any other value is a map with one entry from
the name of its kind to its content; a string of bytes is an array of numbers.  A reader
also takes the number of a kind for its name, null as a map to nil, an integer for a
floating-point number, and a byte string in the packed format's own form.

**Messages.**  A message is a map from the names of its parts, without the parts that are
empty.  A reader skips parts that it does not know, takes the number of a part for its
name, and also takes an array of the parts in their order.

**Limits.**  At most `maxLevels` arrays, maps and extensions may stand inside each other,
where the map of a value does not count.  Bytes after the item are not looked at.
-/

namespace RecordSync
namespace Packed

/-- How many arrays, maps and extensions may stand inside each other. -/
def maxLevels : Nat := 1023

namespace Item

/-- The content of a text or byte string. -/
def content? : Item → Option Bytes
  | text content => some content
  | binary content => some content
  | _ => none

/-- The text that an item holds, if its bytes are well-formed. -/
def string? (item : Item) : Option String :=
  item.content?.bind (fun content => String.fromUTF8? (ByteArray.mk content.toArray))

/-- The number that an item holds, in any form. -/
def number? : Item → Option Int
  | unsigned n => some n
  | signed n => some n
  | _ => none

/-- The number that an item holds, if it is one of the signed 64-bit numbers. -/
def integer? (item : Item) : Option Int :=
  item.number?.filter (fun n => -9223372036854775808 ≤ n && n ≤ 9223372036854775807)

/-- The byte that an item holds as a number. -/
def byte? (item : Item) : Option UInt8 :=
  (item.number?.filter (fun n => 0 ≤ n && n ≤ 255)).map (fun n => UInt8.ofNat n.toNat)

/-- The floating-point number that an item holds; an integer is rounded. -/
def real? : Item → Option UInt64
  | binary64 bits => some bits
  | binary32 bits => some (Binary64.ofBinary32 bits)
  | item => item.number?.map Binary64.ofInt

def boolean? : Item → Option Bool
  | boolean truth => some truth
  | _ => none

/-- The bytes that an item holds, as a byte string or as an array of numbers. -/
def bytes? (levels : Nat) : Item → Option Bytes
  | binary content => some content
  | array items => if levels = 0 then none else items.mapM byte?
  | _ => none

/-- The place in a list of names that an item selects, by name or by number. -/
def selector? (names : List String) : Item → Option Nat
  | unsigned n => some n
  | item => item.content?.map (fun content =>
      names.findIdx (fun name => name.toUTF8.data.toList == content))

/-- An item that may be nil. -/
def optional? {α : Type} (read : Item → Option α) : Item → Option (Option α)
  | nil => some none
  | item => (read item).map some

end Item

/-- The names of the kinds of values, in the order of their numbers. -/
def valueNames : List String :=
  ["Null", "Text", "Integer", "Float", "Boolean", "Bytes"]

/-- The item of a value. -/
def ofValue : Value → Item
  | .null => .ofString "Null"
  | .text content => .map [(.ofString "Text", .ofString content)]
  | .integer n => .map [(.ofString "Integer", .ofInt n)]
  | .real bits => .map [(.ofString "Float", .binary64 bits)]
  | .boolean truth => .map [(.ofString "Boolean", .boolean truth)]
  | .bytes content =>
    .map [(.ofString "Bytes", .array (content.map (fun b => .unsigned b.toNat)))]

/-- The value of the numbered kind that an item holds. -/
def contentOf (levels : Nat) : Nat → Item → Option Value
  | 0, .nil => some .null
  | 1, item => item.string?.map .text
  | 2, item => item.integer?.map .integer
  | 3, item => item.real?.map .real
  | 4, item => item.boolean?.map .boolean
  | 5, item => (item.bytes? levels).map .bytes
  | _, _ => none

/-- The value that an item stands for. -/
def toValue (levels : Nat) : Item → Option Value
  | .map [(key, content)] =>
    (key.selector? valueNames).bind (fun kind => contentOf levels kind content)
  | .map _ => none
  | item => if item.selector? valueNames = some 0 then some .null else none

/-- The names of the parts of a message, in the order of their numbers. -/
def partNames : List String :=
  ["id", "fields", "children", "position", "swap_position", "deleted"]

/-- A part that is left out when it is empty. -/
def part (name : String) (content : Option Item) : List (Item × Item) :=
  match content with
  | some item => [(.ofString name, item)]
  | none => []

mutual

def ofMessage : Message → Item
  | ⟨id, fields, children, position, swapPosition, deleted⟩ =>
    .map <|
      part "id" (some (.ofInt id)) ++
      part "fields" (if fields.isEmpty then none
        else some (.map
          (fields.map (fun (name, value) => (.ofString name, ofValue value))))) ++
      part "children" (if children.isEmpty then none else some (.map (ofGroups children))) ++
      part "position" (position.map .ofInt) ++
      part "swap_position" (swapPosition.map .ofInt) ++
      part "deleted" (deleted.map .boolean)

def ofGroups : List Group → List (Item × Item)
  | [] => []
  | ⟨name, members⟩ :: rest =>
      (.ofString name, .array (ofMembers members)) :: ofGroups rest

def ofMembers : List Message → List Item
  | [] => []
  | message :: rest => ofMessage message :: ofMembers rest

end

/-- The parts of a message read so far. -/
structure Draft where
  id : Option Int
  fields : Option (List (String × Value))
  children : Option (List Group)
  position : Option (Option Int)
  swapPosition : Option (Option Int)
  deleted : Option (Option Bool)

namespace Draft

def blank : Draft := ⟨none, none, none, none, none, none⟩

/-- The message, once its id is known. -/
def finish (d : Draft) : Option Message :=
  d.id.map (fun id => ⟨id, d.fields.getD [], d.children.getD [], d.position.getD none,
    d.swapPosition.getD none, d.deleted.getD none⟩)

end Draft

/-- The fields that the entries of a map stand for; of two of one name the later stays. -/
def toFields (levels : Nat) : List (Item × Item) → List (String × Value) →
    Option (List (String × Value))
  | [], found => some found
  | (key, content) :: rest, found => do
    let name ← key.string?
    let value ← toValue levels content
    toFields levels rest (SortedList.insert Prod.fst (name, value) found)

/-- The content of the part that holds the fields. -/
def toFieldPart (levels : Nat) : Item → Option (List (String × Value))
  | .map entries => if levels = 0 then none else toFields (levels - 1) entries []
  | _ => none

/-- Adds the numbered part, which must not be there yet, unless it holds children; a part
of a higher number is skipped. -/
def addPlainPart (levels number : Nat) (content : Item) (draft : Draft) : Option Draft :=
  match number with
  | 0 => if draft.id.isSome then none
    else content.integer?.map (fun id => { draft with id := some id })
  | 1 => if draft.fields.isSome then none
    else (toFieldPart levels content).map (fun fields => { draft with fields := some fields })
  | 2 => none
  | 3 => if draft.position.isSome then none
    else (content.optional? Item.integer?).map (fun p => { draft with position := some p })
  | 4 => if draft.swapPosition.isSome then none
    else (content.optional? Item.integer?).map (fun p => { draft with swapPosition := some p })
  | 5 => if draft.deleted.isSome then none
    else (content.optional? Item.boolean?).map (fun d => { draft with deleted := some d })
  | _ => if content.levels ≤ levels then some draft else none

mutual

/-- The message that an item stands for. -/
def toMessage (levels : Nat) : Item → Option Message
  | .map entries =>
    if levels = 0 then none
    else (addEntries (levels - 1) entries .blank).bind Draft.finish
  | .array items =>
    if levels = 0 then none else (addItems (levels - 1) 0 items .blank).bind Draft.finish
  | _ => none

/-- Adds the parts that the entries of a map name; an unknown part is skipped. -/
def addEntries (levels : Nat) : List (Item × Item) → Draft → Option Draft
  | [], draft => some draft
  | (key, content) :: rest, draft => do
    let draft ← addPart levels (← key.selector? partNames) content draft
    addEntries levels rest draft

/-- Adds the parts that an array lists in their order, from a given number on; there are
no more than the named ones. -/
def addItems (levels number : Nat) : List Item → Draft → Option Draft
  | [], draft => some draft
  | content :: rest, draft => do
    if partNames.length ≤ number then none
    let draft ← addPart levels number content draft
    addItems levels (number + 1) rest draft

/-- Adds the numbered part, which must not be there yet. -/
def addPart (levels : Nat) : Nat → Item → Draft → Option Draft
  | 2, .map entries, draft =>
    if draft.children.isSome || levels = 0 then none
    else (toGroups (levels - 1) entries []).map
      (fun groups => { draft with children := some groups })
  | number, content, draft => addPlainPart levels number content draft

/-- The groups that the entries of a map stand for; of two of one name the later stays. -/
def toGroups (levels : Nat) : List (Item × Item) → List Group → Option (List Group)
  | [], found => some found
  | (key, content) :: rest, found => do
    let name ← key.string?
    let members ← toMemberPart levels content
    toGroups levels rest (SortedList.insert Group.name ⟨name, members⟩ found)

/-- The messages of one group; the empty byte string holds none. -/
def toMemberPart (levels : Nat) : Item → Option (List Message)
  | .array items => if levels = 0 then none else toMembers (levels - 1) items
  | .binary [] => some []
  | _ => none

def toMembers (levels : Nat) : List Item → Option (List Message)
  | [] => some []
  | item :: rest => do
    let message ← toMessage levels item
    let others ← toMembers levels rest
    some (message :: others)

end

/-- Reads an item off some bytes and interprets it. -/
def decodeWith {α : Type} (interpret : Item → Option α) (input : Bytes) :
    Except RecordError α :=
  match (readItem (maxLevels + 1) input).bind (fun (item, _) => interpret item) with
  | some x => .ok x
  | none => .error .unreadable

end Packed

namespace Value

def encode (value : Value) : Bytes :=
  (Packed.ofValue value).write

/-- Reads a value from packed bytes. -/
def decode (input : Bytes) : Except RecordError Value :=
  Packed.decodeWith (Packed.toValue Packed.maxLevels) input

end Value

namespace Message

def encode (message : Message) : Bytes :=
  (Packed.ofMessage message).write

/-- Reads a message from packed bytes. -/
def decode (input : Bytes) : Except RecordError Message :=
  Packed.decodeWith (Packed.toMessage Packed.maxLevels) input

end Message
end RecordSync
