import RecordSync.Binary64

/-!
# Field values

A field of a record holds a text, an integer, a floating-point number, a truth value or a
string of bytes; on the wire it may also be null.  A floating-point number is kept as its
bits, so two values are equal exactly when they have the same kind and the same content, a
NaN included.

Each field is declared with a `FieldKind`.  `FieldKind.coerce?` says which wire values a
field of that kind accepts: those of its own kind, and for a floating-point field integers
too.
-/

namespace RecordSync

/-- A string of bytes. -/
abbrev Bytes := List UInt8

/-- A value of a field, as it is stored and sent. -/
inductive Value
  | null
  | text (content : String)
  | integer (number : Int)
  | real (bits : UInt64)
  | boolean (truth : Bool)
  | bytes (content : Bytes)
deriving DecidableEq, Repr, Inhabited

/-- The declared kind of a field. -/
inductive FieldKind
  | text
  | integer
  | real
  | boolean
  | bytes
deriving DecidableEq, Repr

namespace Value

def kindName : Value → String
  | null => "null"
  | text _ => "text"
  | integer _ => "integer"
  | real _ => "float"
  | boolean _ => "boolean"
  | bytes _ => "bytes"

def isNull : Value → Bool
  | null => true
  | _ => false

/-- Equality of values in which floating-point numbers are compared as numbers: a NaN
differs from itself and the two zeros agree. -/
def numEq : Value → Value → Bool
  | real a, real b => Binary64.numEq a b
  | a, b => a == b

end Value

namespace FieldKind

/-- The name under which a kind is reported. -/
def name : FieldKind → String
  | text => "text"
  | integer => "integer"
  | real => "float"
  | boolean => "boolean"
  | bytes => "bytes"

/-- The value of a field that was never given one. -/
def default : FieldKind → Value
  | text => .text ""
  | integer => .integer 0
  | real => .real 0
  | boolean => .boolean false
  | bytes => .bytes []

/-- The value is one that a field of this kind can hold. -/
def Holds : FieldKind → Value → Bool
  | text, .text _ => true
  | integer, .integer _ => true
  | real, .real _ => true
  | boolean, .boolean _ => true
  | bytes, .bytes _ => true
  | _, _ => false

/-- The content of a field of this kind that a wire value gives: an integer is converted
for a floating-point field, any other change of kind is refused. -/
def coerce? : FieldKind → Value → Option Value
  | real, .integer n => some (.real (Binary64.ofInt n))
  | kind, value => if kind.Holds value then some value else none

theorem holds_default (kind : FieldKind) : kind.Holds kind.default = true := by
  cases kind <;> rfl

theorem holds_of_coerce? {kind : FieldKind} {wire value : Value}
    (h : kind.coerce? wire = some value) : kind.Holds value = true := by
  cases kind <;> cases wire <;> simp_all [coerce?, Holds] <;> (cases h; rfl)

theorem coerce?_of_holds {kind : FieldKind} {value : Value}
    (h : kind.Holds value = true) : kind.coerce? value = some value := by
  cases kind <;> cases value <;> simp_all [coerce?, Holds]

end FieldKind
end RecordSync
