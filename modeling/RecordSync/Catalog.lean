import RecordSync.Value

/-!
# Catalogues of record types

A catalogue declares types of records.  Each type has fields, each of a kind, and sets,
each of which holds records of one type.  Within a type the names of fields and sets are
distinct.

A set is ordered or not.  An element is in an ordered set while it has a position; it is
in an unordered set while it is not deleted.
-/

namespace RecordSync

/-- Whether the elements of a set have positions. -/
inductive SetKind
  | ordered
  | unordered
deriving DecidableEq, Repr

/-- The declaration of a field. -/
structure FieldDecl where
  name : String
  kind : FieldKind
deriving DecidableEq, Repr

/-- The declaration of a set of records of one type. -/
structure SetDecl (τ : Type) where
  name : String
  kind : SetKind
  element : τ
deriving DecidableEq, Repr

/-- A catalogue of the record types that `τ` names. -/
class Catalog (τ : Type) where
  fields : τ → List FieldDecl
  sets : τ → List (SetDecl τ)
  /-- No two parts of a type share a name. -/
  nodup_names : ∀ type, ((fields type).map (·.name) ++ (sets type).map (·.name)).Nodup

end RecordSync
