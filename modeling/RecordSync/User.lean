/-!
# Users and permissions

A user has a set of permissions, kept as the bits of a number.  Opening or making a record
requires some of them.

**Results.**  `User.require` refuses a user who lacks a required permission and names
those lacking.
-/

namespace RecordSync

def permView : Nat := 1

def permEditTasks : Nat := 2

def permEditKims : Nat := 4

structure User where
  id : Int
  login : String
  /-- The permissions, as bits. -/
  permissions : Nat
deriving DecidableEq, Repr

/-- A user lacks the permissions whose bits are given. -/
structure Forbidden where
  login : String
  lacking : Nat
deriving DecidableEq, Repr

def Forbidden.message (f : Forbidden) : String :=
  s!"access denied: user {f.login} lacks permissions 0x{String.ofList (Nat.toDigits 16 f.lacking)}"

namespace User

/-- The user has all of some permissions. -/
def has (u : User) (required : Nat) : Bool := u.permissions &&& required == required

/-- Refuses a user who lacks one of some permissions. -/
def require (u : User) (required : Nat) : Except Forbidden Unit :=
  if u.has required then .ok ()
  else .error ⟨u.login, required ^^^ (u.permissions &&& required)⟩

/-- The user of a client that no one signed in to: it may do all but administer. -/
def admin : User := ⟨1, "admin", permView ||| permEditTasks ||| permEditKims⟩

end User
end RecordSync
