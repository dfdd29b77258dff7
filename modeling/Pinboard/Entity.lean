import Pinboard.Time.Instant

/-!
# Users, dashboards and tags

What the store hands out: users, the dashboards a user keeps in order, the tags a user has defined,
and the moment a user last used a tag.
-/

namespace Pinboard

/-- The number of a user. -/
abbrev UserId := UInt32

/-- A user, the owner of dashboards and tags. -/
structure User where
  /-- The number of the user. -/
  id : UserId
  /-- The name, unique among users. -/
  name : String
  deriving DecidableEq, Repr

/-- A dashboard in its owner's list. -/
structure Dashboard where
  /-- The number of the dashboard, unique among all of them. -/
  id : UInt32
  /-- The owner. -/
  owner : UserId
  /-- The name. -/
  name : String
  /-- The position in the owner's list. -/
  order : Int32
  deriving DecidableEq, Repr

/-- A dashboard that is not stored yet: number and position are still to be given. -/
def Dashboard.draft (owner : UserId) (name : String) : Dashboard := ⟨0, owner, name, 0⟩

/-- Does a tag carry a value where it is attached? -/
inductive TagKind where
  /-- It carries none. -/
  | noValue
  /-- It carries one. -/
  | singleValue
  deriving DecidableEq, Repr

namespace TagKind

/-- A tag carries no value unless it is said to. -/
instance : Inhabited TagKind := ⟨noValue⟩

/-- The name of a kind. -/
def name : TagKind → String
  | noValue => "novalue"
  | singleValue => "singlevalue"

/-- The kind with a given name; every other name stands for a tag without a value. -/
def ofName (s : String) : TagKind := if s = singleValue.name then singleValue else noValue

end TagKind

/-- A tag that a user has defined. -/
structure Tag where
  /-- The owner. -/
  owner : UserId
  /-- The key, unique among the owner's tags. -/
  key : String
  /-- The colour it is shown in. -/
  color : String
  /-- Does it carry a value? -/
  kind : TagKind
  deriving DecidableEq, Repr

/-- The moment a user last used a tag key. -/
structure TagUse where
  /-- The user. -/
  owner : UserId
  /-- The key; a tag with it need not be defined. -/
  key : String
  /-- The moment. -/
  lastUsed : Time.Instant
  deriving DecidableEq

end Pinboard
