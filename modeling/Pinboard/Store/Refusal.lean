import Pinboard.Failure
import Pinboard.Store.StorageError

/-!
# Why an operation is refused

The causes for which an operation on the store fails, and the failure that each is reported as.
-/

namespace Pinboard.Store

/-- Why an operation fails. -/
inductive Refusal where
  /-- A user was given no name. -/
  | blankUserName
  /-- A dashboard was given no name. -/
  | blankDashboardName
  /-- A tag was given no key. -/
  | blankTagKey
  /-- There is no such user. -/
  | userMissing (id : UInt32)
  /-- The owner has no such dashboard. -/
  | dashboardMissing (id : UInt32)
  /-- The owner has no such tag. -/
  | tagMissing (key : String)
  /-- A user cannot be made, for there is one of that name. -/
  | userExists (name : String)
  /-- A tag cannot be made, for there is one with that key. -/
  | tagExists (key : String)
  /-- The moment stored for a key lies out of range. -/
  | badMoment (ms : Int) (key : String)
  /-- The database refused. -/
  | storage (e : StorageError)
  deriving DecidableEq

/-- The failure that is reported. -/
def Refusal.failure : Refusal → Failure
  | blankUserName => ⟨.invalidInput, "User name must not be empty"⟩
  | blankDashboardName => ⟨.invalidInput, "Dashboard name must not be empty"⟩
  | blankTagKey => ⟨.invalidInput, "Tag key must not be empty"⟩
  | userMissing id =>
    let n := id.toNat
    ⟨.notFound, s!"User {n} not found"⟩
  | dashboardMissing id =>
    let n := id.toNat
    ⟨.notFound, s!"Dashboard {n} not found"⟩
  | tagMissing key => ⟨.notFound, s!"Tag {key} not found"⟩
  | userExists name => ⟨.conflict, s!"User {name} already exists"⟩
  | tagExists key => ⟨.conflict, s!"Tag {key} already exists"⟩
  | badMoment ms key => ⟨.internal, s!"Invalid last_used_at {ms} for tag {key}"⟩
  | storage e => ⟨.internal, e.message⟩

end Pinboard.Store
