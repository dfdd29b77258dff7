import Pinboard.Entity
import Pinboard.Store.Transaction
import Pinboard.Text.Blank

/-!
# Users in the store

Making, finding and removing users. What belongs to a user goes with it.
-/

namespace Pinboard.Store

/-- The user in a row. -/
def UserRow.read (r : UserRow) : Except StorageError User := do
  pure ⟨← readUInt32 r.id 0, ← r.name.readText 1 "name"⟩

/-- What a new user's name is refused for. Every rule that the row breaks counts as the name being
taken. -/
def blameUser (name : String) (e : StorageError) : Refusal :=
  if e.isConstraint then .userExists name else .storage e

/-- Makes a user. -/
def createUser (s : Setting) (name : String) : Operation User :=
  if Text.allBlank name then refused .blankUserName
  else autocommit s true (requireFor · .users .insert) do
    let number ← Steps.tryWith (blameUser name) (fun _ => 1)
      (insertUser s none (some (.text name)))
    pure ⟨cut32 number, name⟩

/-- The user with a number, if there is one. -/
def findUser (s : Setting) (id : UserId) : Operation (Option User) :=
  inspect s (requireTable · .users) fun t => fromStorage do
    match (← t.userRows).find? (·.id == wide id) with
    | some r => some <$> r.read
    | none => pure none

/-- Removes a user and everything that belongs to it. That there is none is found out after the
statement has taken effect. -/
def removeUser (s : Setting) (id : UserId) : Operation Unit :=
  (autocommit s true requireRemoval (Steps.changeMany (deleteUser s (wide id)))).judge
    fun count =>
    if count = 0 then .error (.userMissing id) else .ok ()

end Pinboard.Store
