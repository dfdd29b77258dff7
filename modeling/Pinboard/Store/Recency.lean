import Pinboard.Entity
import Pinboard.Store.Transaction

/-!
# The ledger of recent uses

For each user and key the moment of the last recorded use, in whole milliseconds. A key need not
belong to a tag. Recording comes in two ways: one that reports a failure, and one that carries on
and leaves the failure to be logged.
-/

namespace Pinboard.Store

/-- The row of a use, still to be numbered. -/
def RecentRow.ofUse (owner : UserId) (key : String) (moment : Time.Instant) : RecentRow :=
  ⟨unnumbered, wide owner, .text key, .integer moment.millis⟩

/-- Records a use. -/
def recordUse (s : Setting) (strategy : Dialect.Strategy) (owner : UserId) (key : String)
    (moment : Time.Instant) : Operation Unit :=
  autocommit s true (requireRecent strategy)
    (Steps.change (putRecent s strategy (.ofUse owner key moment)))

/-- A use that could not be recorded, and why. -/
structure Unrecorded where
  /-- The key. -/
  key : String
  /-- The cause. -/
  cause : Refusal
  deriving DecidableEq

/-- Records the same moment for several keys, each on its own, and tells which could not be
recorded. -/
def recordUses (s : Setting) (strategy : Dialect.Strategy) (owner : UserId)
    (moment : Time.Instant) : List String → Connection → List Unrecorded × Connection
  | [], c => ([], c)
  | key :: keys, c =>
    let (result, c) := recordUse s strategy owner key moment c
    let (unrecorded, c) := recordUses s strategy owner moment keys c
    match result with
    | .ok () => (unrecorded, c)
    | .error cause => (⟨key, cause⟩ :: unrecorded, c)

/-- The last use of a key by a user, if one was recorded. -/
def findUse (s : Setting) (owner : UserId) (key : String) : Operation (Option TagUse) :=
  inspect s (requireTable · .recents) fun t =>
    match t.recentRows with
    | .error e => .error (.storage e)
    | .ok rows =>
      match rows.find? (·.isFor (wide owner) (.text key)) with
      | none => .ok none
      | some r =>
        match r.lastUsed.readInteger 0 "last_used_at" with
        | .error e => .error (.storage e)
        | .ok ms =>
          match Time.Instant.ofMillis? ms with
          | some moment => .ok (some ⟨owner, key, moment⟩)
          | none => .error (.badMoment ms key)

end Pinboard.Store
