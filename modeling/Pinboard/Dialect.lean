import Pinboard.Failure
import Pinboard.Text.Blank

/-!
# Dialects

The families of database that the store's recency ledger can be written for. They differ in the
statement that inserts a row or, if its key is there already, puts the new moment in its place.
-/

namespace Pinboard

/-- A family of databases. -/
inductive Dialect where
  /-- SQLite. -/
  | sqlite
  /-- MySQL. -/
  | mysql
  /-- PostgreSQL. -/
  | postgres
  deriving DecidableEq, Repr

namespace Dialect

/-- SQLite, unless another one is chosen. -/
instance : Inhabited Dialect := ⟨sqlite⟩

/-- The name of a dialect. -/
def name : Dialect → String
  | sqlite => "sqlite3"
  | mysql => "mysql"
  | postgres => "postgres"

/-- The names that a dialect goes by, in lower case. -/
def spellings : List (String × Dialect) :=
  [("sqlite", sqlite), ("sqlite3", sqlite), ("mysql", mysql), ("postgres", postgres),
    ("postgresql", postgres)]

/-- The dialect with a name, blanks around it and the case of its letters aside. -/
def ofText? (s : String) : Except Failure Dialect :=
  let name := (Text.trim s).toLower
  match spellings.lookup name with
  | some d => .ok d
  | none => .error ⟨.invalidInput, s!"Unknown dialect '{name}'"⟩

/-- How a dialect deals with a row whose key is there already. -/
inductive Strategy where
  /-- The old row makes way for the new one. -/
  | replace
  /-- The old row is changed, by a clause that names no key. -/
  | duplicateKey
  /-- The old row is changed, by a clause that names the key. -/
  | conflictTarget
  deriving DecidableEq, Repr

/-- The strategy of a dialect. -/
def strategy : Dialect → Strategy
  | sqlite => .replace
  | mysql => .duplicateKey
  | postgres => .conflictTarget

/-- The dialect that a strategy belongs to. -/
def Strategy.dialect : Strategy → Dialect
  | .replace => sqlite
  | .duplicateKey => mysql
  | .conflictTarget => postgres

/-- The statement, with places for the owner, the key and the moment in this order. -/
def Strategy.statement : Strategy → String
  | .replace =>
    "INSERT OR REPLACE INTO user_recent_tags (user_id, tag_key, last_used_at) VALUES (?, ?, ?)"
  | .duplicateKey =>
    "INSERT INTO user_recent_tags (user_id, tag_key, last_used_at) VALUES (?, ?, ?)\n" ++
      "         ON DUPLICATE KEY UPDATE last_used_at = VALUES(last_used_at)"
  | .conflictTarget =>
    "INSERT INTO user_recent_tags (user_id, tag_key, last_used_at) VALUES (?, ?, ?)\n" ++
      "         ON CONFLICT (user_id, tag_key) DO UPDATE SET last_used_at = excluded.last_used_at"

end Dialect

end Pinboard
