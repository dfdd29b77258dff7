import Pinboard.Dialect

/-!
# Configuration

Where the database lies and how it is spoken to, and where the log goes. Every setting has a
default.
-/

namespace Pinboard

/-- Settings of the database. -/
structure DatabaseConfig where
  /-- The file; `:memory:` keeps the database in memory. -/
  path : String := "tally.db"
  /-- The dialect of the recency statement. -/
  dialect : Dialect := .sqlite
  /-- How long to wait for a lock, in milliseconds. -/
  busyTimeout : UInt64 := 5000
  deriving DecidableEq, Repr

/-- A database in memory. -/
def DatabaseConfig.inMemory : DatabaseConfig := { path := ":memory:" }

/-- The same settings with another dialect. -/
def DatabaseConfig.withDialect (c : DatabaseConfig) (d : Dialect) : DatabaseConfig :=
  { c with dialect := d }

/-- Settings of the log. -/
structure LogConfig where
  /-- The directory of the log files. -/
  dir : String := "logs"
  /-- The name that the files begin with. -/
  appName : String := "Tally"
  deriving DecidableEq, Repr

/-- All settings. -/
structure Config where
  /-- Settings of the database. -/
  database : DatabaseConfig := {}
  /-- Settings of the log. -/
  log : LogConfig := {}
  deriving DecidableEq, Repr

end Pinboard
