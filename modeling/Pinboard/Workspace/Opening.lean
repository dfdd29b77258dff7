import Pinboard.Config
import Pinboard.Store.Recency
import Pinboard.Workspace.Reach

/-!
# Opening stores

A store is opened from a configuration: its database is reached, and the tables that are missing in
it are made. The application is started by opening a store once its journal is begun.
-/

namespace Pinboard

open Log Store

/-- Why a store cannot be opened. -/
inductive OpenError where
  /-- The database cannot be reached. -/
  | unreached (path : String) (e : ReachError)
  /-- The time to wait for a lock is more than a database can be told. -/
  | waitTooLong
  /-- The tables cannot be made. -/
  | schema (r : Refusal)
  /-- The database does not know the dialect's statement. -/
  | dialect (d : Dialect) (e : StorageError)
  deriving DecidableEq

/-- The wording of an error. -/
def OpenError.message : OpenError → String
  | unreached path e =>
    let shown := e.message
    s!"Failed to open db {path}: {shown}"
  | waitTooLong => "too big"
  | schema r =>
    let shown := r.failure.text
    s!"Failed to create schema: {shown}"
  | dialect d e =>
    let name := d.name
    let shown := e.message
    s!"Dialect {name} is not supported by this database: {shown}"

/-- The longest time to wait for a lock, in milliseconds. -/
def longestWait : Nat := 2147483647

/-- Makes the tables that are missing. -/
def makeTables (s : Setting) : Statement Unit := do
  let t ← get
  s.setAside
  Statement.put t.addMissing

/-- Adds the tables that are missing. Where none is, the database is only read. -/
def addTables (s : Setting) : Operation Unit := fun c =>
  match s.beginReading with
  | .error e => (.error (.storage e), c)
  | .ok () =>
    if c.tables.incomplete then
      autocommit s false (fun _ => .ok ()) (Steps.define (makeTables s)) c
    else (.ok (), c.look s)

/-- What opening a store names as the source of its line in the journal. -/
def openSource : String := "tally_core::repository::db"

/-- What starting the application names as the source of its line in the journal. -/
def startSource : String := "tally_core"

namespace Workspace

/-- Opens a store in a seat, in place of the one that is there, and notes nothing. -/
def openQuietly (w : Workspace) (s : Seat) (c : DatabaseConfig) :
    Except OpenError Unit × Workspace :=
  match (w.setSeat s none).reach c.path with
  | (.error e, w) => (.error (.unreached c.path e), w)
  | (.ok link, w) =>
    if c.busyTimeout.toNat > longestWait then (.error .waitTooLong, w)
    else
      let setting := w.setting link
      let w := w.tidy link
      let d := w.database link.backing
      match addTables setting ⟨d.tables, {}, 0⟩ with
      | (.error r, _) => (.error (.schema r), w)
      | (.ok (), connection) =>
        let store : OpenStore := ⟨c.path, c.dialect, link, connection.known, connection.changed⟩
        let kept := (w.fill link).keep s store { d with tables := connection.tables }
        match requireRecent c.dialect.strategy connection.known with
        | .error e => (.error (.dialect c.dialect e), kept.setSeat s none)
        | .ok () => (.ok (), kept)

/-- Opens a store in a seat, in place of the one that is there, and notes that it is open. -/
def openStore (w : Workspace) (s : Seat) (c : DatabaseConfig) :
    Except OpenError Unit × Workspace :=
  match w.openQuietly s c with
  | (.error e, w) => (.error e, w)
  | (.ok (), w) =>
    let path := c.path
    let name := c.dialect.name
    (.ok (), w.note .info openSource s!"Database opened at {path} ({name})")

/-- Starts the application: begins the journal, which may fail, and opens the store. -/
def bootstrap (w : Workspace) (s : Seat) (c : Config) : Except OpenError Unit × Workspace :=
  let (_, w) := w.startJournal c.log.dir c.log.appName
  match w.openStore s c.database with
  | (.error .waitTooLong, w) => (.error .waitTooLong, w)
  | (.error e, w) =>
    let shown := e.message
    (.error e, (w.tell .error s!"DB init failed: {shown}").2)
  | (.ok (), w) =>
    let w := (w.tell .info "DB init success").2
    let app := c.log.appName
    let name := c.database.dialect.name
    (.ok (), w.note .info startSource s!"{app} ready, upsert dialect {name}")

end Workspace

end Pinboard
