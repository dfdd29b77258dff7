import Pinboard.Store.Address
import Pinboard.Workspace

/-!
# Reaching a database

From the address of a database to a link. A database in a file begins as an empty file, and the file
holds it from the moment its tables are made.
-/

namespace Pinboard

open Files Store

/-- Why a database cannot be reached. -/
inductive ReachError where
  /-- The path holds the character zero at a byte. -/
  | zeroInPath (position : Nat)
  /-- The path is an address that cannot be followed. -/
  | address (e : AddressError)
  /-- The file cannot be opened. -/
  | unopened (path : String)
  /-- It can be opened, but not read. -/
  | unread
  deriving DecidableEq

/-- The wording of an error. -/
def ReachError.message : ReachError → String
  | zeroInPath position => s!"nul byte found in provided data at position: {position}"
  | address e => e.message
  | unopened path => s!"unable to open database file: {path}"
  | unread => StorageError.ioError.message

/-- The place of the first character zero, in bytes. -/
def zeroPosition? (s : String) : Option Nat :=
  if s.toList.contains '\x00' then
    some (Text.utf8Length (s.toList.takeWhile (· ≠ '\x00')))
  else none

/-- What the file of a database begins with, and a byte that is part of no text. -/
def databaseImage : ByteArray := "SQLite format 3\x00".toUTF8.push 0xFF

namespace Workspace

/-! ## Links -/

/-- Opens the file of a database. Only some accesses make it if it is not there, and only a reader
can open a directory, if not read it. -/
def openFile (w : Workspace) (address : String) (access : Access) (path : String) :
    Except ReachError Backing × Workspace :=
  match settle w.volume path with
  | .error _ => (.error (.unopened address), w)
  | .ok settled =>
    match access, w.volume.find? settled with
    | .readOnly, some .directory => (.error .unread, w)
    | _, some (.file id) => (.ok (.file id settled), w)
    | .create, none =>
      match (FileAction.openOrCreate settled).run.run w.volume with
      | (.error _, volume) => (.error (.unopened address), { w with volume := volume })
      | (.ok id, volume) => (.ok (.file id settled), { w with volume := volume })
    | _, _ => (.error (.unopened address), w)

/-- Reaches a database by its address. -/
def reach (w : Workspace) (path : String) : Except ReachError Link × Workspace :=
  match zeroPosition? path with
  | some position => (.error (.zeroInPath position), w)
  | none =>
    match (Address.ofText path).bind (·.destination) with
    | .error e => (.error (.address e), w)
    | .ok goal =>
      let link (backing : Backing) : Link :=
        ⟨backing, goal.fixed, goal.readOnly, goal.lockless⟩
      match goal.site with
      | .own => (.ok (link (.own {})), w)
      | .named system name => (.ok (link (.named system name)), w)
      | .file name =>
        match w.openFile path goal.access name with
        | (.error e, w) => (.error e, w)
        | (.ok backing, w) => (.ok (link backing), w)

/-! ## Files -/

/-- Removes a file beside a database unless it is empty. -/
def removeBeside (v : Volume) (path : String) : Volume :=
  match v.find? path with
  | some (.file id) =>
    if (v.content id).isEmpty then v else ((FileAction.removeFile path).run.run v).2
  | _ => v

/-- The workspace once an empty database was read: what was left beside it by another is
removed. -/
def tidy (w : Workspace) (l : Link) : Workspace :=
  match l.backing with
  | .file id path =>
    let s := w.setting l
    if l.fixed || w.hasDatabase id || !s.admitsReading then w
    else
      let volume := removeBeside w.volume (walPath path)
      { w with
        volume := if s.lock.admitsWriter then removeBeside volume (journalPath path) else volume }
  | _ => w

/-- The workspace once tables were made in a database: its file holds it from then on, and the file
in which the change was prepared is gone. -/
def fill (w : Workspace) (l : Link) : Workspace :=
  match l.backing with
  | .file id path =>
    if w.hasDatabase id then w
    else
      let volume := w.volume.setContent id databaseImage
      let cleared := if volume.isFile (journalPath path) then
          ((FileAction.removeFile (journalPath path)).run.run volume).2
        else volume
      { w with volume := cleared }
  | _ => w

end Workspace

end Pinboard
