import Pinboard.Log.Rolling

/-!
# Writers that share logs

Logs are written to through named writers. Several writers may share one log, and so its count of
bytes and its open file; opening the same path twice makes two logs.
-/

namespace Pinboard.Log

open Files

/-- Logs and the writers that lead to them. -/
structure Writers where
  /-- The logs that were opened. -/
  logs : Array RollingLog := #[]
  /-- The log behind each writer. -/
  handles : List (String × Nat) := []

namespace Writers

/-- The number of the log behind a writer. -/
def index? (w : Writers) (name : String) : Option Nat := w.handles.lookup name

/-- The log behind a writer. -/
def log? (w : Writers) (name : String) : Option RollingLog := do w.logs[← w.index? name]?

/-- The writers without one of them. -/
def close (w : Writers) (name : String) : Writers :=
  { w with handles := w.handles.filter (·.1 ≠ name) }

/-- The writers with one that leads to a given log. -/
def point (w : Writers) (name : String) (index : Nat) : Writers :=
  { w with handles := (name, index) :: (w.close name).handles }

/-- Opens a log behind a writer, in place of what it led to. -/
def start (w : Writers) (name dir appName : String) (maxBytes maxFiles : Nat) :
    FileAction Writers := do
  let log ← RollingLog.start dir appName maxBytes maxFiles
  pure ({ w with logs := w.logs.push log }.point name w.logs.size)

/-- Acts on the log behind a writer; without one there is nothing to do. -/
def update (w : Writers) (name : String) (act : RollingLog → FileAction RollingLog) :
    FileAction Writers := do
  match w.index? name, w.log? name with
  | some index, some log =>
    let log ← act log
    pure { w with logs := w.logs.setIfInBounds index log }
  | _, _ => pure w

/-- Writes a record through a writer. -/
def write (w : Writers) (name : String) (record : ByteArray) : FileAction Writers :=
  w.update name (·.write record)

/-- Writes through a writer until nothing of a record is left. -/
def writeAll (w : Writers) (name : String) (record : ByteArray) : FileAction Writers :=
  w.update name (·.writeAll record)

end Writers

end Pinboard.Log
