import Pinboard.Files.Volume

/-!
# A rolling log

A log file that is set aside when it is full: `name.log` becomes `name.log.1`, what that was becomes
`name.log.2`, and so on up to a number of files; the oldest is dropped. A record is never split:
when it does not fit, the file is set aside before it is written.
-/

namespace Pinboard.Log

open Files

/-- A file is full at five mebibytes unless another limit is set. -/
def defaultMaxBytes : Nat := 5 * 1024 * 1024

/-- Three files are kept beside the active one unless another number is set. -/
def defaultMaxFiles : Nat := 3

/-- The file that records go to. -/
def activePath (dir appName : String) : String := join dir s!"{appName}.log"

/-- A file that was set aside, counted from the youngest. -/
def rotatedPath (dir appName : String) (index : Nat) : String :=
  join dir s!"{appName}.log.{index}"

/-- A log that is open for writing. -/
structure RollingLog where
  /-- The directory of the files. -/
  dir : String
  /-- The name that the files begin with. -/
  appName : String
  /-- The bytes that a file may hold when it has more than one record. -/
  maxBytes : Nat
  /-- The number of files that are kept beside the active one. -/
  maxFiles : Nat
  /-- The active file. -/
  file : OpenFile
  /-- The bytes in it, as far as this log knows. -/
  written : Nat
  deriving DecidableEq

namespace RollingLog

/-- The path of the active file. -/
def path (log : RollingLog) : String := activePath log.dir log.appName

/-- Opens a log. What the active file holds already counts towards its limit. -/
def start (dir appName : String) (maxBytes maxFiles : Nat) : FileAction RollingLog := do
  FileAction.makeDirectoryAll dir
  let file ← OpenFile.append (activePath dir appName)
  pure ⟨dir, appName, maxBytes, maxFiles, file, ← file.size⟩

/-- Moves each file up to a number one place further, the highest number first. -/
def shift (dir appName : String) : Nat → FileAction Unit
  | 0 => pure ()
  | index + 1 => do
    let source := rotatedPath dir appName (index + 1)
    if (← get).exists? source then
      FileAction.rename source (rotatedPath dir appName (index + 2))
    shift dir appName index

/-- Sets the active file aside and begins a new one. Without a place for it, it is emptied. -/
def rotate (log : RollingLog) : FileAction RollingLog := do
  if log.maxFiles = 0 then
    let file ← OpenFile.create log.path
    pure { log with file := file, written := 0 }
  else
    let oldest := rotatedPath log.dir log.appName log.maxFiles
    if (← get).exists? oldest then FileAction.removeFile oldest
    shift log.dir log.appName (log.maxFiles - 1)
    FileAction.rename log.path (rotatedPath log.dir log.appName 1)
    let file ← OpenFile.append log.path
    pure { log with file := file, written := 0 }

/-- A record does not fit when something is there already and the two together exceed the limit. -/
def overflows (log : RollingLog) (size : Nat) : Bool :=
  0 < log.written && log.maxBytes < log.written + size

/-- Writes one record, setting the file aside first if it does not fit. -/
def write (log : RollingLog) (record : ByteArray) : FileAction RollingLog := do
  let log ← if log.overflows record.size then log.rotate else pure log
  let file ← log.file.write record
  pure { log with file := file, written := log.written + record.size }

/-- Writes until nothing of a record is left, so that an empty one changes nothing at all. -/
def writeAll (log : RollingLog) (record : ByteArray) : FileAction RollingLog :=
  if record.size = 0 then pure log else log.write record

end RollingLog

end Pinboard.Log
