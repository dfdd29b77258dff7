import Pinboard.Log.Rolling

/-!
# The journal of a process

A process writes its journal to one rolling log, chosen once: the first log that is opened for it
stays, and no later one takes its place. Until then nothing is written.
-/

namespace Pinboard.Log

open Files

/-- How grave a line is. -/
inductive Level where
  /-- All is well. -/
  | info
  /-- Something was passed over. -/
  | warn
  /-- Something failed. -/
  | error
  deriving DecidableEq, Repr

/-- The name of a level, to the width of five. -/
def Level.label : Level → String
  | info => " INFO"
  | warn => " WARN"
  | error => "ERROR"

/-- One character of a message as it is written. Characters that steer a terminal are written as
escapes; ends of lines and tabs stay. -/
def plainChar (c : Char) : List Char :=
  if c = '\x1b' then ['\\', 'x', '1', 'b']
  else if c = '\x07' then ['\\', 'x', '0', '7']
  else if c = '\x08' then ['\\', 'x', '0', '8']
  else if c = '\x0c' then ['\\', 'x', '0', 'c']
  else if c = '\x7f' then ['\\', 'x', '7', 'f']
  else if 0x80 ≤ c.toNat ∧ c.toNat ≤ 0x9f then
    ['\\', 'u', '\x7b'] ++ Nat.toDigits 16 c.toNat ++ ['\x7d']
  else [c]

/-- A message as it is written. -/
def plain (message : String) : String := String.ofList (message.toList.flatMap plainChar)

/-- One line of the journal. -/
def lineText (stamp : String) (level : Level) (source message : String) : String :=
  let label := level.label
  let shown := plain message
  s!"{stamp} {label} {source}: {shown}\n"

/-- The journal of a process. -/
structure Journal where
  /-- The log that it is written to, once there is one. -/
  active : Option RollingLog := none
  /-- The time that lines are marked with. -/
  stamp : String
  deriving DecidableEq

/-- Why a journal cannot be begun or written to. -/
inductive JournalError where
  /-- The log cannot be opened. -/
  | unopened (e : FileError)
  /-- There is a journal already. -/
  | installed
  /-- There is no journal yet. -/
  | missing
  deriving DecidableEq

/-- The wording of an error. -/
def JournalError.message : JournalError → String
  | unopened e =>
    let shown := e.message
    s!"Failed to open log file: {shown}"
  | installed =>
    "Failed to install logger: a global default trace dispatcher has already been set"
  | missing => "Logger not initialized"

/-- What the journal names as the source of its own lines. -/
def journalSource : String := "rolling_logger"

namespace Journal

/-- The path of the log, once there is one. -/
def path? (j : Journal) : Option String := j.active.map (·.path)

/-- Writes a line if there is a journal. A line that cannot be written is lost. -/
def write (j : Journal) (level : Level) (source message : String) (v : Volume) :
    Journal × Volume :=
  match j.active with
  | none => (j, v)
  | some log =>
    match ((log.write (lineText j.stamp level source message).toUTF8).run.run v) with
    | (.ok log, v) => ({ j with active := some log }, v)
    | (.error _, v) => (j, v)

/-- Begins the journal in a log. The log is opened before it turns out whether there is a journal
already. -/
def start (j : Journal) (dir appName : String) (v : Volume) :
    Except JournalError Unit × Journal × Volume :=
  match (RollingLog.start dir appName defaultMaxBytes defaultMaxFiles).run.run v with
  | (.error e, v) => (.error (.unopened e), j, v)
  | (.ok log, v) =>
    match j.active with
    | some _ => (.error .installed, j, v)
    | none =>
      let (j, v) := write { j with active := some log } .info journalSource
        s!"{appName} logger started" v
      (.ok (), j, v)

/-- Writes a line of the journal's own; fails if there is no journal. -/
def tell (j : Journal) (level : Level) (message : String) (v : Volume) :
    Except JournalError Unit × Journal × Volume :=
  match j.active with
  | none => (.error .missing, j, v)
  | some _ =>
    let (j, v) := j.write level journalSource message v
    (.ok (), j, v)

end Journal

end Pinboard.Log
