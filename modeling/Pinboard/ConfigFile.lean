import Pinboard.Files.Volume
import Pinboard.Json.Codec

/-!
# Configuration files

A configuration read from a JSON file.
-/

namespace Pinboard

open Files

/-- Why a configuration cannot be had. -/
inductive ConfigError where
  /-- The file cannot be read. -/
  | unreadable (path : String) (e : FileError)
  /-- The file is no text. -/
  | notText (path : String)
  /-- The text is no configuration. -/
  | invalid (stop : Json.Stop)

/-- The wording of an error. -/
def ConfigError.message : ConfigError → String
  | unreadable path e =>
    let shown := e.message
    s!"Failed to read config {path}: {shown}"
  | notText path => s!"Failed to read config {path}: stream did not contain valid UTF-8"
  | invalid stop =>
    let shown := stop.message
    s!"Invalid config: {shown}"

/-- The configuration that a text holds. -/
def Config.ofText (s : String) : Except ConfigError Config :=
  match Json.Reader.whole reader s with
  | .ok c => .ok c
  | .error stop => .error (.invalid stop)

/-- The configuration in a file. -/
def Config.load (v : Volume) (path : String) : Except ConfigError Config :=
  match (FileAction.readAll path).run.run v |>.1 with
  | .error e => .error (.unreadable path e)
  | .ok bytes =>
    match String.fromUTF8? bytes with
    | none => .error (.notText path)
    | some s => ofText s

end Pinboard
