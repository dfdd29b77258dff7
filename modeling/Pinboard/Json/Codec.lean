import Pinboard.Config
import Pinboard.Entity
import Pinboard.Json.Record
import Pinboard.Json.Value
import Pinboard.Ordering

/-!
# The JSON forms of the library's types

For each type the value that is written for it and the reader that takes it back.
-/

namespace Pinboard

open Json

/-! ## Choices -/

/-- The written form of a direction. -/
def Direction.toJson (d : Direction) : Value := .text d.name

/-- Reads a direction. -/
def Direction.reader : Reader Direction := Reader.choice [("up", up), ("down", down)]

/-- The written form of a kind of tag. -/
def TagKind.toJson (k : TagKind) : Value := .text k.name

/-- Reads a kind of tag. -/
def TagKind.reader : Reader TagKind :=
  Reader.choice [("novalue", noValue), ("singlevalue", singleValue)]

/-- The written form of a dialect. -/
def Dialect.toJson (d : Dialect) : Value := .text d.name

/-- Reads a dialect by any of its names. -/
def Dialect.reader : Reader Dialect := Reader.choice spellings

/-- The written form of a failure: its kind with its text. -/
def Failure.toJson (f : Failure) : Value := .object [(f.kind.name, .text f.text)]

/-- Reads a failure. -/
def Failure.reader : Reader Failure :=
  Reader.choiceWithText
    ([FailureKind.notFound, .invalidInput, .conflict, .internal].map fun k =>
      (k.name, Failure.mk k))

/-! ## Instants -/

/-- The written form of an instant. -/
def Time.Instant.toJson (t : Time.Instant) : Value := .text t.render

/-- Reads an instant. -/
def Time.Instant.reader : Reader Time.Instant :=
  Reader.stringWith "an RFC 3339 formatted date and time string" fun s =>
    match Time.Instant.ofText? s.toList with
    | .ok t => .ok t
    | .error e => .error (.badInstant e)

/-! ## Records -/

/-- The value of a field that has to be given. -/
def required {α : Type} (name : String) : Option α → Except Problem α
  | some a => .ok a
  | none => .error (.missingField name)

/-- The written form of a user. -/
def User.toJson (u : User) : Value :=
  .object [("id", .integer u.id.toNat), ("name", .text u.name)]

/-- What has been read of a user. -/
structure UserSlots where
  /-- The number. -/
  id : Option UserId := none
  /-- The name. -/
  name : Option String := none

/-- The shape of a user. -/
def User.shape : Shape UserSlots User where
  name := "struct User"
  start := {}
  fields := [.slot "id" (·.id) (fun s v => { s with id := some v }) Reader.uint32,
    .slot "name" (·.name) (fun s v => { s with name := some v }) (Reader.string "a string")]
  strict := true
  finish s := do pure ⟨← required "id" s.id, ← required "name" s.name⟩

/-- Reads a user. -/
def User.reader : Reader User := Reader.record shape

/-- The written form of a dashboard. -/
def Dashboard.toJson (d : Dashboard) : Value :=
  .object [("id", .integer d.id.toNat), ("user_id", .integer d.owner.toNat),
    ("name", .text d.name), ("order", .integer d.order.toInt)]

/-- What has been read of a dashboard. -/
structure DashboardSlots where
  /-- The number. -/
  id : Option UInt32 := none
  /-- The owner. -/
  owner : Option UserId := none
  /-- The name. -/
  name : Option String := none
  /-- The position. -/
  order : Option Int32 := none

/-- The shape of a dashboard. -/
def Dashboard.shape : Shape DashboardSlots Dashboard where
  name := "struct Dashboard"
  start := {}
  fields := [.slot "id" (·.id) (fun s v => { s with id := some v }) Reader.uint32,
    .slot "user_id" (·.owner) (fun s v => { s with owner := some v }) Reader.uint32,
    .slot "name" (·.name) (fun s v => { s with name := some v }) (Reader.string "a string"),
    .slot "order" (·.order) (fun s v => { s with order := some v }) Reader.int32]
  strict := true
  finish s := do
    pure ⟨← required "id" s.id, ← required "user_id" s.owner, ← required "name" s.name,
      ← required "order" s.order⟩

/-- Reads a dashboard. -/
def Dashboard.reader : Reader Dashboard := Reader.record shape

/-- The written form of a tag. -/
def Tag.toJson (t : Tag) : Value :=
  .object [("user_id", .integer t.owner.toNat), ("key", .text t.key), ("color", .text t.color),
    ("tag_type", t.kind.toJson)]

/-- What has been read of a tag. -/
structure TagSlots where
  /-- The owner. -/
  owner : Option UserId := none
  /-- The key. -/
  key : Option String := none
  /-- The colour. -/
  color : Option String := none
  /-- The kind. -/
  kind : Option TagKind := none

/-- The shape of a tag. -/
def Tag.shape : Shape TagSlots Tag where
  name := "struct TagDefinition"
  start := {}
  fields := [.slot "user_id" (·.owner) (fun s v => { s with owner := some v }) Reader.uint32,
    .slot "key" (·.key) (fun s v => { s with key := some v }) (Reader.string "a string"),
    .slot "color" (·.color) (fun s v => { s with color := some v }) (Reader.string "a string"),
    .slot "tag_type" (·.kind) (fun s v => { s with kind := some v }) TagKind.reader]
  strict := true
  finish s := do
    pure ⟨← required "user_id" s.owner, ← required "key" s.key, ← required "color" s.color,
      ← required "tag_type" s.kind⟩

/-- Reads a tag. -/
def Tag.reader : Reader Tag := Reader.record shape

/-- The written form of the use of a tag. -/
def TagUse.toJson (u : TagUse) : Value :=
  .object [("user_id", .integer u.owner.toNat), ("tag_key", .text u.key),
    ("last_used_at", u.lastUsed.toJson)]

/-- What has been read of the use of a tag. -/
structure TagUseSlots where
  /-- The user. -/
  owner : Option UserId := none
  /-- The key. -/
  key : Option String := none
  /-- The moment. -/
  lastUsed : Option Time.Instant := none

/-- The shape of the use of a tag. -/
def TagUse.shape : Shape TagUseSlots TagUse where
  name := "struct UserRecentTag"
  start := {}
  fields := [.slot "user_id" (·.owner) (fun s v => { s with owner := some v }) Reader.uint32,
    .slot "tag_key" (·.key) (fun s v => { s with key := some v }) (Reader.string "a string"),
    .slot "last_used_at" (·.lastUsed) (fun s v => { s with lastUsed := some v })
      Time.Instant.reader]
  strict := true
  finish s := do
    pure ⟨← required "user_id" s.owner, ← required "tag_key" s.key,
      ← required "last_used_at" s.lastUsed⟩

/-- Reads the use of a tag. -/
def TagUse.reader : Reader TagUse := Reader.record shape

/-! ## Configuration -/

/-- The written form of the settings of the database. -/
def DatabaseConfig.toJson (c : DatabaseConfig) : Value :=
  .object [("path", .text c.path), ("dialect", c.dialect.toJson),
    ("busy_timeout_ms", .integer c.busyTimeout.toNat)]

/-- What has been read of the settings of the database. -/
structure DatabaseSlots where
  /-- The file. -/
  path : Option String := none
  /-- The dialect. -/
  dialect : Option Dialect := none
  /-- The time to wait for a lock. -/
  busyTimeout : Option UInt64 := none

/-- The shape of the settings of the database; what is not given has its default. -/
def DatabaseConfig.shape : Shape DatabaseSlots DatabaseConfig where
  name := "struct DatabaseConfig"
  start := {}
  fields := [.slot "path" (·.path) (fun s v => { s with path := some v })
      (Reader.string "path string"),
    .slot "dialect" (·.dialect) (fun s v => { s with dialect := some v }) Dialect.reader,
    .slot "busy_timeout_ms" (·.busyTimeout) (fun s v => { s with busyTimeout := some v })
      Reader.uint64]
  strict := false
  finish s :=
    let default : DatabaseConfig := {}
    .ok ⟨s.path.getD default.path, s.dialect.getD default.dialect,
      s.busyTimeout.getD default.busyTimeout⟩

/-- Reads the settings of the database. -/
def DatabaseConfig.reader : Reader DatabaseConfig := Reader.record shape

/-- The written form of the settings of the log. -/
def LogConfig.toJson (c : LogConfig) : Value :=
  .object [("dir", .text c.dir), ("app_name", .text c.appName)]

/-- What has been read of the settings of the log. -/
structure LogSlots where
  /-- The directory. -/
  dir : Option String := none
  /-- The name. -/
  appName : Option String := none

/-- The shape of the settings of the log; what is not given has its default. -/
def LogConfig.shape : Shape LogSlots LogConfig where
  name := "struct LogConfig"
  start := {}
  fields := [.slot "dir" (·.dir) (fun s v => { s with dir := some v })
      (Reader.string "path string"),
    .slot "app_name" (·.appName) (fun s v => { s with appName := some v })
      (Reader.string "a string")]
  strict := false
  finish s :=
    let default : LogConfig := {}
    .ok ⟨s.dir.getD default.dir, s.appName.getD default.appName⟩

/-- Reads the settings of the log. -/
def LogConfig.reader : Reader LogConfig := Reader.record shape

/-- The written form of all settings. -/
def Config.toJson (c : Config) : Value :=
  .object [("database", c.database.toJson), ("log", c.log.toJson)]

/-- What has been read of all settings. -/
structure ConfigSlots where
  /-- The database. -/
  database : Option DatabaseConfig := none
  /-- The log. -/
  log : Option LogConfig := none

/-- The shape of all settings; what is not given has its default. -/
def Config.shape : Shape ConfigSlots Config where
  name := "struct Config"
  start := {}
  fields := [.slot "database" (·.database) (fun s v => { s with database := some v })
      DatabaseConfig.reader,
    .slot "log" (·.log) (fun s v => { s with log := some v }) LogConfig.reader]
  strict := false
  finish s :=
    let default : Config := {}
    .ok ⟨s.database.getD default.database, s.log.getD default.log⟩

/-- Reads all settings. -/
def Config.reader : Reader Config := Reader.record shape

end Pinboard
