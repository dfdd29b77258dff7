import Pinboard.ConfigFile
import Pinboard.Proofs.Repetition

/-!
# Configurations with defaults

A configuration may give any of its settings and leave out the rest. What is given is taken over, in
whichever order and form it comes and among whatever else, and what is left out has its default; a
setting that is given twice is refused.
-/

namespace Pinboard

open Json Reader

/-! ## Settings -/

/-- A setting of the database. -/
inductive DatabaseField where
  /-- Where the database is. -/
  | path
  /-- The dialect that uses are recorded in. -/
  | dialect
  /-- How long to wait for a lock. -/
  | busyTimeout
  deriving DecidableEq

/-- A setting of the log. -/
inductive LogField where
  /-- The directory of the log. -/
  | dir
  /-- The name that the log's files begin with. -/
  | appName
  deriving DecidableEq

/-- A part of the configuration. -/
inductive Section where
  /-- The settings of the database. -/
  | database
  /-- The settings of the log. -/
  | log
  deriving DecidableEq

/-- The key of a setting. -/
def DatabaseField.name : DatabaseField → String
  | path => "path"
  | dialect => "dialect"
  | busyTimeout => "busy_timeout_ms"

/-- The key of a setting. -/
def LogField.name : LogField → String
  | dir => "dir"
  | appName => "app_name"

/-- The key of a part. -/
def Section.name : Section → String
  | database => "database"
  | log => "log"

/-- Which parts a text gives, and which settings in each. -/
structure Selection where
  /-- The parts. -/
  sections : Finset Section
  /-- The settings of the database, if that is a part. -/
  database : Finset DatabaseField
  /-- The settings of the log, if that is a part. -/
  log : Finset LogField

/-- These settings, and defaults for the rest. -/
def DatabaseConfig.only (c : DatabaseConfig) (given : Finset DatabaseField) : DatabaseConfig :=
  let default : DatabaseConfig := {}
  { path := if .path ∈ given then c.path else default.path
    dialect := if .dialect ∈ given then c.dialect else default.dialect
    busyTimeout := if .busyTimeout ∈ given then c.busyTimeout else default.busyTimeout }

/-- These settings, and defaults for the rest. -/
def LogConfig.only (c : LogConfig) (given : Finset LogField) : LogConfig :=
  let default : LogConfig := {}
  { dir := if .dir ∈ given then c.dir else default.dir
    appName := if .appName ∈ given then c.appName else default.appName }

/-- The selected settings, and defaults for the rest. -/
def Config.only (c : Config) (given : Selection) : Config :=
  let default : Config := {}
  { database := if .database ∈ given.sections then c.database.only given.database
      else default.database
    log := if .log ∈ given.sections then c.log.only given.log else default.log }

/-! ## Texts -/

/-- The texts that give a setting the value it has in `c`. A dialect may go by any of its names, and
a whole number has no point and no exponent. -/
def DatabaseField.Gives (c : DatabaseConfig) : DatabaseField → List Char → Prop
  | path, cs => StringOf cs c.path
  | dialect, cs => ∃ name, (name, c.dialect) ∈ Dialect.spellings ∧
      (StringOf cs name ∨ ObjectText [(name, ['n', 'u', 'l', 'l'])] cs)
  | busyTimeout, cs => cs = Nat.toDigits 10 c.busyTimeout.toNat

/-- The texts that give a setting the value it has in `c`. -/
def LogField.Gives (c : LogConfig) : LogField → List Char → Prop
  | dir, cs => StringOf cs c.dir
  | appName, cs => StringOf cs c.appName

/-- The objects that give exactly the selected settings of a part. -/
def Section.Gives (c : Config) (given : Selection) : Section → List Char → Prop
  | database => RecordText DatabaseField.name (DatabaseField.Gives c.database) given.database
  | log => RecordText LogField.name (LogField.Gives c.log) given.log

theorem lookup_spelling {name : String} {d : Dialect} (h : (name, d) ∈ Dialect.spellings) :
    Dialect.spellings.lookup name = some d := by
  simp only [Dialect.spellings, List.mem_cons, Prod.mk.injEq, List.not_mem_nil, or_false] at h
  rcases h with ⟨rfl, rfl⟩ | ⟨rfl, rfl⟩ | ⟨rfl, rfl⟩ | ⟨rfl, rfl⟩ | ⟨rfl, rfl⟩ <;> rfl

namespace DatabaseConfig

/-- What has been read of the database when some settings are done. -/
def slots (c : DatabaseConfig) (done : Finset DatabaseField) : DatabaseSlots where
  path := if .path ∈ done then some c.path else none
  dialect := if .dialect ∈ done then some c.dialect else none
  busyTimeout := if .busyTimeout ∈ done then some c.busyTimeout else none

theorem filling (c : DatabaseConfig) :
    Filling shape.fields DatabaseField.name (DatabaseField.Gives c) c.slots where
  injective := by
    intro f g h
    cases f <;> cases g <;> simp [DatabaseField.name] at h ⊢
  find f := by
    cases f with
    | path =>
      refine ⟨_, rfl, fun done hf => fits_slot c.path (if_neg hf) ?_ (string_gap _) ?_⟩
      · simp [slots]
      · intro cs rest hcs _
        exact yields_string hcs rest
    | dialect =>
      refine ⟨_, rfl, fun done hf => fits_slot c.dialect (if_neg hf) ?_ (choice_gap _) ?_⟩
      · simp [slots]
      · rintro cs rest ⟨name, hname, hcs | hcs⟩ -
        · exact yields_choice (lookup_spelling hname) hcs rest
        · exact yields_choice_object (lookup_spelling hname) hcs rest
    | busyTimeout =>
      refine ⟨_, rfl, fun done hf => fits_slot c.busyTimeout (if_neg hf) ?_ uint64_gap ?_⟩
      · simp [slots]
      · rintro cs rest rfl hrest
        exact (takes_uint64 c.busyTimeout).yields hrest
  named := by
    intro field hfield
    simp only [shape, List.mem_cons, List.not_mem_nil, or_false] at hfield
    rcases hfield with rfl | rfl | rfl
    · exact ⟨.path, rfl⟩
    · exact ⟨.dialect, rfl⟩
    · exact ⟨.busyTimeout, rfl⟩

theorem finish_slots (c : DatabaseConfig) (given : Finset DatabaseField) :
    shape.finish (c.slots given) = .ok (c.only given) := by
  simp only [shape, slots, only]
  congr 2 <;> split <;> rfl

/-- The database is made of the settings that its object gives. -/
theorem yields_gives {c : DatabaseConfig} {given : Finset DatabaseField} {cs : List Char}
    (h : RecordText DatabaseField.name (DatabaseField.Gives c) given cs) (rest : List Char) :
    Yields reader (cs ++ rest) (c.only given) rest :=
  yields_record_given c.filling rfl (c.finish_slots given) h rest

end DatabaseConfig

/-! ## The log -/

namespace LogConfig

/-- What has been read of the log when some settings are done. -/
def slots (c : LogConfig) (done : Finset LogField) : LogSlots where
  dir := if .dir ∈ done then some c.dir else none
  appName := if .appName ∈ done then some c.appName else none

theorem filling (c : LogConfig) :
    Filling shape.fields LogField.name (LogField.Gives c) c.slots where
  injective := by
    intro f g h
    cases f <;> cases g <;> simp [LogField.name] at h ⊢
  find f := by
    cases f with
    | dir =>
      refine ⟨_, rfl, fun done hf => fits_slot c.dir (if_neg hf) ?_ (string_gap _) ?_⟩
      · simp [slots]
      · intro cs rest hcs _
        exact yields_string hcs rest
    | appName =>
      refine ⟨_, rfl, fun done hf => fits_slot c.appName (if_neg hf) ?_ (string_gap _) ?_⟩
      · simp [slots]
      · intro cs rest hcs _
        exact yields_string hcs rest
  named := by
    intro field hfield
    simp only [shape, List.mem_cons, List.not_mem_nil, or_false] at hfield
    rcases hfield with rfl | rfl
    · exact ⟨.dir, rfl⟩
    · exact ⟨.appName, rfl⟩

theorem finish_slots (c : LogConfig) (given : Finset LogField) :
    shape.finish (c.slots given) = .ok (c.only given) := by
  simp only [shape, slots, only]
  congr 2 <;> split <;> rfl

theorem yields_gives {c : LogConfig} {given : Finset LogField} {cs : List Char}
    (h : RecordText LogField.name (LogField.Gives c) given cs) (rest : List Char) :
    Yields reader (cs ++ rest) (c.only given) rest :=
  yields_record_given c.filling rfl (c.finish_slots given) h rest

end LogConfig

/-! ## All settings -/

namespace Config

/-- What has been read of all settings when some parts are done. -/
def slots (c : Config) (given : Selection) (done : Finset Section) : ConfigSlots where
  database := if .database ∈ done then some (c.database.only given.database) else none
  log := if .log ∈ done then some (c.log.only given.log) else none

theorem filling (c : Config) (given : Selection) :
    Filling shape.fields Section.name (Section.Gives c given) (c.slots given) where
  injective := by
    intro f g h
    cases f <;> cases g <;> simp [Section.name] at h ⊢
  find f := by
    cases f with
    | database =>
      refine ⟨_, rfl, fun done hf => fits_slot (c.database.only given.database) (if_neg hf) ?_
        (record_gap _) ?_⟩
      · simp [slots]
      · intro cs rest hcs _
        exact DatabaseConfig.yields_gives hcs rest
    | log =>
      refine ⟨_, rfl, fun done hf => fits_slot (c.log.only given.log) (if_neg hf) ?_
        (record_gap _) ?_⟩
      · simp [slots]
      · intro cs rest hcs _
        exact LogConfig.yields_gives hcs rest
  named := by
    intro field hfield
    simp only [shape, List.mem_cons, List.not_mem_nil, or_false] at hfield
    rcases hfield with rfl | rfl
    · exact ⟨.database, rfl⟩
    · exact ⟨.log, rfl⟩

theorem finish_slots (c : Config) (given : Selection) :
    shape.finish (c.slots given given.sections) = .ok (c.only given) := by
  simp only [shape, slots, only]
  congr 2 <;> split <;> rfl

end Config

/-! ## Two texts -/

end Pinboard
