import Pinboard.Store.Affinity

/-!
# Tables

The four tables: users, dashboards, tag definitions and the ledger of recent uses, with the counters
that number users and dashboards. A table can be missing, and cells can hold values of a type that
the library itself never writes.
-/

namespace Pinboard.Store

/-- The tables. -/
inductive Table where
  /-- Users. -/
  | users
  /-- Dashboards. -/
  | dashboards
  /-- Tag definitions. -/
  | tags
  /-- Recent uses of tag keys. -/
  | recents
  deriving DecidableEq, Repr

namespace Table

/-- The name of a table in the database. -/
def name : Table → String
  | users => "users"
  | dashboards => "dashboards"
  | tags => "tag_definitions"
  | recents => "user_recent_tags"

/-- All tables. -/
def all : List Table := [users, dashboards, tags, recents]

/-- The table with a given name, the case of its letters aside. -/
def ofName? (s : String) : Option Table := all.find? (·.name == s.toLower)

/-- The index that a table has beside its keys. -/
def index? : Table → Option String
  | dashboards => some "idx_dashboards_user_order"
  | recents => some "idx_user_last_used"
  | _ => none

end Table

/-- A user. -/
structure UserRow where
  /-- The number. -/
  id : Int
  /-- The name, unique. -/
  name : Cell
  deriving DecidableEq

/-- A dashboard. -/
structure DashboardRow where
  /-- The number. -/
  id : Int
  /-- The number of the owner. -/
  owner : Int
  /-- The name. -/
  name : Cell
  /-- The position. -/
  order : Cell
  deriving DecidableEq

/-- A tag definition. -/
structure TagRow where
  /-- The number of the row, which only faults can see. -/
  number : Int
  /-- The number of the owner. -/
  owner : Int
  /-- The key, unique for the owner. -/
  key : Cell
  /-- The colour. -/
  color : Cell
  /-- The name of the kind. -/
  kind : Cell
  deriving DecidableEq

/-- A recent use. -/
structure RecentRow where
  /-- The number of the row, which only faults can see. -/
  number : Int
  /-- The number of the user. -/
  owner : Int
  /-- The key, unique for the user. -/
  key : Cell
  /-- The moment, in milliseconds. -/
  lastUsed : Cell
  deriving DecidableEq

/-- The contents of the database. -/
structure Tables where
  /-- The users. -/
  users : Option (List UserRow)
  /-- The dashboards. -/
  dashboards : Option (List DashboardRow)
  /-- The tag definitions. -/
  tags : Option (List TagRow)
  /-- The recent uses. -/
  recents : Option (List RecentRow)
  /-- The largest number that a user has had. -/
  lastUser : Int
  /-- The largest number that a dashboard has had. -/
  lastDashboard : Int
  /-- The tables whose rows belong to users, the one that was made last first. -/
  children : List Table
  deriving DecidableEq

namespace Tables

/-- A database without tables. -/
def absent : Tables := ⟨none, none, none, none, 0, 0, []⟩

/-- A database with empty tables. -/
def fresh : Tables := ⟨some [], some [], some [], some [], 0, 0, [.recents, .tags, .dashboards]⟩

/-- Is the table there? -/
def has (t : Tables) : Table → Bool
  | .users => t.users.isSome
  | .dashboards => t.dashboards.isSome
  | .tags => t.tags.isSome
  | .recents => t.recents.isSome

/-- The tables that are there: the users, and then what belongs to them, made last first. -/
def present (t : Tables) : List Table :=
  (if t.has .users then [.users] else []) ++ t.children.filter t.has

/-- Adds the tables that are missing, with no rows, those of what belongs to users in the order
dashboards, tag definitions, recent uses. -/
def addMissing (t : Tables) : Tables :=
  { t with
    users := t.users <|> some []
    dashboards := t.dashboards <|> some []
    tags := t.tags <|> some []
    recents := t.recents <|> some []
    children := [Table.recents, .tags, .dashboards].filter (!t.has ·) ++ t.children }

/-- Is any table missing? -/
def incomplete (t : Tables) : Bool := Table.all.any (!t.has ·)

/-- The kinds and names of tables and indexes, in order. -/
def catalogue (t : Tables) : List String :=
  (t.present.filterMap fun table => table.index?.map ("index " ++ ·)) ++
    (t.present.map fun table => "table " ++ table.name) |>.mergeSort

end Tables

/-! ## Rows by column -/

/-- The column that stands for the number of a row in every table. -/
def rowNumberColumn : String := "rowid"

/-- The names of the columns of a table. -/
def Table.columns : Table → List String
  | users => ["id", "name"]
  | dashboards => ["id", "user_id", "name", "order"]
  | tags => ["user_id", "key", "color", "tag_type"]
  | recents => ["user_id", "tag_key", "last_used_at"]

/-- A column as it is known: without regard to the case of its letters, and the number of a row by
one of its three names. -/
def columnName (s : String) : String :=
  let name := s.toLower
  if name == "oid" || name == "_rowid_" then rowNumberColumn else name

/-- Does a table have a column of that name? -/
def Table.hasColumn (table : Table) (s : String) : Bool :=
  columnName s == rowNumberColumn || table.columns.contains (columnName s)

/-- A row as a list of its columns' names and values. -/
abbrev Columns := List (String × Given)

/-- The columns of a row with a number. -/
def Table.row (table : Table) (number : Int) (values : List Given) : Columns :=
  (rowNumberColumn, some (.integer number)) :: table.columns.zip values

/-- The columns of a user. -/
def UserRow.columns (r : UserRow) : Columns :=
  Table.users.row r.id [some (.integer r.id), some r.name]

/-- The columns of a dashboard. -/
def DashboardRow.columns (r : DashboardRow) : Columns :=
  Table.dashboards.row r.id
    [some (.integer r.id), some (.integer r.owner), some r.name, some r.order]

/-- The columns of a tag definition. -/
def TagRow.columns (r : TagRow) : Columns :=
  Table.tags.row r.number [some (.integer r.owner), some r.key, some r.color, some r.kind]

/-- The columns of a recent use. -/
def RecentRow.columns (r : RecentRow) : Columns :=
  Table.recents.row r.number [some (.integer r.owner), some r.key, some r.lastUsed]

end Pinboard.Store
