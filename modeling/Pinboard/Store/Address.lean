import Pinboard.Files.Volume
import Pinboard.Text.Hex
import Pinboard.Text.Utf8

/-!
# Addresses of databases

A database is opened by a text. Most texts are the path of a file. A text that begins with `file:`
is taken apart: a path, and options that tell how the database is to be opened. Escapes `%41` in
either stand for bytes, and the byte zero ends what it stands in.
-/

namespace Pinboard.Store

open Files

/-! ## Taking an address apart -/

/-- What may be done with a database. -/
inductive Access where
  /-- It may be read. -/
  | readOnly
  /-- It may be read and written. -/
  | readWrite
  /-- It may be made, read and written. -/
  | create
  /-- It is kept in memory. -/
  | memory
  deriving DecidableEq, Repr

namespace Access

/-- The access that an option names. -/
def ofName? (s : String) : Option Access :=
  [("ro", readOnly), ("rw", readWrite), ("rwc", create), ("memory", memory)].lookup s

/-- How much an access asks for. -/
def wanted : Access → Nat
  | readOnly => 1
  | readWrite => 2
  | create => 6
  | memory => 0

/-- How much an access lets a later option ask for. -/
def granted : Access → Nat
  | memory => 128
  | a => a.wanted

end Access

/-- Why an address cannot be followed. -/
inductive AddressError where
  /-- It names another host. -/
  | authority (host : String)
  /-- There is no such access. -/
  | noAccess (name : String)
  /-- The access asks for more than an earlier one lets it. -/
  | accessDenied (name : String)
  /-- There is no such way to share. -/
  | noCache (name : String)
  /-- There is no such file system. -/
  | noSystem (name : String)
  deriving DecidableEq, Repr

/-- The wording of an error. -/
def AddressError.message : AddressError → String
  | authority host => s!"invalid uri authority: {host}"
  | noAccess name => s!"no such access mode: {name}"
  | accessDenied name => s!"access mode not allowed: {name}"
  | noCache name => s!"no such cache mode: {name}"
  | noSystem name => s!"no such vfs: {name}"

/-- The bytes of a text with its escapes resolved, up to an escape that stands for zero. -/
def unescape : List Char → List UInt8
  | [] => []
  | '%' :: a :: b :: cs =>
    match Text.hexByte? a b with
    | some 0 => []
    | some n => UInt8.ofNat n :: unescape cs
    | none => String.utf8EncodeChar '%' ++ unescape (a :: b :: cs)
  | c :: cs => String.utf8EncodeChar c ++ unescape cs

/-- The text that a text with escapes stands for. -/
def unescaped (cs : List Char) : String := Text.decode (unescape cs)

/-- An address taken apart. -/
structure Address where
  /-- The path, or the name of what is kept in memory. -/
  name : String
  /-- It was written with options, be there any or not. -/
  marked : Bool
  /-- The options in order, by name. -/
  options : List (String × String)
  deriving DecidableEq, Repr

/-- The options of a query. One without a name counts for nothing. -/
def queryOptions (query : List Char) : List (String × String) :=
  ((Text.fields '&' query).map fun part =>
    let (name, value) := Text.cut '=' part
    (unescaped name, unescaped value)).filter (·.1 ≠ "")

/-- The host of an address, and what comes after it. -/
def splitHost : List Char → List Char × List Char
  | '/' :: '/' :: cs => (cs.takeWhile (· ≠ '/'), cs.dropWhile (· ≠ '/'))
  | cs => ([], cs)

/-- Takes an address apart. What follows the mark `#` counts for nothing. -/
def Address.ofText (s : String) : Except AddressError Address :=
  let mark := "file:".toList
  if mark.isPrefixOf s.toList then
    let (host, cs) := splitHost (s.toList.drop mark.length)
    if host.isEmpty ∨ host = "localhost".toList then
      let (path, query) := Text.cut '?' (cs.takeWhile (· ≠ '#'))
      .ok ⟨unescaped path, true, queryOptions query⟩
    else .error (.authority (String.ofList host))
  else .ok ⟨s, false, []⟩

/-! ## Options -/

/-- What the options of an address ask for. -/
structure Manner where
  /-- What may be done. -/
  access : Access := .create
  /-- A database in memory is shared with the stores that name it too. -/
  shared : Bool := false
  /-- The file system. -/
  system : String := "unix"
  deriving DecidableEq, Repr

/-- The file systems that there are. -/
def knownSystems : List String := ["unix", "unix-none", "unix-dotfile", "unix-excl", "memdb"]

/-- The manner with an option obeyed. -/
def Manner.obey (m : Manner) (name value : String) : Except AddressError Manner :=
  if name = "vfs" then .ok { m with system := value }
  else if name = "cache" then
    if value = "shared" then .ok { m with shared := true }
    else if value = "private" then .ok { m with shared := false }
    else .error (.noCache value)
  else if name = "mode" then
    match Access.ofName? value with
    | none => .error (.noAccess value)
    | some a =>
      if a.wanted ≤ m.access.granted then .ok { m with access := a }
      else .error (.accessDenied value)
  else .ok m

/-- What the options ask for. The file system is looked for last. -/
def Address.manner (a : Address) : Except AddressError Manner := do
  let m ← a.options.foldlM (fun m o => m.obey o.1 o.2) {}
  if knownSystems.contains m.system then pure m else throw (.noSystem m.system)

/-- Does a text say yes? A number does unless it is a multiple of 256; one that is too large is
zero. -/
def saysYes (value : String) : Bool :=
  let digits := value.toList.takeWhile Char.isDigit
  if digits.isEmpty then ["on", "yes", "true"].contains value.toLower
  else
    let n := digits.foldl (fun n c => n * 10 + (c.toNat - 48)) 0
    n ≤ 2147483647 && n % 256 != 0

/-- Is an option set? Of several with one name the first counts. -/
def Address.flag (a : Address) (name : String) : Bool :=
  match a.options.lookup name with
  | some value => saysYes value
  | none => false

/-! ## Sites -/

/-- Where a database is to be found. -/
inductive Site where
  /-- With the store that opens it, and nowhere else. -/
  | own
  /-- In memory, for all stores that name it in this system. -/
  | named (system name : String)
  /-- In a file. -/
  | file (path : String)
  deriving DecidableEq, Repr

/-- What an address leads to. -/
structure Destination where
  /-- Where the database is. -/
  site : Site
  /-- What may be done with it, as far as its file goes. -/
  access : Access
  /-- It is told never to change, so that nothing beside it is looked at. -/
  fixed : Bool
  /-- It can only be read. -/
  readOnly : Bool
  /-- The locks of others are not seen. -/
  lockless : Bool
  deriving DecidableEq, Repr

/-- The site that a name and a manner lead to. Only a name that was marked as an address can lead to
something in memory that is shared. -/
def Address.site (a : Address) (m : Manner) : Site :=
  if a.name = "" then .own
  else if m.access = .memory ∨ a.name = ":memory:" then
    if a.marked ∧ m.shared then .named m.system a.name else .own
  else if m.system = "memdb" then
    if a.name.toList.head? = some '/' then .named m.system a.name else .own
  else .file a.name

/-- Is the database kept where it can be told never to change? -/
def Address.fixable (a : Address) (m : Manner) : Bool :=
  a.name ≠ "" && a.name ≠ ":memory:" && m.access ≠ .memory

/-- What an address leads to. -/
def Address.destination (a : Address) : Except AddressError Destination := do
  let m ← a.manner
  let fixed := a.fixable m && a.flag "immutable"
  pure
    { site := a.site m
      access := m.access
      fixed := fixed
      readOnly := m.access = .readOnly || fixed
      lockless := fixed || a.flag "nolock" || ["unix-none", "unix-dotfile"].contains m.system }

/-! ## Paths of database files -/

/-- The longest path of a database file in bytes, with the eight that its companions add. -/
def longestSettled : Nat := 512

/-- The length of the path of a place, in bytes. -/
def placeLength (place : Place) : Nat := place.foldl (fun n name => n + name.utf8ByteSize + 1) 0

/-- Follows names by their text alone from a place: a single dot stands for nothing and two dots
take away the name before them, whether or not anything is there. A name after that of a file is
refused, and so is one that is too long for its directory or makes the path too long. -/
def settleFrom (v : Volume) (place : Place) : List String → Except FileError Place
  | [] => .ok place
  | name :: names =>
    if name = "." then settleFrom v place names
    else if name = ".." then settleFrom v place.dropLast names
    else if longestSettled < placeLength place + name.utf8ByteSize + 2 then .error .nameTooLong
    else match v.node? place with
      | some (.file _) => .error .notADirectory
      | some .directory =>
        if Volume.longestName < name.utf8ByteSize then .error .nameTooLong
        else settleFrom v (place ++ [name]) names
      | none => settleFrom v (place ++ [name]) names

/-- The path from the root that a path comes to by its text alone. -/
def settle (v : Volume) (path : String) : Except FileError String :=
  let p := Path.ofText path
  match settleFrom v (if p.absolute then [] else home) p.names with
  | .error e => .error e
  | .ok place =>
    if longestSettled < placeLength place + 8 then .error .nameTooLong
    else .ok (Path.text true place)

end Pinboard.Store
