import Pinboard.Proofs.Founding
import Pinboard.Proofs.Session
import Pinboard.Workspace.Requests

/-!
# Stores in their seats

What a workspace knows of one database, its tables and the stores that are open on it, is a session.
Opening a store is a step of the session on the database that is reached, and so is every request to
a store, with the same answer. A process that opens stores and asks them, works with several
databases, begins a journal and comes upon locks runs a session on each database in a file
(`served_is_run`), and keeps of its tables what every session keeps.
-/

namespace Pinboard

open Files Log Store

/-! ## Empty seats -/

namespace Store.Session

variable {x : Session} {i : Nat}

/-- The session once no store is open under a number. -/
def vacate (x : Session) (i : Nat) : Session := x.seat i none x.tables

theorem seat_seat (k k' : Option Client) (t t' : Tables) :
    (x.seat i k t).seat i k' t' = x.seat i k' t' := by
  unfold seat
  congr 1
  funext j
  dsimp only
  split <;> rfl

theorem vacate_seat (k : Option Client) (t : Tables) :
    (x.seat i k t).vacate i = x.seat i none t := seat_seat k none t t

theorem vacate_vacate (x : Session) (i : Nat) : (x.vacate i).vacate i = x.vacate i :=
  vacate_seat none x.tables

theorem seat_same {k : Option Client} (h : x.clients i = k) : x.seat i k x.tables = x := by
  unfold seat
  congr 1
  funext j
  split
  · rename_i hj
    rw [hj, h]
  · rfl

theorem vacate_empty (h : x.clients i = none) : x.vacate i = x := seat_same h

end Store.Session

/-! ## The session on a database -/

/-- A database, told apart from all others. -/
inductive Home where
  /-- It belongs to the store in a seat. -/
  | own (s : Seat)
  /-- It is kept in memory under a name. -/
  | named (system name : String)
  /-- It is kept in a file. -/
  | file (id : FileId)
  deriving DecidableEq

/-- The database that a link leads the store in a seat to. -/
def Link.home (l : Link) (s : Seat) : Home :=
  match l.backing with
  | .own _ => .own s
  | .named system name => .named system name
  | .file id _ => .file id

/-- The number of a seat in a session. -/
def Seat.number : Seat → Nat
  | main => 0
  | peer => 1

/-- What an open store keeps beside its database. -/
def OpenStore.client (store : OpenStore) : Client :=
  ⟨store.known, store.changed, store.dialect.strategy⟩

namespace Workspace

/-- The tables of a database. Those of a store's own are gone when the store is. -/
def tablesAt (w : Workspace) : Home → Tables
  | .own s =>
    match w.seat s with
    | some { link := { backing := .own d, .. }, .. } => d.tables
    | _ => .absent
  | .named system name => ((w.named.lookup (system, name)).getD {}).tables
  | .file id => ((w.databases.lookup id).getD {}).tables

/-- The store in a seat, if it is open on a database. -/
def clientAt (w : Workspace) (h : Home) (s : Seat) : Option Client :=
  (w.seat s).bind fun store => if store.link.home s = h then some store.client else none

/-- The session on a database. -/
def sessionAt (w : Workspace) (h : Home) : Session where
  tables := w.tablesAt h
  clients
    | 0 => w.clientAt h .main
    | 1 => w.clientAt h .peer
    | _ => none

variable {w w' w'' : Workspace} {s s' : Seat} {h : Home} {store : OpenStore}

theorem clients_number (w : Workspace) (h : Home) (s : Seat) :
    (w.sessionAt h).clients s.number = w.clientAt h s := by
  cases s <;> rfl

/-- A session in which one seat has changed. -/
theorem sessionAt_eq_seat {k : Option Client} {t : Tables} (htables : w'.tablesAt h = t)
    (hclient : w'.clientAt h s = k)
    (hothers : ∀ s' ≠ s, w'.clientAt h s' = w.clientAt h s') :
    w'.sessionAt h = (w.sessionAt h).seat s.number k t := by
  subst htables hclient
  unfold sessionAt Session.seat
  congr 1
  funext i
  cases s with
  | main =>
    match i with
    | 0 => rfl
    | 1 => exact hothers .peer (by decide)
    | _ + 2 => rfl
  | peer =>
    match i with
    | 0 => exact hothers .main (by decide)
    | 1 => rfl
    | _ + 2 => rfl

/-! ## What leaves stores alone -/

/-- The stores and their databases are the same. -/
structure SameStores (w w' : Workspace) : Prop where
  /-- The databases in files are the same. -/
  databases : w'.databases = w.databases
  /-- The databases in memory are the same. -/
  named : w'.named = w.named
  /-- The process's own store is the same. -/
  main : w'.main = w.main
  /-- The other store is the same. -/
  peer : w'.peer = w.peer

namespace SameStores

theorem refl (w : Workspace) : w.SameStores w := ⟨rfl, rfl, rfl, rfl⟩

theorem trans (h : w.SameStores w') (h' : w'.SameStores w'') : w.SameStores w'' :=
  ⟨h'.databases.trans h.databases, h'.named.trans h.named, h'.main.trans h.main,
    h'.peer.trans h.peer⟩

theorem seat (h : w.SameStores w') (s : Seat) : w'.seat s = w.seat s := by
  cases s
  · exact h.main
  · exact h.peer

theorem sessionAt (h : w.SameStores w') (home : Home) : w'.sessionAt home = w.sessionAt home := by
  have htables : w'.tablesAt home = w.tablesAt home := by
    cases home <;> simp only [tablesAt, h.seat, h.named, h.databases]
  unfold Workspace.sessionAt clientAt
  rw [htables, h.seat, h.seat]

theorem note (w : Workspace) (level : Level) (source message : String) :
    w.SameStores (w.note level source message) := ⟨rfl, rfl, rfl, rfl⟩

theorem noteUnrecorded (w : Workspace) (owner : UserId) (strategy : Dialect.Strategy)
    (us : List Unrecorded) : w.SameStores (w.noteUnrecorded owner strategy us) := by
  unfold Workspace.noteUnrecorded
  induction us generalizing w with
  | nil => exact refl w
  | cons u us ih =>
    rw [List.foldl_cons]
    exact (note w _ _ _).trans (ih _)

theorem openFile (w : Workspace) (address : String) (access : Access) (path : String) :
    w.SameStores (w.openFile address access path).2 := by
  unfold Workspace.openFile
  repeat' split
  all_goals exact ⟨rfl, rfl, rfl, rfl⟩

theorem reach (w : Workspace) (path : String) : w.SameStores (w.reach path).2 := by
  unfold Workspace.reach
  split
  · exact refl w
  split
  · exact refl w
  rename_i goal _
  dsimp only
  split
  · exact refl w
  · exact refl w
  · rename_i name _
    have hopened := openFile w path goal.access name
    split <;> rename_i hopen <;> rw [hopen] at hopened <;> exact hopened

theorem tidy (w : Workspace) (l : Link) : w.SameStores (w.tidy l) := by
  unfold Workspace.tidy
  split
  · dsimp only
    split
    · exact refl w
    · exact ⟨rfl, rfl, rfl, rfl⟩
  · exact refl w

theorem fill (w : Workspace) (l : Link) : w.SameStores (w.fill l) := by
  unfold Workspace.fill
  split
  · split
    · exact refl w
    · exact ⟨rfl, rfl, rfl, rfl⟩
  · exact refl w

end SameStores

/-! ## Seats -/

theorem seat_setSeat (w : Workspace) (s s' : Seat) (store : Option OpenStore) :
    (w.setSeat s store).seat s' = if s' = s then store else w.seat s' := by
  cases s <;> cases s' <;> rfl

theorem databases_setSeat (w : Workspace) (s : Seat) (store : Option OpenStore) :
    (w.setSeat s store).databases = w.databases := by
  cases s <;> rfl

/-- A store that leaves a database in a file leaves it as it is. -/
theorem sessionAt_setSeat_none (w : Workspace) (s : Seat) (id : FileId) :
    (w.setSeat s none).sessionAt (.file id) = (w.sessionAt (.file id)).vacate s.number := by
  refine sessionAt_eq_seat ?_ ?_ fun s' hs' => ?_
  · show ((List.lookup id (w.setSeat s none).databases).getD {}).tables = _
    rw [databases_setSeat]
    rfl
  · unfold clientAt
    rw [seat_setSeat, if_pos rfl]
    rfl
  · unfold clientAt
    rw [seat_setSeat, if_neg hs']

theorem seat_keep (w : Workspace) (store : OpenStore) (d : Database) (hs' : s' ≠ s) :
    (w.keep s store d).seat s' = w.seat s' := by
  have hset : ∀ store, (w.setSeat s store).seat s' = w.seat s' := by
    intro store
    rw [seat_setSeat, if_neg hs']
  unfold keep
  split
  · exact hset _
  · exact hset (some store)
  · exact hset (some store)

theorem clientAt_keep (w : Workspace) (s : Seat) (store : OpenStore) (d : Database) (h : Home) :
    (w.keep s store d).clientAt h s =
      if store.link.home s = h then some store.client else none := by
  have hset : ∀ store, (w.setSeat s (some store)).clientAt h s =
      if store.link.home s = h then some store.client else none := by
    intro store
    unfold clientAt
    rw [seat_setSeat, if_pos rfl]
    rfl
  unfold keep
  split
  · rename_i d' hown
    rw [hset]
    unfold Link.home
    rw [hown]
    rfl
  · exact hset store
  · exact hset store

theorem lookup_put {α β : Type} [BEq α] [LawfulBEq α] [DecidableEq α] (l : List (α × β)) (a : α)
    (b : β) (a' : α) :
    ((a, b) :: l.filter (·.1 ≠ a)).lookup a' = if a' = a then some b else l.lookup a' := by
  rw [List.lookup_cons, lookup_filter_ne]
  by_cases ha : a' = a
  · rw [if_pos ha, if_pos ha, beq_iff_eq.mpr ha]
  · rw [if_neg ha, if_neg ha, beq_eq_false_iff_ne.mpr ha]

/-- The tables that are put behind a store are those of its database. -/
theorem tablesAt_keep (w : Workspace) (s : Seat) (store : OpenStore) (d : Database) :
    (w.keep s store d).tablesAt (store.link.home s) = d.tables := by
  unfold keep Link.home
  cases store.link.backing with
  | own _ =>
    dsimp only [tablesAt]
    rw [seat_setSeat, if_pos rfl]
  | named system name =>
    dsimp only [tablesAt]
    rw [lookup_put, if_pos rfl]
    rfl
  | file id place =>
    dsimp only [tablesAt]
    rw [lookup_put, if_pos rfl]
    rfl

/-- Other databases in files stay as they are. -/
theorem tablesAt_keep_file {id : FileId} (w : Workspace) (store : OpenStore) (d : Database)
    (hid : store.link.home s ≠ .file id) :
    (w.keep s store d).tablesAt (.file id) = w.tablesAt (.file id) := by
  unfold keep
  split <;> dsimp only [tablesAt]
  · rw [databases_setSeat]
  · rw [databases_setSeat]
  · rename_i id' place hbacking
    have hne : id ≠ id' := by
      rintro rfl
      refine hid ?_
      unfold Link.home
      rw [hbacking]
    rw [lookup_put, if_neg hne, databases_setSeat]

theorem sessionAt_keep (w : Workspace) (s : Seat) (store : OpenStore) (d : Database) :
    (w.keep s store d).sessionAt (store.link.home s) =
      (w.sessionAt (store.link.home s)).seat s.number (some store.client) d.tables := by
  refine sessionAt_eq_seat (tablesAt_keep w s store d) ?_ fun s' hs' => ?_
  · rw [clientAt_keep, if_pos rfl]
  · unfold clientAt
    rw [seat_keep w store d hs']

theorem sessionAt_keep_file {id : FileId} (w : Workspace) (s : Seat) (store : OpenStore)
    (d : Database) (hid : store.link.home s ≠ .file id) :
    (w.keep s store d).sessionAt (.file id) = (w.sessionAt (.file id)).vacate s.number := by
  refine sessionAt_eq_seat (tablesAt_keep_file w store d hid) ?_ fun s' hs' => ?_
  · rw [clientAt_keep, if_neg hid]
  · unfold clientAt
    rw [seat_keep w store d hs']

/-! ## Opening a store -/

/-- A database of a store's own is new. -/
theorem reach_own {path : String} {link : Link} {d : Database}
    (h : (w.reach path).1 = .ok link) (hown : link.backing = .own d) : d = {} := by
  unfold reach at h
  split at h
  · cases h
  split at h
  · cases h
  dsimp only at h
  split at h
  · cases h
    cases hown
    rfl
  · cases h
    cases hown
  · split at h
    · cases h
    · rename_i backing _ hopen
      cases h
      unfold openFile at hopen
      repeat' split at hopen
      all_goals cases hopen
      all_goals cases hown

/-- The tables behind a link that was reached for an empty seat. -/
theorem tables_reached {link : Link} {w1 : Workspace} {path : String}
    (hreach : (w.setSeat s none).reach path = (.ok link, w1)) :
    (w1.database link.backing).tables = w1.tablesAt (link.home s) := by
  have hsame := SameStores.reach (w.setSeat s none) path
  rw [hreach] at hsame
  have hempty := hsame.seat s
  rw [seat_setSeat, if_pos rfl] at hempty
  unfold Link.home database tablesAt
  cases hbacking : link.backing with
  | own d =>
    rw [reach_own (congrArg Prod.fst hreach) hbacking]
    simp only [hempty]
  | named system name => rfl
  | file id place => rfl

/-- An open store finds the tables of its database. -/
theorem tables_seated (hseat : w.seat s = some store) :
    (w.database store.link.backing).tables = w.tablesAt (store.link.home s) := by
  obtain ⟨path, dialect, ⟨backing, fixed, readOnly, lockless⟩, known, changed⟩ := store
  unfold Link.home database tablesAt
  cases backing with
  | own d => simp only [hseat]
  | named system name => rfl
  | file id place => rfl

/-- A seat that was emptied is left empty where the database was reached. -/
theorem sessionAt_reached {link : Link} {w1 : Workspace} {path : String} (id : FileId)
    (hreach : (w.setSeat s none).reach path = (.ok link, w1)) :
    w1.sessionAt (.file id) = (w.sessionAt (.file id)).vacate s.number := by
  have hsame := SameStores.reach (w.setSeat s none) path
  rw [hreach] at hsame
  rw [hsame.sessionAt, sessionAt_setSeat_none]

section Opening

variable {c : DatabaseConfig} {link : Link} {w1 : Workspace}

/-- Opening a store is a step of the session on the database that is reached. A database that is not
in a file goes with the only store on it, if that is not opened after all. -/
theorem openQuietly_joins (hreach : (w.setSeat s none).reach c.path = (.ok link, w1))
    (hwait : c.busyTimeout.toNat ≤ longestWait) :
    ∃ x, (w1.sessionAt (link.home s)).join s.number (w1.setting link) c.dialect =
        ((w.openQuietly s c).1, x) ∧
      ((w.openQuietly s c).1 = .ok () ∨ (∃ id, link.home s = .file id) →
        (w.openQuietly s c).2.sessionAt (link.home s) = x) := by
  have htidy := SameStores.tidy w1 link
  have hfill := htidy.trans (SameStores.fill (w1.tidy link) link)
  have htables : ((w1.tidy link).database link.backing).tables = w1.tablesAt (link.home s) := by
    rw [← tables_reached hreach]
    unfold database
    rw [htidy.named, htidy.databases]
  unfold openQuietly Session.join
  rw [hreach]
  simp only [if_neg (Nat.not_lt.mpr hwait)]
  rw [htables, show (w1.sessionAt (link.home s)).tables = w1.tablesAt (link.home s) from rfl]
  rcases addTables (w1.setting link) ⟨w1.tablesAt (link.home s), {}, 0⟩ with ⟨r | u, k⟩
  · refine ⟨_, rfl, fun _ => ?_⟩
    have hempty : (w1.sessionAt (link.home s)).clients s.number = none := by
      have hsame := SameStores.reach (w.setSeat s none) c.path
      rw [hreach] at hsame
      rw [clients_number, clientAt, hsame.seat, seat_setSeat, if_pos rfl]
      rfl
    exact (htidy.sessionAt _).trans (Session.vacate_empty hempty).symm
  · have hkept := sessionAt_keep ((w1.tidy link).fill link) s
      ⟨c.path, c.dialect, link, k.known, k.changed⟩
      { (w1.tidy link).database link.backing with tables := k.tables }
    rw [hfill.sessionAt] at hkept
    dsimp only
    cases requireRecent c.dialect.strategy k.known with
    | ok u => exact ⟨_, rfl, fun _ => hkept⟩
    | error e =>
      refine ⟨_, rfl, fun hfile => ?_⟩
      obtain ⟨id, hid⟩ := hfile.resolve_left (by simp)
      rw [hid] at hkept ⊢
      rw [sessionAt_setSeat_none, hkept, Session.vacate_seat]

/-- Opening a store notes a line, which is all the same to the stores. -/
theorem openStore_quietly (w : Workspace) (s : Seat) (c : DatabaseConfig) :
    (w.openStore s c).1 = (w.openQuietly s c).1 ∧
      (w.openQuietly s c).2.SameStores (w.openStore s c).2 := by
  unfold openStore
  rcases w.openQuietly s c with ⟨e | u, w1⟩
  · exact ⟨rfl, .refl w1⟩
  · exact ⟨rfl, .note w1 _ _ _⟩

/-- Opening a store is a step of the session on the database that is reached, with the same result.
A database that is in no file goes again if its only store is not opened after all. -/
theorem openStore_joins (hreach : (w.setSeat s none).reach c.path = (.ok link, w1))
    (hwait : c.busyTimeout.toNat ≤ longestWait) :
    ∃ x, (w1.sessionAt (link.home s)).step ⟨s.number, w1.setting link, .join c.dialect⟩ =
        (.joined (w.openStore s c).1, x) ∧
      ((w.openStore s c).1 = .ok () ∨ (∃ id, link.home s = .file id) →
        (w.openStore s c).2.sessionAt (link.home s) = x) := by
  obtain ⟨hresult, hsame⟩ := w.openStore_quietly s c
  obtain ⟨x, hjoin, hkept⟩ := openQuietly_joins hreach hwait
  refine ⟨x, ?_, fun hor => ?_⟩
  · unfold Session.step
    dsimp only
    rw [hjoin, hresult]
  · rw [hsame.sessionAt]
    exact hkept (hresult ▸ hor)

/-- On any other database in a file the seat is empty from then on. -/
theorem openStore_elsewhere {id : FileId}
    (helse : ∀ link, ((w.setSeat s none).reach c.path).1 = .ok link → link.home s = .file id →
      longestWait < c.busyTimeout.toNat) :
    (w.openStore s c).2.sessionAt (.file id) = (w.sessionAt (.file id)).vacate s.number := by
  obtain ⟨-, hsame⟩ := w.openStore_quietly s c
  rw [hsame.sessionAt, ← sessionAt_setSeat_none]
  have hreached := SameStores.reach (w.setSeat s none) c.path
  unfold openQuietly
  rcases hrun : (w.setSeat s none).reach c.path with ⟨e | link, w1⟩ <;>
    rw [hrun] at hreached helse <;> dsimp only at hreached ⊢
  · exact hreached.sessionAt _
  split
  · exact hreached.sessionAt _
  rename_i hwait
  have hhome : link.home s ≠ .file id := fun h => hwait (helse link rfl h)
  have htidy := hreached.trans (.tidy w1 link)
  split
  · exact htidy.sessionAt _
  · rename_i k _
    have hfill := htidy.trans (.fill (w1.tidy link) link)
    have hkept := sessionAt_keep_file ((w1.tidy link).fill link) s
      ⟨c.path, c.dialect, link, k.known, k.changed⟩
      { (w1.tidy link).database link.backing with tables := k.tables } hhome
    rw [hfill.sessionAt, sessionAt_setSeat_none, Session.vacate_vacate] at hkept
    rw [sessionAt_setSeat_none]
    split
    · rw [sessionAt_setSeat_none, hkept, Session.vacate_vacate]
    · exact hkept

end Opening

/-! ## Asking a store -/

theorem clients_seated {store : OpenStore} (hseat : w.seat s = some store) :
    (w.sessionAt (store.link.home s)).clients s.number = some store.client := by
  rw [clients_number, clientAt, hseat]
  exact if_pos rfl

/-- An operation on a store is an operation on the tables that the session has, and what it leaves
behind is what the session keeps. -/
theorem operate_session {α : Type} {op : Setting → OpenStore → Operation α} {store : OpenStore}
    {result : Except Refusal α} (hseat : w.seat s = some store)
    (hop : w.operate s op = some (result, w')) :
    ∃ k, op (w.setting store.link) store
        ⟨w.tablesAt (store.link.home s), store.known, store.changed⟩ = (result, k) ∧
      w'.sessionAt (store.link.home s) = (w.sessionAt (store.link.home s)).seat s.number
        (some ⟨k.known, k.changed, store.dialect.strategy⟩) k.tables := by
  unfold operate at hop
  rw [hseat] at hop
  dsimp only at hop
  rw [tables_seated hseat] at hop
  cases hop
  exact ⟨_, rfl, sessionAt_keep w s _ _⟩

/-- Other databases in files are left alone. -/
theorem operate_elsewhere {α : Type} {op : Setting → OpenStore → Operation α} {store : OpenStore}
    {result : Except Refusal α} {id : FileId} (hseat : w.seat s = some store)
    (hop : w.operate s op = some (result, w')) (hid : store.link.home s ≠ .file id) :
    w'.sessionAt (.file id) = w.sessionAt (.file id) := by
  have hempty : (w.sessionAt (.file id)).clients s.number = none := by
    rw [clients_number, clientAt, hseat]
    exact if_neg hid
  unfold operate at hop
  rw [hseat] at hop
  cases hop
  refine (sessionAt_keep_file w s _ _ ?_).trans (Session.vacate_empty hempty)
  exact hid

/-- A request is an operation, and uses that could not be recorded are noted. -/
theorem request_operates {r : Request} {result : Except Refusal Reply}
    (hrequest : w.request s r = some (result, w')) :
    ∃ after, w.operate s (fun setting store => r.run setting store.dialect.strategy) =
        some (result, after) ∧ after.SameStores w' := by
  unfold request at hrequest
  split at hrequest
  · cases hrequest
  · rename_i result' after hop
    split at hrequest <;> cases hrequest
    · exact ⟨after, hop, .noteUnrecorded after _ _ _⟩
    · exact ⟨w', hop, .refl w'⟩

/-- A request to a store is a step of the session on its database, with the same answer. -/
theorem request_asks {store : OpenStore} {r : Request} {result : Except Refusal Reply}
    (hseat : w.seat s = some store) (hrequest : w.request s r = some (result, w')) :
    (w.sessionAt (store.link.home s)).step ⟨s.number, w.setting store.link, .ask r⟩ =
      (.asked result, w'.sessionAt (store.link.home s)) := by
  obtain ⟨after, hop, hsame⟩ := request_operates hrequest
  obtain ⟨k, hrun, hafter⟩ := operate_session hseat hop
  have hclient := clients_seated hseat
  rw [hsame.sessionAt, hafter]
  have hask : r.run (w.setting store.link) store.client.own
      ⟨(w.sessionAt (store.link.home s)).tables, store.client.known, store.client.changed⟩ =
        (result, k) := hrun
  unfold Session.step Session.ask
  dsimp only
  rw [hclient]
  dsimp only
  rw [hask]
  rfl

/-- It leaves other databases in files alone. -/
theorem request_elsewhere {store : OpenStore} {r : Request} {result : Except Refusal Reply}
    {id : FileId} (hseat : w.seat s = some store) (hrequest : w.request s r = some (result, w'))
    (hid : store.link.home s ≠ .file id) : w'.sessionAt (.file id) = w.sessionAt (.file id) := by
  obtain ⟨after, hop, hsame⟩ := request_operates hrequest
  rw [hsame.sessionAt]
  exact operate_elsewhere hseat hop hid

end Workspace

/-! ## Looking at a database -/

namespace Store

variable {α : Type} {s : Setting} {c : Connection}

/-- An operation that looks at the database, or not even that. -/
def Operation.Looks (s : Setting) (op : Operation α) : Prop :=
  ∀ c, (op c).2 = c ∨ (op c).2 = c.look s

theorem Connection.prepare_looks (c : Connection) (s : Setting)
    (needs : Schema → Except StorageError Unit) :
    (c.prepare s needs).2 = c ∨ (c.prepare s needs).2 = c.look s := by
  unfold prepare
  cases needs c.known with
  | ok u => exact Or.inl rfl
  | error e =>
    dsimp only
    split
    · exact Or.inr rfl
    · exact Or.inl rfl

/-- A connection that has looked before sees no more when it looks once more. -/
theorem Connection.look_of_looks {c' : Connection} (h : c' = c ∨ c' = c.look s) :
    c'.look s = c.look s := by
  rcases h with rfl | rfl <;> rfl

theorem runSteps_ask (s : Setting) (lasts : α → Bool) (f : Tables → Except StorageError α)
    (c : Connection) : (runSteps s lasts (Steps.ask f) c).2 = c.look s := by
  unfold runSteps Steps.ask
  cases f c.tables with
  | error e => rfl
  | ok a =>
    dsimp only
    split
    · cases s.commit <;> rfl
    · rfl

theorem autocommit_ask_looks (s : Setting) (needs : Schema → Except StorageError Unit)
    (f : Tables → Except StorageError α) :
    (autocommit s false needs (Steps.ask f)).Looks s := by
  intro c
  have hprepare := c.prepare_looks s needs
  unfold autocommit
  generalize c.prepare s needs = prepared at hprepare ⊢
  rcases prepared with ⟨e | u, c'⟩
  · exact hprepare
  dsimp only at hprepare ⊢
  have hlook := Connection.look_of_looks hprepare
  split
  · exact hprepare
  · exact hprepare
  · exact Or.inr hlook
  · have hrun := runSteps_ask s (fun _ => true) f c'
    generalize runSteps s (fun _ => true) (Steps.ask f) c' = ran at hrun ⊢
    rcases ran with ⟨e | a, c''⟩ <;> exact Or.inr (hrun.trans hlook)

theorem inspect_looks (s : Setting) (needs : Schema → Except StorageError Unit)
    (question : Tables → Except Refusal α) : (inspect s needs question).Looks s := by
  intro c
  have hprepare := c.prepare_looks s needs
  unfold inspect
  generalize c.prepare s needs = prepared at hprepare ⊢
  rcases prepared with ⟨e | u, c'⟩
  · exact hprepare
  dsimp only at hprepare ⊢
  have hlook := Connection.look_of_looks hprepare
  split
  · exact hprepare
  · exact Or.inr hlook
  · exact Or.inr hlook

end Store

theorem liftFaults_looks (s : Setting) (first : Nat) : (liftFaults s first).Looks s := by
  intro c
  have hlift := autocommit_ask_looks s (fun _ => .ok ()) fun _ => s.setAside
  unfold liftFaults
  dsimp only
  split
  · exact hlift c
  have hinspect := inspect_looks s (fun _ => .ok ()) (fun _ => .ok ()) c
  generalize inspect s (fun _ => .ok ()) (fun _ => .ok ()) c = inspected at hinspect ⊢
  rcases inspected with ⟨e | u, c'⟩
  · exact hinspect
  dsimp only at hinspect ⊢
  split
  · have hagain := hlift c'
    rw [Connection.look_of_looks hinspect] at hagain
    rcases hagain with hsame | hlooked
    · exact hinspect.imp hsame.trans hsame.trans
    · exact Or.inr hlooked
  · exact hinspect

/-! ## Whatever becomes of a workspace -/

namespace Store.Session

/-- A session becomes another one in some steps. -/
def Becomes (x y : Session) : Prop := ∃ steps, (x.run steps).2 = y

variable {x y z : Session} {i : Nat}

theorem run_append (x : Session) (steps steps' : List Step) :
    (x.run (steps ++ steps')).2 = ((x.run steps).2.run steps').2 := by
  induction steps generalizing x with
  | nil => rfl
  | cons st steps ih =>
    rw [List.cons_append, run_cons, run_cons]
    exact ih _

theorem Becomes.refl (x : Session) : x.Becomes x := ⟨[], rfl⟩

theorem Becomes.of_eq (h : y = x) : x.Becomes y := h ▸ .refl x

theorem Becomes.of_step {st : Step} {a : Answer} (h : x.step st = (a, y)) : x.Becomes y :=
  ⟨[st], congrArg Prod.snd h⟩

theorem Becomes.trans (h : x.Becomes y) (h' : y.Becomes z) : x.Becomes z := by
  obtain ⟨steps, rfl⟩ := h
  obtain ⟨steps', rfl⟩ := h'
  exact ⟨steps ++ steps', run_append x steps steps'⟩

/-- A seat is empty once a store could not be opened in it. -/
theorem Becomes.vacate (x : Session) (i : Nat) : x.Becomes (x.vacate i) :=
  ⟨[⟨i, { lock := .exclusive }, .join .sqlite⟩], rfl⟩

theorem Becomes.look {k : Client} (hk : x.clients i = some k) (s : Setting) :
    x.Becomes (x.seat i (some { k with known := x.tables.schema s }) x.tables) := by
  have hstep : x.step ⟨i, s, .look⟩ =
      (.looked, x.seat i (some { k with known := x.tables.schema s }) x.tables) := by
    unfold Session.step
    dsimp only
    rw [hk]
  exact .of_step hstep

end Store.Session

namespace Workspace

/-- A workspace becomes another one while stores are opened and asked, faults are set and lifted,
and files, locks and the journal change. Direct edits of tables are not among this. -/
inductive Served (w : Workspace) : Workspace → Prop where
  /-- Nothing has happened. -/
  | here : Served w w
  /-- A store was opened, or not. -/
  | opened {w' : Workspace} (h : Served w w') (s : Seat) (c : DatabaseConfig) :
    Served w (w'.openStore s c).2
  /-- A store was asked. -/
  | asked {w' w'' : Workspace} {s : Seat} {r : Request} {result : Except Refusal Reply}
    (h : Served w w') (hrequest : w'.request s r = some (result, w'')) : Served w w''
  /-- A fault was set, or not. -/
  | struck {w' w'' : Workspace} {s : Seat} {name : String} {fault : Table → Fault}
    {result : Except Refusal Unit} (h : Served w w')
    (hset : w'.setFault s name fault = some (result, w'')) : Served w w''
  /-- Faults were lifted, or not. -/
  | lifted {w' w'' : Workspace} {s : Seat} {first : Nat} {result : Except Refusal Unit}
    (h : Served w w') (hlift : w'.clearFaults s first = some (result, w'')) : Served w w''
  /-- Something has changed that is no store and no database. -/
  | around {w' w'' : Workspace} (h : Served w w') (hsame : w'.SameStores w'') : Served w w''

variable {w w' : Workspace} {s : Seat}

/-- Whatever comes of opening a store, the session on a database in a file goes on. -/
theorem openStore_becomes (w : Workspace) (s : Seat) (c : DatabaseConfig) (id : FileId) :
    (w.sessionAt (.file id)).Becomes ((w.openStore s c).2.sessionAt (.file id)) := by
  by_cases hthere : ∃ link w1, (w.setSeat s none).reach c.path = (.ok link, w1) ∧
      link.home s = .file id ∧ c.busyTimeout.toNat ≤ longestWait
  · obtain ⟨link, w1, hreach, hhome, hwait⟩ := hthere
    obtain ⟨x, hstep, hkept⟩ := openStore_joins hreach hwait
    rw [hhome, sessionAt_reached id hreach] at hstep
    have hafter := hkept (Or.inr ⟨id, hhome⟩)
    rw [hhome] at hafter
    rw [hafter]
    exact (Session.Becomes.vacate _ s.number).trans (.of_step hstep)
  · rw [openStore_elsewhere]
    · exact .vacate _ s.number
    · intro link hreach hhome
      by_contra hwait
      exact hthere ⟨link, _, Prod.ext hreach rfl, hhome, Nat.le_of_not_lt hwait⟩

theorem request_becomes {r : Request} {result : Except Refusal Reply}
    (hrequest : w.request s r = some (result, w')) (id : FileId) :
    (w.sessionAt (.file id)).Becomes (w'.sessionAt (.file id)) := by
  cases hseat : w.seat s with
  | none =>
    unfold request operate at hrequest
    rw [hseat] at hrequest
    cases hrequest
  | some store =>
    by_cases hhome : store.link.home s = .file id
    · have hstep := request_asks hseat hrequest
      rw [hhome] at hstep
      exact .of_step hstep
    · exact .of_eq (request_elsewhere hseat hrequest hhome)

/-- A store that only looks at its database is a store that looks in the session. -/
theorem operate_becomes {α : Type} {op : Setting → OpenStore → Operation α}
    {result : Except Refusal α} (hlooks : ∀ setting store, (op setting store).Looks setting)
    (hop : w.operate s op = some (result, w')) (id : FileId) :
    (w.sessionAt (.file id)).Becomes (w'.sessionAt (.file id)) := by
  cases hseat : w.seat s with
  | none =>
    unfold operate at hop
    rw [hseat] at hop
    cases hop
  | some store =>
    by_cases hhome : store.link.home s = .file id
    · obtain ⟨k, hop', hafter⟩ := operate_session hseat hop
      have hclient := clients_seated hseat
      have hlook := hlooks (w.setting store.link) store
        ⟨w.tablesAt (store.link.home s), store.known, store.changed⟩
      rw [hop'] at hlook
      rw [hhome] at hafter hclient hlook
      rw [hafter]
      rcases hlook with rfl | rfl
      · exact .of_eq (Session.seat_same hclient)
      · exact .look hclient (w.setting store.link)
    · exact .of_eq (operate_elsewhere hseat hop hhome)

/-- A store that knows of other faults has looked at the database once they were there. -/
theorem mapFaults_becomes (w : Workspace) (s : Seat) (change : List Fault → List Fault)
    (id : FileId) :
    (w.sessionAt (.file id)).Becomes ((w.mapFaults s change).sessionAt (.file id)) := by
  unfold mapFaults
  cases hseat : w.seat s with
  | none => exact .refl _
  | some store =>
    have hclient := clients_seated hseat
    have htables := tables_seated hseat
    dsimp only
    generalize w.database store.link.backing = d at htables ⊢
    let store' : OpenStore := { store with known := ⟨d.tables.present, change d.faults⟩ }
    let d' : Database := { d with faults := change d.faults }
    show Session.Becomes _ ((w.keep s store' d').sessionAt (.file id))
    by_cases hhome : store.link.home s = .file id
    · have hkept : (w.keep s store' d').sessionAt (store.link.home s) =
          (w.sessionAt (store.link.home s)).seat s.number (some store'.client) d.tables :=
        sessionAt_keep w s store' d'
      rw [hhome] at hclient htables hkept
      have hlook := Session.Becomes.look hclient { faults := change d.faults }
      rw [show (w.sessionAt (.file id)).tables = d.tables from htables.symm] at hlook
      rw [hkept]
      exact hlook
    · rw [sessionAt_keep_file w s store' d' hhome]
      exact .vacate _ s.number

theorem setFault_becomes {name : String} {fault : Table → Fault} {result : Except Refusal Unit}
    (hset : w.setFault s name fault = some (result, w')) (id : FileId) :
    (w.sessionAt (.file id)).Becomes (w'.sessionAt (.file id)) := by
  unfold setFault at hset
  split at hset <;> cases hset <;> rename_i hop
  · exact (operate_becomes (fun setting _ => autocommit_ask_looks setting _ _) hop id).trans
      (mapFaults_becomes _ s _ id)
  · exact operate_becomes (fun setting _ => autocommit_ask_looks setting _ _) hop id

theorem clearFaults_becomes {first : Nat} {result : Except Refusal Unit}
    (hlift : w.clearFaults s first = some (result, w')) (id : FileId) :
    (w.sessionAt (.file id)).Becomes (w'.sessionAt (.file id)) := by
  unfold clearFaults at hlift
  split at hlift
  · rename_i hop
    cases hlift
    exact (operate_becomes (fun setting _ => liftFaults_looks setting first) hop id).trans
      (mapFaults_becomes _ s _ id)
  · exact operate_becomes (fun setting _ => liftFaults_looks setting first) hlift id

/-- A workspace runs a session on each database in a file, whatever becomes of it. -/
theorem served_is_run (h : w.Served w') (id : FileId) :
    (w.sessionAt (.file id)).Becomes (w'.sessionAt (.file id)) := by
  induction h with
  | here => exact .refl _
  | opened h s c ih => exact ih.trans (openStore_becomes _ s c id)
  | asked h hrequest ih => exact ih.trans (request_becomes hrequest id)
  | struck h hset ih => exact ih.trans (setFault_becomes hset id)
  | lifted h hlift ih => exact ih.trans (clearFaults_becomes hlift id)
  | around h hsame ih => exact ih.trans (.of_eq (hsame.sessionAt _))

/-- Starting the application comes down to opening a store. -/
theorem Served.bootstrap (h : w.Served w') (s : Seat) (c : Config) :
    w.Served (w'.bootstrap s c).2 := by
  have hbegun : w.Served (w'.startJournal c.log.dir c.log.appName).2 :=
    h.around ⟨rfl, rfl, rfl, rfl⟩
  have hopened := hbegun.opened s c.database
  have htold : ∀ level message, w.Served ((((w'.startJournal c.log.dir c.log.appName).2.openStore s
      c.database).2.tell level message).2) := fun level message =>
    hopened.around ⟨rfl, rfl, rfl, rfl⟩
  unfold Workspace.bootstrap
  dsimp only
  split <;> rename_i hopen <;> rw [hopen] at hopened htold
  · exact hopened
  · exact htold _ _
  · exact (htold _ _).around (.note _ _ _ _)

/-- What every effect and the making of tables keep, a workspace keeps in each file. -/
theorem served_keeps {P : Tables → Prop} (hadd : ∀ t, P t → P t.addMissing)
    (heff : ∀ t r a t', Effect t r a t' → P t → P t') (h : w.Served w') {id : FileId}
    (hw : P (w.tablesAt (.file id))) : P (w'.tablesAt (.file id)) := by
  obtain ⟨steps, hsteps⟩ := served_is_run h id
  have hkept := Session.run_keeps hadd heff (w := w.sessionAt (.file id)) hw steps
  rw [hsteps] at hkept
  exact hkept

end Workspace

end Pinboard
