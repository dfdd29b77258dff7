import Pinboard.Proofs.Operation

/-!
# What a granted request does

`Effect` lists, request by request, everything that a granted request can do to the tables, with the
conditions under which it was granted. `run_effect` says that every answer of the store is one of
these, and `run_refused` that a refusal changes nothing; an invariant of the store is then a case
analysis over `Effect`, which never opens an operation again.
-/

namespace Pinboard.Store

/-! ## Positions -/

theorem wide_injective {m n : UInt32} (h : wide m = wide n) : m = n := by
  unfold wide at h
  exact UInt32.toNat_inj.mp (by omega)

/-- The rows with positions from `i` on written to dashboards of an owner. -/
def placed (owner : UserId) : Nat → List UInt32 → List DashboardRow → List DashboardRow
  | _, [], rows => rows
  | i, id :: ids, rows =>
    placed owner (i + 1) ids
      (placeAt (fun r => r.id == wide id && r.owner == wide owner) (positionOf i) rows)

/-- Writing positions, where it succeeds, changes nothing but the positions. -/
theorem writePositions_spec {s : Setting} {owner : UserId} {ids : List UInt32} :
    ∀ {i changed : Nat} {t t' : Tables} {rows : List DashboardRow} {u : Unit},
      t.dashboards = some rows → (writePositions s owner i ids t changed).1 = .ok (u, t') →
      t' = { t with dashboards := some (placed owner i ids rows) } := by
  induction ids with
  | nil =>
    intro i changed t t' rows u ht h
    obtain ⟨-, rfl⟩ := Steps.pure_eq_ok.mp h
    rw [placed, ← ht]
  | cons id ids ih =>
    intro i changed t t' rows u ht h
    obtain ⟨count, t1, h1, h2⟩ := Steps.bind_eq_ok.mp h
    obtain ⟨-, rows', hrows', -, -, rfl⟩ := setOrder_eq_ok.mp (Steps.changeMany_eq_ok.mp h1)
    cases ht.symm.trans hrows'
    have h3 := ih rfl h2
    exact h3

/-- Numbering the dashboards of an owner anew, where it succeeds, writes the positions of those that
are shown, in the order they are shown in. -/
theorem renumber_spec {s : Setting} {owner : UserId} {t t' : Tables} {changed : Nat} {u : Unit}
    (h : (renumber s owner t changed).1 = .ok (u, t')) :
    ∃ rows ids, t.dashboards = some rows ∧ t.orderedIds owner = .ok ids ∧
      t' = { t with dashboards := some (placed owner 0 ids rows) } := by
  obtain ⟨ids, t1, h1, h2⟩ := Steps.bind_eq_ok.mp h
  obtain ⟨hids, rfl⟩ := Steps.ask_eq_ok.mp h1
  have hshown := hids
  unfold Tables.orderedIds Tables.shownDashboards at hshown
  obtain ⟨shown, h3, -⟩ := except_bind_eq_ok.mp hshown
  obtain ⟨rows, hrows, -⟩ := except_bind_eq_ok.mp h3
  rw [Tables.dashboardRows_eq_ok] at hrows
  exact ⟨rows, ids, hrows, hids, writePositions_spec hrows h2⟩

/-! ## Uses -/

/-- A use is put into the ledger: in place of the old one, into the old one, or as a new one. -/
inductive UsePut (row : RecentRow) : Tables → Tables → Prop where
  /-- The old use, if there is one, makes way for the new one. -/
  | replaced {t : Tables} {rows : List RecentRow} {users : List UserRow}
      (hrows : t.recents = some rows) (husers : t.users = some users)
      (howner : ∃ u ∈ users, u.id = row.owner) :
      UsePut row t { t with
        recents := some (rows.filter (!·.isFor row.owner row.key) ++ [row.numbered rows]) }
  /-- The old use is given the new moment. -/
  | retimed {t : Tables} {rows : List RecentRow} {old : RecentRow} (hrows : t.recents = some rows)
      (hold : rows.find? (·.isFor row.owner row.key) = some old) :
      UsePut row t { t with recents := some (retime row rows) }
  /-- There is no old use. -/
  | added {t : Tables} {rows : List RecentRow} {users : List UserRow}
      (hrows : t.recents = some rows) (husers : t.users = some users)
      (hnone : rows.find? (·.isFor row.owner row.key) = none)
      (howner : ∃ u ∈ users, u.id = row.owner) :
      UsePut row t { t with recents := some (rows ++ [row.numbered rows]) }

/-- Uses of several keys at one moment are put into the ledger, except for those that could not be
recorded. -/
inductive UsesPut (owner : UserId) (moment : Time.Instant) :
    List String → List Unrecorded → Tables → Tables → Prop where
  /-- No key is left. -/
  | done (t : Tables) : UsesPut owner moment [] [] t t
  /-- The use of a key is put. -/
  | put {key : String} {keys : List String} {us : List Unrecorded} {t t1 t' : Tables}
      (h : UsePut (.ofUse owner key moment) t t1) (hs : UsesPut owner moment keys us t1 t') :
      UsesPut owner moment (key :: keys) us t t'
  /-- The use of a key is left out. -/
  | skip {key : String} {keys : List String} {us : List Unrecorded} {cause : Refusal}
      {t t' : Tables} (hs : UsesPut owner moment keys us t t') :
      UsesPut owner moment (key :: keys) (⟨key, cause⟩ :: us) t t'

/-- Only the ledger changes where a use is put. -/
theorem UsePut.only_recents {row : RecentRow} {t t' : Tables} (h : UsePut row t t') :
    ∃ rows, t' = { t with recents := some rows } := by
  cases h <;> exact ⟨_, rfl⟩

/-- Only the ledger changes where uses are put. -/
theorem UsesPut.only_recents {owner : UserId} {moment : Time.Instant} {keys : List String}
    {us : List Unrecorded} {t t' : Tables} (h : UsesPut owner moment keys us t t') :
    ∃ recents, t' = { t with recents := recents } := by
  induction h with
  | done t => exact ⟨t.recents, rfl⟩
  | put h _ ih =>
    obtain ⟨rows, rfl⟩ := h.only_recents
    exact ih
  | skip _ ih => exact ih

theorem putRecent_spec {s : Setting} {strategy : Dialect.Strategy} {row : RecentRow}
    {t t' : Tables} {u : Unit} (h : putRecent s strategy row t = .ok (u, t')) :
    UsePut row t t' := by
  cases strategy with
  | replace =>
    obtain ⟨-, -, rows, users, hrows, husers, howner, rfl⟩ := replaceRecent_eq_ok.mp h
    exact .replaced hrows husers howner
  | duplicateKey => cases h
  | conflictTarget =>
    obtain ⟨-, -, -, rows, users, hrows, husers, hput⟩ := mergeRecent_eq_ok.mp h
    rcases hput with ⟨old, hold, -, rfl⟩ | ⟨hnone, howner, rfl⟩
    · exact .retimed hrows hold
    · exact .added hrows husers hnone howner

/-! ## Requests -/

/-- Does a request only ask? -/
def Request.isQuestion : Request → Bool
  | findUser _ => true
  | findDashboard _ _ => true
  | listDashboards _ => true
  | findTag _ _ => true
  | listTags _ => true
  | rankTags _ => true
  | findUse _ _ => true
  | _ => false

/-- Does a request carry on where something cannot be recorded? All others report every failure. -/
def Request.carriesOn : Request → Bool
  | recordUses _ _ _ _ => true
  | _ => false

/-- What a granted request does: the tables before, the request, the answer, the tables after. -/
inductive Effect : Tables → Request → Reply → Tables → Prop where
  /-- A question changes nothing. -/
  | question {t : Tables} {r : Request} {a : Reply} (h : r.isQuestion = true) : Effect t r a t
  /-- A user with a new name gets the next number. -/
  | createUser {t : Tables} {name : String} {rows : List UserRow} {n : Int}
      (hblank : Text.allBlank name = false) (hrows : t.users = some rows)
      (hn : nextNumber (rows.map (·.id)) t.lastUser = .ok n)
      (hname : ∀ r ∈ rows, r.name ≠ .text name) :
      Effect t (.createUser name) (.user (some ⟨cut32 n, name⟩))
        { t with users := some (rows ++ [⟨n, .text name⟩]), lastUser := max t.lastUser n }
  /-- A user goes, and all that belongs to it. -/
  | removeUser {t : Tables} {id : UserId} {rows : List UserRow} (hrows : t.users = some rows)
      (hid : ∃ r ∈ rows, r.id = wide id) :
      Effect t (.removeUser id) .done { t.withoutBelongings (· == wide id) with
        users := some (rows.filter (!·.id == wide id)) }
  /-- A dashboard gets the next number, and the position after its owner's last one. -/
  | createDashboard {t : Tables} {draft : Dashboard} {rows : List DashboardRow}
      {users : List UserRow} {order : Int32} {n : Int} (hblank : Text.allBlank draft.name = false)
      (hrows : t.dashboards = some rows) (husers : t.users = some users)
      (horder : t.nextOrder draft.owner = .ok order)
      (hn : nextNumber (rows.map (·.id)) t.lastDashboard = .ok n)
      (howner : ∃ u ∈ users, u.id = wide draft.owner) :
      Effect t (.createDashboard draft)
        (.dashboard (some { draft with id := cut32 n, order := order }))
        { t with
          dashboards := some
            (rows ++ [⟨n, wide draft.owner, .text draft.name, .integer order.toInt⟩])
          lastDashboard := max t.lastDashboard n }
  /-- A dashboard and its neighbour change places, and all positions are written. -/
  | moved {t : Tables} {owner : UserId} {id : UInt32} {d : Direction} {rows : List DashboardRow}
      {ids swapped : List UInt32} (hrows : t.dashboards = some rows)
      (hids : t.orderedIds owner = .ok ids)
      (hswap : ((ids.findIdx? (· == id)).bind fun i => swapAdjacent? ids i d) = some swapped) :
      Effect t (.moveDashboard owner id d) (.flag true)
        { t with dashboards := some (placed owner 0 swapped rows) }
  /-- There is no such dashboard, or it has no neighbour. -/
  | unmoved {t : Tables} {owner : UserId} {id : UInt32} {d : Direction} {ids : List UInt32}
      (hids : t.orderedIds owner = .ok ids)
      (hswap : ((ids.findIdx? (· == id)).bind fun i => swapAdjacent? ids i d) = none) :
      Effect t (.moveDashboard owner id d) (.flag false) t
  /-- All positions are written. -/
  | reindexDashboards {t : Tables} {owner : UserId} {rows : List DashboardRow}
      {ids : List UInt32} (hrows : t.dashboards = some rows)
      (hids : t.orderedIds owner = .ok ids) :
      Effect t (.reindexDashboards owner) .done
        { t with dashboards := some (placed owner 0 ids rows) }
  /-- A dashboard goes, and the positions of those that are left are written. -/
  | removeDashboard {t : Tables} {owner : UserId} {id : UInt32} {rows left : List DashboardRow}
      {ids : List UInt32} (hrows : t.dashboards = some rows)
      (hid : ∃ r ∈ rows, r.id = wide id ∧ r.owner = wide owner)
      (hleft : left = rows.filter fun r => !(r.id == wide id && r.owner == wide owner))
      (hids : Tables.orderedIds { t with dashboards := some left } owner = .ok ids) :
      Effect t (.removeDashboard owner id) .done
        { t with dashboards := some (placed owner 0 ids left) }
  /-- A tag is put under a new key. -/
  | createTag {t : Tables} {tag : Tag} {rows : List TagRow} {users : List UserRow}
      (hblank : Text.allBlank tag.key = false) (hrows : t.tags = some rows)
      (husers : t.users = some users)
      (hkey : ∀ r ∈ rows, ¬ (r.owner = wide tag.owner ∧ r.key = .text tag.key))
      (howner : ∃ u ∈ users, u.id = wide tag.owner) :
      Effect t (.createTag tag) (.tag (some tag))
        { t with tags := some (rows ++ [(TagRow.ofTag tag).numbered rows]) }
  /-- A tag goes, and the last use of its key with it. -/
  | removeTag {t : Tables} {owner : UserId} {key : String} {rows : List TagRow}
      {recents : List RecentRow} (hrows : t.tags = some rows) (hrecents : t.recents = some recents)
      (hkey : ∃ r ∈ rows, r.owner = wide owner ∧ r.key = .text key) :
      Effect t (.removeTag owner key) .done { t with
        tags := some (rows.filter fun r => !(r.owner == wide owner && r.key == .text key))
        recents := some (recents.filter (!·.isFor (wide owner) (.text key))) }
  /-- A use is recorded. -/
  | recordUse {t t' : Tables} {strategy : Option Dialect.Strategy} {owner : UserId} {key : String}
      {moment : Time.Instant} (h : UsePut (.ofUse owner key moment) t t') :
      Effect t (.recordUse strategy owner key moment) .done t'
  /-- Uses are recorded as far as possible. -/
  | recordUses {t t' : Tables} {strategy : Option Dialect.Strategy} {owner : UserId}
      {keys : List String} {moment : Time.Instant} {us : List Unrecorded}
      (h : UsesPut owner moment keys us t t') :
      Effect t (.recordUses strategy owner keys moment) (.unrecorded us) t'

/-! ## Every answer is an effect -/

theorem recordUse_spec {s : Setting} {strategy : Dialect.Strategy} {owner : UserId} {key : String}
    {moment : Time.Instant} {c : Connection} {u : Unit} {t : Tables}
    (h : (recordUse s strategy owner key moment).Yields c u t) :
    UsePut (.ofUse owner key moment) c.tables t := by
  obtain ⟨-, -, -, -, h, -⟩ := autocommit_yields.mp h
  exact putRecent_spec (Steps.change_eq_ok.mp h)

theorem recordUse_atomic (s : Setting) (strategy : Dialect.Strategy) (owner : UserId)
    (key : String) (moment : Time.Instant) : (recordUse s strategy owner key moment).Atomic :=
  autocommit_atomic _ _ _ _

/-- Each use of a batch is put or left out, on the tables that those before it have left. -/
theorem recordUses_spec (s : Setting) (strategy : Dialect.Strategy) (owner : UserId)
    (moment : Time.Instant) (keys : List String) (c : Connection) :
    UsesPut owner moment keys (recordUses s strategy owner moment keys c).1 c.tables
      (recordUses s strategy owner moment keys c).2.tables := by
  induction keys generalizing c with
  | nil => exact .done c.tables
  | cons key keys ih =>
    rcases hr : recordUse s strategy owner key moment c with ⟨cause | u, c1⟩
    · have hkeep := recordUse_atomic s strategy owner key moment c cause (by rw [hr])
      rw [hr] at hkeep
      have hrest := ih c1
      rw [show c1.tables = c.tables from hkeep] at hrest
      simp only [recordUses, hr]
      exact .skip hrest
    · have hput := recordUse_spec (Operation.Yields.intro hr)
      simp only [recordUses, hr]
      exact .put hput (ih c1)

theorem exists_of_filter {ρ : Type} {rows : List ρ} {p : ρ → Bool}
    (h : (rows.filter p).length ≠ 0) : ∃ r ∈ rows, p r = true := by
  obtain ⟨r, hr⟩ := List.exists_mem_of_length_pos (Nat.pos_of_ne_zero h)
  rw [List.mem_filter] at hr
  exact ⟨r, hr⟩

/-- A user is made by one row that is inserted. -/
theorem createUser_inserts {s : Setting} {name : String} {c : Connection} {u : User} {t : Tables}
    (h : (createUser s name).Yields c u t) : Text.allBlank name = false ∧
      ∃ n, insertUser s none (some (.text name)) c.tables = .ok (n, t) ∧ u = ⟨cut32 n, name⟩ := by
  unfold createUser at h
  by_cases hb : Text.allBlank name = true
  · rw [if_pos hb] at h
    exact absurd h Operation.refused_not_yields
  · rw [if_neg hb] at h
    obtain ⟨-, -, -, -, h, -⟩ := autocommit_yields.mp h
    obtain ⟨n, t1, h1, h2⟩ := Steps.bind_eq_ok.mp h
    obtain ⟨rfl, rfl⟩ := Steps.pure_eq_ok.mp h2
    exact ⟨by simpa using hb, n, Steps.tryWith_eq_ok.mp h1, rfl⟩

theorem createUser_effect {s : Setting} {name : String} {c : Connection} {u : User} {t : Tables}
    (h : (createUser s name).Yields c u t) :
    Effect c.tables (.createUser name) (.user (some u)) t := by
  obtain ⟨hblank, n, hinsert, rfl⟩ := createUser_inserts h
  obtain ⟨-, -, rows, hrows, hn, hname, rfl⟩ := insertUser_eq_ok.mp hinsert
  exact .createUser hblank hrows hn hname

theorem removeUser_effect {s : Setting} {id : UserId} {c : Connection} {u : Unit} {t : Tables}
    (h : (removeUser s id).Yields c u t) : Effect c.tables (.removeUser id) .done t := by
  obtain ⟨count, h, hv⟩ := Operation.judge_yields.mp h
  obtain ⟨-, -, -, -, h, -⟩ := autocommit_yields.mp h
  obtain ⟨-, -, rows, hrows, -, hcount, h⟩ := deleteUser_eq_ok.mp (Steps.changeMany_eq_ok.mp h)
  rcases h with ⟨h0, -⟩ | ⟨h0, -, rfl⟩
  · simp [h0] at hv
  · obtain ⟨r, hr, hid⟩ := exists_of_filter (hcount ▸ h0)
    exact .removeUser hrows ⟨r, hr, by simpa using hid⟩

/-- A dashboard is made by one row that is inserted, at the next position of its owner. -/
theorem createDashboard_inserts {s : Setting} {draft d : Dashboard} {c : Connection} {t : Tables}
    (h : (createDashboard s draft).Yields c d t) : Text.allBlank draft.name = false ∧
      ∃ order n, c.tables.nextOrder draft.owner = .ok order ∧
        insertDashboard s none (some (.integer (wide draft.owner))) (some (.text draft.name))
          (some (.integer order.toInt)) c.tables = .ok (n, t) ∧
        d = { draft with id := cut32 n, order := order } := by
  unfold createDashboard at h
  by_cases hb : Text.allBlank draft.name = true
  · rw [if_pos hb] at h
    exact absurd h Operation.refused_not_yields
  · rw [if_neg hb] at h
    obtain ⟨-, t3, h, ⟨-, -, rfl⟩ | ⟨h', -⟩⟩ := transactionIf_yields.mp h
    · obtain ⟨order, t1, h1, h⟩ := Steps.bind_eq_ok.mp h
      obtain ⟨horder, rfl⟩ := Steps.ask_eq_ok.mp h1
      obtain ⟨n, t2, h2, h3⟩ := Steps.bind_eq_ok.mp h
      obtain ⟨rfl, rfl⟩ := Steps.pure_eq_ok.mp h3
      exact ⟨by simpa using hb, order, n, horder, Steps.change_eq_ok.mp h2, rfl⟩
    · cases h'

theorem createDashboard_effect {s : Setting} {draft d : Dashboard} {c : Connection} {t : Tables}
    (h : (createDashboard s draft).Yields c d t) :
    Effect c.tables (.createDashboard draft) (.dashboard (some d)) t := by
  obtain ⟨hblank, order, n, horder, hinsert, rfl⟩ := createDashboard_inserts h
  obtain ⟨-, -, rows, users, hrows, husers, hn, howner, rfl⟩ := insertDashboard_eq_ok.mp hinsert
  exact .createDashboard hblank hrows husers horder hn howner

/-- Where the numbers of an owner's dashboards can be told, there are dashboards to tell of. -/
theorem dashboards_of_orderedIds {t : Tables} {owner : UserId} {ids : List UInt32}
    (h : t.orderedIds owner = .ok ids) : ∃ rows, t.dashboards = some rows := by
  unfold Tables.orderedIds Tables.shownDashboards at h
  obtain ⟨shown, h1, -⟩ := except_bind_eq_ok.mp h
  obtain ⟨rows, hrows, -⟩ := except_bind_eq_ok.mp h1
  exact ⟨rows, Tables.dashboardRows_eq_ok.mp hrows⟩

theorem moveDashboard_effect {s : Setting} {owner : UserId} {id : UInt32} {d : Direction}
    {c : Connection} {b : Bool} {t : Tables} (h : (moveDashboard s owner id d).Yields c b t) :
    Effect c.tables (.moveDashboard owner id d) (.flag b) t := by
  obtain ⟨-, t2, h, hlast⟩ := transactionIf_yields.mp h
  obtain ⟨ids, t1, h1, h⟩ := Steps.bind_eq_ok.mp h
  obtain ⟨hids, rfl⟩ := Steps.ask_eq_ok.mp h1
  cases hswap : (ids.findIdx? (· == id)).bind fun i => swapAdjacent? ids i d with
  | none =>
    simp only [hswap] at h
    obtain ⟨rfl, rfl⟩ := Steps.pure_eq_ok.mp h
    rcases hlast with ⟨h', -, -⟩ | ⟨-, rfl⟩
    · cases h'
    · exact .unmoved hids hswap
  | some swapped =>
    simp only [hswap] at h
    obtain ⟨_, t3, h3, h⟩ := Steps.bind_eq_ok.mp h
    obtain ⟨rfl, rfl⟩ := Steps.pure_eq_ok.mp h
    obtain ⟨rows, hrows⟩ := dashboards_of_orderedIds hids
    rcases hlast with ⟨-, -, rfl⟩ | ⟨h', -⟩
    · rw [writePositions_spec hrows h3]
      exact .moved hrows hids hswap
    · cases h'

theorem reindexDashboards_effect {s : Setting} {owner : UserId} {c : Connection} {u : Unit}
    {t : Tables} (h : (reindexDashboards s owner).Yields c u t) :
    Effect c.tables (.reindexDashboards owner) .done t := by
  obtain ⟨-, t2, h, ⟨-, -, rfl⟩ | ⟨h', -⟩⟩ := transactionIf_yields.mp h
  · obtain ⟨rows, ids, hrows, hids, rfl⟩ := renumber_spec h
    exact .reindexDashboards hrows hids
  · cases h'

theorem removeDashboard_effect {s : Setting} {owner : UserId} {id : UInt32} {c : Connection}
    {u : Unit} {t : Tables} (h : (removeDashboard s owner id).Yields c u t) :
    Effect c.tables (.removeDashboard owner id) .done t := by
  obtain ⟨-, -, -, h, -⟩ := transactionFrom_yields.mp h
  obtain ⟨count, t1, h1, h⟩ := Steps.bind_eq_ok.mp h
  obtain ⟨-, rows, hrows, -, hcount, rfl⟩ := deleteDashboard_eq_ok.mp (Steps.changeMany_eq_ok.mp h1)
  by_cases h0 : count = 0
  · rw [if_pos h0] at h
    exact absurd h Steps.refuse_ne_ok
  · rw [if_neg h0] at h
    obtain ⟨r, hr, hid⟩ := exists_of_filter (hcount ▸ h0)
    obtain ⟨left, ids, hleft, hids, rfl⟩ := renumber_spec h
    cases hleft
    exact .removeDashboard hrows ⟨r, hr, by simpa using hid⟩ rfl hids

theorem createTag_effect {s : Setting} {tag tag' : Tag} {c : Connection} {t : Tables}
    (h : (createTag s tag).Yields c tag' t) :
    Effect c.tables (.createTag tag) (.tag (some tag')) t := by
  unfold createTag at h
  by_cases hb : Text.allBlank tag.key = true
  · rw [if_pos hb] at h
    exact absurd h Operation.refused_not_yields
  · rw [if_neg hb] at h
    obtain ⟨-, -, -, -, h, -⟩ := autocommit_yields.mp h
    obtain ⟨_, t1, h1, h2⟩ := Steps.bind_eq_ok.mp h
    obtain ⟨rfl, rfl⟩ := Steps.pure_eq_ok.mp h2
    obtain ⟨-, -, rows, users, hrows, husers, hkey, howner, rfl⟩ :=
      insertTag_eq_ok.mp (Steps.tryWith_eq_ok.mp h1)
    exact .createTag (by simpa using hb) hrows husers hkey howner

theorem removeTag_effect {s : Setting} {owner : UserId} {key : String} {c : Connection} {u : Unit}
    {t : Tables} (h : (removeTag s owner key).Yields c u t) :
    Effect c.tables (.removeTag owner key) .done t := by
  obtain ⟨-, -, -, h, -⟩ := transactionFrom_yields.mp h
  obtain ⟨count, t1, h1, h⟩ := Steps.bind_eq_ok.mp h
  obtain ⟨-, rows, hrows, -, hcount, rfl⟩ := deleteTag_eq_ok.mp (Steps.changeMany_eq_ok.mp h1)
  by_cases h0 : count = 0
  · rw [if_pos h0] at h
    exact absurd h Steps.refuse_ne_ok
  · rw [if_neg h0] at h
    obtain ⟨r, hr, hkey⟩ := exists_of_filter (hcount ▸ h0)
    obtain ⟨n, t2, h2, h3⟩ := Steps.bind_eq_ok.mp h
    obtain ⟨-, rfl⟩ := Steps.pure_eq_ok.mp h3
    obtain ⟨-, recents, hrecents, -, -, rfl⟩ := deleteRecent_eq_ok.mp (Steps.changeMany_eq_ok.mp h2)
    exact .removeTag hrows hrecents ⟨r, hr, by simpa using hkey⟩

/-- A question changes nothing, whatever comes of it. -/
theorem question_keeps {r : Request} (hq : r.isQuestion = true) (s : Setting)
    (own : Dialect.Strategy) (c : Connection) : (r.run s own c).2.tables = c.tables := by
  cases r with
  | findUser id => exact (Operation.map_tables _ _ c).trans (inspect_keeps _ _ _ c)
  | findDashboard owner id => exact (Operation.map_tables _ _ c).trans (inspect_keeps _ _ _ c)
  | listDashboards owner => exact (Operation.map_tables _ _ c).trans (inspect_keeps _ _ _ c)
  | findTag owner key => exact (Operation.map_tables _ _ c).trans (inspect_keeps _ _ _ c)
  | listTags owner => exact (Operation.map_tables _ _ c).trans (inspect_keeps _ _ _ c)
  | rankTags owner => exact (Operation.map_tables _ _ c).trans (inspect_keeps _ _ _ c)
  | findUse owner key => exact (Operation.map_tables _ _ c).trans (inspect_keeps _ _ _ c)
  | _ => cases hq

theorem question_effect {r : Request} (hq : r.isQuestion = true) {s : Setting}
    {own : Dialect.Strategy} {c : Connection} {a : Reply} {t : Tables}
    (h : (r.run s own).Yields c a t) : Effect c.tables r a t := by
  obtain ⟨-, rfl⟩ := h
  rw [question_keeps hq]
  exact .question hq

/-- A granted request has one of the effects. -/
theorem run_effect {s : Setting} {own : Dialect.Strategy} {r : Request} {c : Connection}
    {a : Reply} {t : Tables} (h : (r.run s own).Yields c a t) : Effect c.tables r a t := by
  cases r with
  | createUser name =>
    simp only [Request.run, Operation.map_yields] at h
    obtain ⟨u, h, rfl⟩ := h
    exact createUser_effect h
  | removeUser id =>
    simp only [Request.run, Operation.map_yields] at h
    obtain ⟨u, h, rfl⟩ := h
    exact removeUser_effect h
  | createDashboard draft =>
    simp only [Request.run, Operation.map_yields] at h
    obtain ⟨d, h, rfl⟩ := h
    exact createDashboard_effect h
  | moveDashboard owner id d =>
    simp only [Request.run, Operation.map_yields] at h
    obtain ⟨b, h, rfl⟩ := h
    exact moveDashboard_effect h
  | reindexDashboards owner =>
    simp only [Request.run, Operation.map_yields] at h
    obtain ⟨u, h, rfl⟩ := h
    exact reindexDashboards_effect h
  | removeDashboard owner id =>
    simp only [Request.run, Operation.map_yields] at h
    obtain ⟨u, h, rfl⟩ := h
    exact removeDashboard_effect h
  | createTag tag =>
    simp only [Request.run, Operation.map_yields] at h
    obtain ⟨tag', h, rfl⟩ := h
    exact createTag_effect h
  | removeTag owner key =>
    simp only [Request.run, Operation.map_yields] at h
    obtain ⟨u, h, rfl⟩ := h
    exact removeTag_effect h
  | recordUse strategy owner key moment =>
    simp only [Request.run, Operation.map_yields] at h
    obtain ⟨u, h, rfl⟩ := h
    exact .recordUse (recordUse_spec h)
  | recordUses strategy owner keys moment =>
    obtain ⟨h1, rfl⟩ := h
    cases h1
    exact .recordUses (recordUses_spec s (strategy.getD own) owner moment keys c)
  | findUser id => exact question_effect rfl h
  | findDashboard owner id => exact question_effect rfl h
  | listDashboards owner => exact question_effect rfl h
  | findTag owner key => exact question_effect rfl h
  | listTags owner => exact question_effect rfl h
  | rankTags owner => exact question_effect rfl h
  | findUse owner key => exact question_effect rfl h

/-- A refused request leaves the tables as they were. -/
theorem run_atomic (s : Setting) (own : Dialect.Strategy) (r : Request) :
    (r.run s own).Atomic := by
  cases r with
  | createUser name =>
    refine Operation.map_atomic ?_
    unfold createUser
    split
    · exact Operation.refused_atomic _
    · exact autocommit_atomic _ _ _ _
  | removeUser id =>
    refine Operation.map_atomic (Operation.judge_atomic (autocommit_atomic _ _ _ _) ?_)
    intro c count t r h hv
    obtain ⟨-, -, -, -, h, -⟩ := autocommit_yields.mp h
    obtain ⟨-, -, rows, -, -, -, h⟩ := deleteUser_eq_ok.mp (Steps.changeMany_eq_ok.mp h)
    rcases h with ⟨-, rfl⟩ | ⟨h0, -⟩
    · rfl
    · simp [h0] at hv
  | createDashboard draft =>
    refine Operation.map_atomic ?_
    unfold createDashboard
    split
    · exact Operation.refused_atomic _
    · exact transactionIf_atomic _ _ _
  | moveDashboard owner id d => exact Operation.map_atomic (transactionIf_atomic _ _ _)
  | reindexDashboards owner => exact Operation.map_atomic (transactionIf_atomic _ _ _)
  | removeDashboard owner id => exact Operation.map_atomic (transactionFrom_atomic _ _ _)
  | createTag tag =>
    refine Operation.map_atomic ?_
    unfold createTag
    split
    · exact Operation.refused_atomic _
    · exact autocommit_atomic _ _ _ _
  | removeTag owner key => exact Operation.map_atomic (transactionFrom_atomic _ _ _)
  | recordUse strategy owner key moment => exact Operation.map_atomic (recordUse_atomic _ _ _ _ _)
  | recordUses strategy owner keys moment =>
    intro c r h
    cases h
  | findUser id => exact Operation.map_atomic (inspect_atomic _ _ _)
  | findDashboard owner id => exact Operation.map_atomic (inspect_atomic _ _ _)
  | listDashboards owner => exact Operation.map_atomic (inspect_atomic _ _ _)
  | findTag owner key => exact Operation.map_atomic (inspect_atomic _ _ _)
  | listTags owner => exact Operation.map_atomic (inspect_atomic _ _ _)
  | rankTags owner => exact Operation.map_atomic (inspect_atomic _ _ _)
  | findUse owner key => exact Operation.map_atomic (inspect_atomic _ _ _)

/-- What a request has done, answered or refused: one of the effects, or nothing. -/
theorem run_cases (s : Setting) (own : Dialect.Strategy) (r : Request) (c : Connection) :
    (∃ a, (r.run s own c).1 = .ok a ∧ Effect c.tables r a (r.run s own c).2.tables) ∨
      (∃ e, (r.run s own c).1 = .error e) ∧ (r.run s own c).2.tables = c.tables := by
  cases h : (r.run s own c).1 with
  | ok a => exact Or.inl ⟨a, rfl, run_effect ⟨h, rfl⟩⟩
  | error e => exact Or.inr ⟨⟨e, rfl⟩, run_atomic s own r c e h⟩

/-! ## The tables that there are -/

theorem Tables.present_congr {t t' : Tables} (hu : t'.users.isSome = t.users.isSome)
    (hd : t'.dashboards.isSome = t.dashboards.isSome) (ht : t'.tags.isSome = t.tags.isSome)
    (hr : t'.recents.isSome = t.recents.isSome) (hc : t'.children = t.children) :
    t'.present = t.present := by
  have hhas : t'.has = t.has := by
    funext table
    cases table with
    | users => exact hu
    | dashboards => exact hd
    | tags => exact ht
    | recents => exact hr
  unfold present
  rw [hhas, hc]

theorem UsePut.present {row : RecentRow} {t t' : Tables} (h : UsePut row t t') :
    t'.present = t.present := by
  cases h with
  | replaced hrows => exact Tables.present_congr rfl rfl rfl (by rw [hrows]; rfl) rfl
  | retimed hrows => exact Tables.present_congr rfl rfl rfl (by rw [hrows]; rfl) rfl
  | added hrows => exact Tables.present_congr rfl rfl rfl (by rw [hrows]; rfl) rfl

theorem UsesPut.present {owner : UserId} {moment : Time.Instant} {keys : List String}
    {us : List Unrecorded} {t t' : Tables} (h : UsesPut owner moment keys us t t') :
    t'.present = t.present := by
  induction h with
  | done t => rfl
  | put h _ ih => rw [ih, h.present]
  | skip _ ih => exact ih

/-- No request makes a table or drops one. -/
theorem Effect.present {t t' : Tables} {r : Request} {a : Reply} (h : Effect t r a t') :
    t'.present = t.present := by
  cases h with
  | question => rfl
  | createUser _ hrows => exact Tables.present_congr (by rw [hrows]; rfl) rfl rfl rfl rfl
  | removeUser hrows =>
    exact Tables.present_congr (by rw [hrows]; rfl) Option.isSome_map Option.isSome_map
      Option.isSome_map rfl
  | createDashboard _ hrows => exact Tables.present_congr rfl (by rw [hrows]; rfl) rfl rfl rfl
  | moved hrows => exact Tables.present_congr rfl (by rw [hrows]; rfl) rfl rfl rfl
  | unmoved => rfl
  | reindexDashboards hrows => exact Tables.present_congr rfl (by rw [hrows]; rfl) rfl rfl rfl
  | removeDashboard hrows => exact Tables.present_congr rfl (by rw [hrows]; rfl) rfl rfl rfl
  | createTag _ hrows => exact Tables.present_congr rfl rfl (by rw [hrows]; rfl) rfl rfl
  | removeTag hrows hrecents =>
    exact Tables.present_congr rfl rfl (by rw [hrows]; rfl) (by rw [hrecents]; rfl) rfl
  | recordUse h => exact h.present
  | recordUses h => exact h.present

/-! ## What a connection remembers -/

theorem recordUse_learns (s : Setting) (strategy : Dialect.Strategy) (owner : UserId)
    (key : String) (moment : Time.Instant) : (recordUse s strategy owner key moment).Learns s :=
  autocommit_learns s _ _ _

theorem recordUses_learns (s : Setting) (strategy : Dialect.Strategy) (owner : UserId)
    (moment : Time.Instant) (keys : List String) (c : Connection) :
    (recordUses s strategy owner moment keys c).2.known.faults = c.known.faults ∨
      (recordUses s strategy owner moment keys c).2.known.faults = s.faults := by
  induction keys generalizing c with
  | nil => exact Or.inl rfl
  | cons key keys ih =>
    have hone := recordUse_learns s strategy owner key moment c
    unfold recordUses
    generalize recordUse s strategy owner key moment c = first at hone ⊢
    obtain ⟨result, c1⟩ := first
    have hrest := ih c1
    dsimp only at hone ⊢
    generalize recordUses s strategy owner moment keys c1 = rest at hrest ⊢
    obtain ⟨us, c2⟩ := rest
    have hlast : c2.known.faults = c.known.faults ∨ c2.known.faults = s.faults := by
      rcases hrest with h | h
      · rw [h]
        exact hone
      · exact Or.inr h
    cases result <;> exact hlast

/-- A request teaches a connection no faults but those that there are. -/
theorem run_learns (s : Setting) (own : Dialect.Strategy) (r : Request) :
    (r.run s own).Learns s := by
  cases r with
  | createUser name =>
    refine Operation.map_learns ?_
    unfold createUser
    split
    · exact Operation.refused_learns s _
    · exact autocommit_learns s _ _ _
  | removeUser id => exact Operation.map_learns (Operation.judge_learns (autocommit_learns s _ _ _))
  | createDashboard draft =>
    refine Operation.map_learns ?_
    unfold createDashboard
    split
    · exact Operation.refused_learns s _
    · exact transactionIf_learns s _ _
  | moveDashboard owner id d => exact Operation.map_learns (transactionIf_learns s _ _)
  | reindexDashboards owner => exact Operation.map_learns (transactionIf_learns s _ _)
  | removeDashboard owner id => exact Operation.map_learns (transactionFrom_learns s _ _)
  | createTag tag =>
    refine Operation.map_learns ?_
    unfold createTag
    split
    · exact Operation.refused_learns s _
    · exact autocommit_learns s _ _ _
  | removeTag owner key => exact Operation.map_learns (transactionFrom_learns s _ _)
  | recordUse strategy owner key moment => exact Operation.map_learns (recordUse_learns s _ _ _ _)
  | recordUses strategy owner keys moment =>
    exact recordUses_learns s (strategy.getD own) owner moment keys
  | findUser id => exact Operation.map_learns (inspect_learns s _ _)
  | findDashboard owner id => exact Operation.map_learns (inspect_learns s _ _)
  | listDashboards owner => exact Operation.map_learns (inspect_learns s _ _)
  | findTag owner key => exact Operation.map_learns (inspect_learns s _ _)
  | listTags owner => exact Operation.map_learns (inspect_learns s _ _)
  | rankTags owner => exact Operation.map_learns (inspect_learns s _ _)
  | findUse owner key => exact Operation.map_learns (inspect_learns s _ _)

end Pinboard.Store
