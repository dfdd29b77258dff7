import Pinboard.Proofs.Ledger

/-!
# What comes of undisturbed operations

Where nothing disturbs an operation, what comes of it is told by the tables alone: neither what the
connection remembers nor how many rows were changed before has a part in it. This module writes out
the outcome of each operation, the answer together with the tables that are left, refusals
included. Proofs about undisturbed operations start from these equations.
-/

namespace Pinboard.Store

/-! ## Outcomes -/

/-- The answer of an operation, and the tables that it leaves. -/
def Operation.outcome {α : Type} (op : Operation α) (c : Connection) :
    Except Refusal α × Tables :=
  ((op c).1, (op c).2.tables)

/-- A connection to sound tables that remembers no fault. -/
structure Connection.Calm (c : Connection) : Prop where
  /-- The tables are sound. -/
  tables : c.tables.Sound
  /-- No fault is remembered. -/
  known : c.known.faults = []

/-- What comes of steps that nothing disturbs: their tables last if the answer is one that `lasts`,
and a refusal leaves the tables as they were. -/
def conclude {α : Type} (lasts : α → Bool) (t : Tables) :
    Except Refusal (α × Tables) → Except Refusal α × Tables
  | .ok (a, u) => (.ok a, if lasts a then u else t)
  | .error r => (.error r, t)

/-- The outcome with its answer changed. -/
def mapAnswer {α β : Type} (f : α → β) (p : Except Refusal α × Tables) :
    Except Refusal β × Tables :=
  (f <$> p.1, p.2)

theorem Operation.outcome_map {α β : Type} (f : α → β) (op : Operation α) (c : Connection) :
    (op.map f).outcome c = mapAnswer f (op.outcome c) := by
  unfold Operation.outcome Operation.map mapAnswer
  rcases op c with ⟨r | a, c'⟩ <;> rfl

theorem Operation.map_snd {α β : Type} (f : α → β) (op : Operation α) (c : Connection) :
    (op.map f c).2 = (op c).2 := by
  unfold Operation.map
  rcases op c with ⟨r | a, c'⟩ <;> rfl

theorem Operation.outcome_judge {α β : Type} (op : Operation α) (verdict : α → Except Refusal β)
    (c : Connection) :
    (op.judge verdict).outcome c = ((op.outcome c).1 >>= verdict, (op.outcome c).2) := by
  unfold Operation.outcome Operation.judge
  rcases op c with ⟨r | a, c'⟩ <;> rfl

section Run

variable {α : Type} {needs : Schema → Except StorageError Unit} {c : Connection}

/-- A statement that can be prepared leaves a connection to the same tables. -/
theorem Connection.Prepares.eq (h : c.Prepares .clear needs) :
    ∃ c', c.prepare .clear needs = (.ok (), c') ∧ c'.tables = c.tables ∧
      c'.changed = c.changed := by
  obtain ⟨htables, hchanged⟩ := c.prepare_keeps .clear needs
  unfold Connection.Prepares at h
  exact ⟨_, by rw [← h], htables, hchanged⟩

theorem runSteps_outcome (lasts : α → Bool) (steps : Steps α) (c : Connection) :
    (runSteps .clear lasts steps).outcome c =
      conclude lasts c.tables (steps c.tables c.changed).1 := by
  unfold Operation.outcome runSteps
  rcases steps c.tables c.changed with ⟨r | ⟨a, u⟩, n⟩
  · rfl
  · by_cases hl : lasts a = true
    · simp only [hl, if_true, conclude]
      rfl
    · simp only [hl, conclude]
      rfl

theorem transactionIf_outcome (lasts : α → Bool) (steps : Steps α) (c : Connection) :
    (transactionIf .clear lasts steps).outcome c =
      conclude lasts c.tables (steps c.tables c.changed).1 :=
  runSteps_outcome lasts steps c

theorem transactionFrom_outcome (h : c.Prepares .clear needs) (steps : Steps α) :
    (transactionFrom .clear needs steps).outcome c =
      conclude (fun _ => true) c.tables (steps c.tables c.changed).1 := by
  obtain ⟨c', hp, htables, hchanged⟩ := h.eq
  rw [← htables, ← hchanged, ← runSteps_outcome]
  unfold transactionFrom Operation.outcome
  have hpermit : Setting.clear.permitWriting = .ok () := rfl
  have hbegin : Setting.clear.beginTransaction = .ok () := rfl
  simp only [hp, hpermit, hbegin]

theorem autocommit_outcome (h : c.Prepares .clear needs)
    (hneeds : needs (c.tables.schema .clear) = .ok ()) (rowwise : Bool) (steps : Steps α) :
    (autocommit .clear rowwise needs steps).outcome c =
      conclude (fun _ => true) c.tables (steps c.tables c.changed).1 := by
  obtain ⟨c', hp, htables, hchanged⟩ := h.eq
  rw [← htables] at hneeds
  rw [← htables, ← hchanged, ← runSteps_outcome]
  unfold autocommit Operation.outcome
  have hpermit : Setting.clear.permitWriting = .ok () := rfl
  have hbegin : Setting.clear.beginWriting = .ok () := rfl
  simp only [hp, hpermit, hbegin, hneeds]
  rcases runSteps .clear (fun _ => true) steps c' with ⟨r | a, c''⟩
  · cases rowwise <;> rfl
  · rfl

theorem inspect_outcome (h : c.Prepares .clear needs)
    (hneeds : needs (c.tables.schema .clear) = .ok ())
    (question : Tables → Except Refusal α) :
    (inspect .clear needs question).outcome c = (question c.tables, c.tables) := by
  unfold Operation.outcome
  rw [inspect_answer h rfl hneeds, inspect_keeps]

end Run

/-! ## What calm connections can prepare -/

namespace Tables

/-- The dashboards that there are. -/
def boards (t : Tables) : List DashboardRow := t.dashboards.getD []

/-- The dashboards but for one of an owner. -/
def boardsWithout (t : Tables) (owner : UserId) (id : UInt32) : List DashboardRow :=
  t.boards.filter fun r => !(r.id == wide id && r.owner == wide owner)

/-- The tag definitions that there are. -/
def definitions (t : Tables) : List TagRow := t.tags.getD []

/-- The users that there are. -/
def people (t : Tables) : List UserRow := t.users.getD []

instance (t : Tables) (owner : Int) : Decidable (t.HasUser owner) :=
  inferInstanceAs (Decidable (∃ u ∈ t.people, u.id = owner))

theorem withoutBelongings_boards (t : Tables) (gone : Int → Bool) :
    (t.withoutBelongings gone).boards = t.boards.filter (!gone ·.owner) := by
  unfold boards withoutBelongings
  cases t.dashboards <;> rfl

theorem withoutBelongings_definitions (t : Tables) (gone : Int → Bool) :
    (t.withoutBelongings gone).definitions = t.definitions.filter (!gone ·.owner) := by
  unfold definitions withoutBelongings
  cases t.tags <;> rfl

theorem users_eq {t : Tables} (h : .users ∈ t.present) : t.users = some t.people := by
  obtain ⟨rows, hrows⟩ := Option.isSome_iff_exists.mp (has_of_mem_present h)
  rw [people, hrows]
  rfl

theorem Sound.people_eq {t : Tables} (h : t.Sound) : t.users = some t.people :=
  Tables.users_eq (h.mem_present .users)

theorem boards_eq {t : Tables} (h : .dashboards ∈ t.present) : t.dashboards = some t.boards := by
  obtain ⟨rows, hrows⟩ := Option.isSome_iff_exists.mp (has_of_mem_present h)
  rw [boards, hrows]
  rfl

theorem Sound.boards_eq {t : Tables} (h : t.Sound) : t.dashboards = some t.boards :=
  Tables.boards_eq (h.mem_present .dashboards)

theorem definitions_eq {t : Tables} (h : .tags ∈ t.present) : t.tags = some t.definitions := by
  obtain ⟨rows, hrows⟩ := Option.isSome_iff_exists.mp (has_of_mem_present h)
  rw [definitions, hrows]
  rfl

theorem Sound.definitions_eq {t : Tables} (h : t.Sound) : t.tags = some t.definitions :=
  Tables.definitions_eq (h.mem_present .tags)

/-- Where a table and that of the users are there, every statement on the table can be done. -/
theorem ready_of_mem {t : Tables} {table : Table} (htable : table ∈ t.present)
    (husers : .users ∈ t.present) (event : RowEvent) : t.ready .clear table event = .ok () := by
  unfold Tables.ready
  rw [requireFor_of_mem htable husers (List.forall_mem_nil _)]
  rfl

theorem Sound.ready {t : Tables} (h : t.Sound) (table : Table) (event : RowEvent) :
    t.ready .clear table event = .ok () :=
  ready_of_mem (h.mem_present table) (h.mem_present .users) event

end Tables

theorem requireRanking_doubtful {k : Schema} {e : StorageError}
    (h : requireRanking k = .error e) : e.isDoubtful = true := by
  rcases except_bind_eq_error.mp h with h | ⟨_, -, h⟩
  · exact requireTable_doubtful h
  · exact requireTable_doubtful h

theorem inspect_ranking {α : Type} {s : Setting} {c : Connection}
    {question : Tables → Except Refusal α} (hread : s.beginReading = .ok ())
    (htags : .tags ∈ c.tables.present) (hrecents : .recents ∈ c.tables.present) :
    (inspect s requireRanking question c).1 = question c.tables := by
  refine inspect_readable hread requireRanking_doubtful ?_
  unfold requireRanking
  rw [requireTable_of_mem htags, requireTable_of_mem hrecents]
  rfl

namespace Connection.Calm

variable {c : Connection}

theorem steady (hc : c.Calm) : c.Steady := .of_sound hc.known hc.tables

/-- A request that nothing disturbs leaves the connection calm. -/
theorem run (hc : c.Calm) (own : Dialect.Strategy) (r : Request) : (r.run .clear own c).2.Calm := by
  constructor
  · rcases run_cases .clear own r c with ⟨a, -, h⟩ | ⟨-, h⟩
    · exact h.sound hc.tables
    · rw [h]
      exact hc.tables
  · rcases run_learns .clear own r c with h | h
    · exact h.trans hc.known
    · exact h

/-- What sound tables without faults fulfil, a calm connection can prepare. -/
theorem prepares (hc : c.Calm) {needs : Schema → Except StorageError Unit} (hd : Doubtful needs)
    (hneeds : needs ⟨Tables.fresh.present, []⟩ = .ok ()) :
    c.Prepares .clear needs ∧ needs (c.tables.schema .clear) = .ok () := by
  have hthere : needs (c.tables.schema .clear) = .ok () := by
    rw [hc.tables.schema_clear]
    exact hneeds
  exact ⟨prepares_clear (hd _ · hc.known) hthere, hthere⟩

theorem inspect_outcome {α : Type} (hc : c.Calm) {needs : Schema → Except StorageError Unit}
    (hd : Doubtful needs) (hneeds : needs ⟨Tables.fresh.present, []⟩ = .ok ())
    (question : Tables → Except Refusal α) :
    (inspect .clear needs question).outcome c = (question c.tables, c.tables) := by
  obtain ⟨hp, hthere⟩ := hc.prepares hd hneeds
  exact Store.inspect_outcome hp hthere question

theorem autocommit_outcome {α : Type} (hc : c.Calm) {needs : Schema → Except StorageError Unit}
    (hd : Doubtful needs) (hneeds : needs ⟨Tables.fresh.present, []⟩ = .ok ()) (rowwise : Bool)
    (steps : Steps α) : (autocommit .clear rowwise needs steps).outcome c =
      conclude (fun _ => true) c.tables (steps c.tables c.changed).1 := by
  obtain ⟨hp, hthere⟩ := hc.prepares hd hneeds
  exact Store.autocommit_outcome hp hthere rowwise steps

theorem transactionFrom_outcome {α : Type} (hc : c.Calm)
    {needs : Schema → Except StorageError Unit} (hd : Doubtful needs)
    (hneeds : needs ⟨Tables.fresh.present, []⟩ = .ok ()) (steps : Steps α) :
    (transactionFrom .clear needs steps).outcome c =
      conclude (fun _ => true) c.tables (steps c.tables c.changed).1 :=
  Store.transactionFrom_outcome (hc.prepares hd hneeds).1 steps

end Connection.Calm

/-! ## Statements on sound tables -/

section Statements

variable {t : Tables}

/-- Where there is a table of dashboards, other rows in it leave the same tables. -/
theorem Tables.present_withBoards (h : .dashboards ∈ t.present) (rows : List DashboardRow)
    (n : Int) : ({ t with dashboards := some rows, lastDashboard := n } : Tables).present =
      t.present :=
  Tables.present_congr rfl (by rw [Tables.boards_eq h]; rfl) rfl rfl rfl

/-- Only the table of dashboards and its counter have changed. -/
theorem Tables.Sound.withBoards (h : t.Sound) (rows : List DashboardRow) (n : Int) :
    Tables.Sound { t with dashboards := some rows, lastDashboard := n } :=
  ⟨(Tables.present_withBoards (h.mem_present _) rows n).trans h.present, h.keyed.slots,
    h.keyed.owners⟩

/-- Only the table of tag definitions has changed. -/
theorem Tables.Sound.withDefinitions (h : t.Sound) (rows : List TagRow) :
    Tables.Sound { t with tags := some rows } := by
  refine ⟨?_, h.keyed.slots, h.keyed.owners⟩
  rw [← h.present]
  exact Tables.present_congr rfl rfl (by rw [h.definitions_eq]; rfl) rfl rfl

/-- Positions can be changed wherever there is a table of dashboards. -/
theorem setOrder_present (h : .dashboards ∈ t.present) (chosen : DashboardRow → Bool)
    (position : Int) : setOrder .clear chosen (some (.integer position)) t =
      .ok ((t.boards.filter chosen).length,
        { t with dashboards := some (placeAt chosen position t.boards) }) := by
  have hready : t.ready .clear .dashboards .update = .ok () := by
    have htable : requireTable (t.schema .clear) .dashboards = .ok () := requireTable_of_mem h
    have hsound : (t.schema .clear).sound .dashboards .update = .ok () := sound_of_no_faults rfl _ _
    unfold Tables.ready requireFor
    rw [htable, hsound]
    rfl
  exact setOrder_eq_ok.mpr ⟨hready, _, Tables.boards_eq h, fun _ _ _ => rfl, rfl, rfl⟩

theorem deleteDashboard_present (hboards : .dashboards ∈ t.present) (husers : .users ∈ t.present)
    (owner id : Int) :
    deleteDashboard .clear owner id t =
      .ok ((t.boards.filter fun r => r.id == id && r.owner == owner).length,
        { t with
          dashboards := some (t.boards.filter fun r => !(r.id == id && r.owner == owner)) }) :=
  deleteDashboard_eq_ok.mpr ⟨Tables.ready_of_mem hboards husers _, _, Tables.boards_eq hboards,
    fun _ _ _ _ => rfl, rfl, rfl⟩

theorem deleteTag_sound (h : t.Sound) (owner : Int) (key : Cell) :
    deleteTag .clear owner key t =
      .ok ((t.definitions.filter fun r => r.owner == owner && r.key == key).length,
        { t with
          tags := some (t.definitions.filter fun r => !(r.owner == owner && r.key == key)) }) :=
  deleteTag_eq_ok.mpr ⟨h.ready _ _, _, h.definitions_eq, fun _ _ _ _ => rfl, rfl, rfl⟩

theorem deleteRecent_sound (h : t.Sound) (owner : Int) (key : Cell) :
    deleteRecent .clear owner key t =
      .ok ((t.uses.filter (·.isFor owner key)).length,
        { t with recents := some (t.uses.filter (!·.isFor owner key)) }) :=
  deleteRecent_eq_ok.mpr ⟨h.ready _ _, _, h.recents_eq, fun _ _ _ => rfl, rfl, rfl⟩

theorem permit_clear (table : Table) (event : RowEvent) (row : Columns) :
    Setting.clear.permit table event row = .ok () := rfl

/-- Where every row can be written, it does not matter when the user is looked for. -/
theorem writeChild_clear (mayDoMore : Bool) (users : List UserRow) (owner : Cell) :
    Setting.clear.writeChild mayDoMore users owner = parentNumber users owner := by
  cases mayDoMore
  · exact bind_pure (parentNumber users owner)
  · rfl

theorem parentNumber_people (t : Tables) (owner : Int) :
    parentNumber t.people (.integer owner) =
      if t.HasUser owner then .ok owner else .error .noParentRow := by
  have hany : t.people.any (·.id == owner) = true ↔ t.HasUser owner := by
    simp [Tables.HasUser, Tables.people]
  unfold parentNumber refersTo
  dsimp only
  by_cases howner : t.HasUser owner
  · rw [if_pos (hany.mpr howner), if_pos howner]
  · rw [if_neg (mt hany.mp howner), if_neg howner]

/-- A user gets the next number if there is one and no user has the name. -/
theorem insertUser_sound (h : t.Sound) (name : String) {n : Int}
    (hn : nextNumber (t.people.map (·.id)) t.lastUser = .ok n) :
    insertUser .clear none (some (.text name)) t =
      if t.people.any (·.name == .text name) then .error (.notUnique .users ["name"])
      else .ok (n, { t with
        users := some (t.people ++ [⟨n, .text name⟩]), lastUser := max t.lastUser n }) := by
  have hid : (t.people.all fun r => decide (r.id ≠ n)) = true := by
    simpa using nextNumber_ne hn
  have hname : (t.people.all fun r => decide (r.name ≠ .text name)) =
      !t.people.any (·.name == .text name) := by
    rw [List.not_any_eq_all_not]
    refine congrArg (List.all _) (funext fun r => ?_)
    rw [decide_not]
    rfl
  simp only [insertUser, Statement.get_bind_apply, Statement.lift_bind_apply, h.ready,
    Tables.userRows_eq_ok.mpr h.people_eq, givenNumber, chooseNumber, presentIn, Option.map_some,
    Cell.asText, hn, hid, hname, demand, permit_clear, except_ok_bind, if_true]
  cases t.people.any (·.name == .text name) <;> rfl

/-- A dashboard gets the next number if there is one and its owner is there. -/
theorem insertDashboard_present (hboards : .dashboards ∈ t.present) (husers : .users ∈ t.present)
    (owner : Int) (name : String) (order : Int) {n : Int}
    (hn : nextNumber (t.boards.map (·.id)) t.lastDashboard = .ok n) :
    insertDashboard .clear none (some (.integer owner)) (some (.text name)) (some (.integer order))
        t =
      if t.HasUser owner then
        .ok (n, { t with
          dashboards := some (t.boards ++ [⟨n, owner, .text name, .integer order⟩])
          lastDashboard := max t.lastDashboard n })
      else .error .noParentRow := by
  have hid : (t.boards.all fun r => decide (r.id ≠ n)) = true := by
    simpa using nextNumber_ne hn
  simp only [insertDashboard, Statement.get_bind_apply, Statement.lift_bind_apply,
    Tables.ready_of_mem hboards husers, Tables.dashboardRows_eq_ok.mpr (Tables.boards_eq hboards),
    Tables.parentRows_eq_ok.mpr (Tables.users_eq husers),
    givenNumber, chooseNumber, presentIn, Option.map_some, Cell.asText, Cell.asInteger, hn, hid,
    demand, writeChild_clear, parentNumber_people, except_ok_bind, permit_clear, if_true]
  split <;> rfl

/-- A tag is put under a key of its owner that is not taken. -/
theorem insertTag_present (h : ∀ table, table ∈ t.present) (row : TagRow) :
    insertTag .clear row t =
      if t.definitions.any fun r => r.owner == row.owner && r.key == row.key then
        .error (.notUnique .tags ["user_id", "key"])
      else if t.HasUser row.owner then
        .ok ((), { t with tags := some (t.definitions ++ [row.numbered t.definitions]) })
      else .error .noParentRow := by
  have hall : (t.definitions.all fun r => !(r.owner == row.owner && r.key == row.key)) =
      !t.definitions.any fun r => r.owner == row.owner && r.key == row.key :=
    List.not_any_eq_all_not.symm
  have hready : t.ready .clear .tags .insert = .ok () :=
    Tables.ready_of_mem (h .tags) (h .users) .insert
  simp only [insertTag, Statement.get_bind_apply, Statement.lift_bind_apply, hready,
    Tables.tagRows_eq_ok.mpr (Tables.definitions_eq (h .tags)),
    Tables.parentRows_eq_ok.mpr (Tables.users_eq (h .users)), hall, demand, writeChild_clear,
    parentNumber_people, except_ok_bind, permit_clear]
  cases t.definitions.any fun r => r.owner == row.owner && r.key == row.key with
  | true => rfl
  | false =>
    by_cases howner : t.HasUser row.owner
    · simp only [howner, if_true]
      rfl
    · simp only [howner, if_false]
      rfl

/-- A use takes the place of the old one. -/
theorem replaceRecent_sound (h : t.Sound) (row : RecentRow) :
    replaceRecent .clear row t =
      if t.HasUser row.owner then
        .ok ((), { t with
          recents := some (t.uses.filter (!·.isFor row.owner row.key) ++ [row.numbered t.uses]) })
      else .error .noParentRow := by
  simp only [replaceRecent, Statement.get_bind_apply, Statement.lift_bind_apply, h.ready,
    Tables.recentRows_eq_ok.mpr h.recents_eq, Tables.parentRows_eq_ok.mpr h.people_eq,
    writeChild_clear, parentNumber_people, except_ok_bind, permit_clear]
  split <;> rfl

/-- The old use gets the new moment; where there is none, the use is added. -/
theorem mergeRecent_sound (h : t.Sound) (row : RecentRow) :
    mergeRecent .clear row t =
      if t.uses.any (·.isFor row.owner row.key) then
        .ok ((), { t with recents := some (retime row t.uses) })
      else if t.HasUser row.owner then
        .ok ((), { t with recents := some (t.uses ++ [row.numbered t.uses]) })
      else .error .noParentRow := by
  have hsound : (t.schema .clear).sound .recents .update = .ok () := sound_of_no_faults rfl _ _
  have hany : t.uses.any (·.isFor row.owner row.key) =
      (t.uses.find? (·.isFor row.owner row.key)).isSome := (List.isSome_find?).symm
  simp only [mergeRecent, Statement.get_bind_apply, Statement.lift_bind_apply, h.ready, hsound,
    Tables.recentRows_eq_ok.mpr h.recents_eq, Tables.parentRows_eq_ok.mpr h.people_eq,
    writeChild_clear, parentNumber_people, except_ok_bind, permit_clear, hany]
  cases t.uses.find? (·.isFor row.owner row.key) with
  | some old => rfl
  | none =>
    by_cases howner : t.HasUser row.owner
    · simp only [howner, if_true]
      rfl
    · simp only [howner, if_false]
      rfl

/-- A user goes with all that belongs to it, if it is there. -/
theorem deleteUser_sound (h : t.Sound) (id : Int) :
    deleteUser .clear id t =
      if t.HasUser id then
        .ok ((t.people.filter (·.id == id)).length,
          { t.withoutBelongings (· == id) with users := some (t.people.filter (!·.id == id)) })
      else .ok (0, t) := by
  have hneeds : requireRemoval (t.schema .clear) = .ok () := by
    rw [h.schema_clear]
    rfl
  have hcount : (t.people.filter (·.id == id)).length = 0 ↔ ¬ t.HasUser id := by
    simp [Tables.HasUser, Tables.people, List.filter_eq_nil_iff]
  by_cases huser : t.HasUser id
  · rw [if_pos huser]
    exact deleteUser_eq_ok.mpr ⟨hneeds, rfl, _, h.people_eq, fun _ _ _ => rfl, rfl,
      Or.inr ⟨fun h0 => hcount.mp h0 huser, fun _ _ _ _ => rfl, rfl⟩⟩
  · rw [if_neg huser]
    exact deleteUser_eq_ok.mpr ⟨hneeds, rfl, _, h.people_eq, fun _ _ _ => rfl,
      (hcount.mpr huser).symm, Or.inl ⟨rfl, rfl⟩⟩

end Statements

/-! ## Steps on sound tables -/

section Steps

variable {t : Tables}

theorem writePositions_present (h : .dashboards ∈ t.present) (owner : UserId) (ids : List UInt32)
    (i n : Nat) : (writePositions .clear owner i ids t n).1 =
      .ok ((), { t with dashboards := some (placed owner i ids t.boards) }) := by
  induction ids generalizing t i n with
  | nil =>
    rw [placed, ← Tables.boards_eq h]
    rfl
  | cons id ids ih =>
    have hnext := Tables.present_withBoards h
      (placeAt (fun r => r.id == wide id && r.owner == wide owner) (positionOf i) t.boards)
      t.lastDashboard
    rw [writePositions, Steps.bind_apply, Steps.changeMany, Steps.tryWith, setOrder_present h]
    exact ih (hnext ▸ h) (i + 1) _

theorem renumber_present (h : .dashboards ∈ t.present) (owner : UserId) (n : Nat) :
    (renumber .clear owner t n).1 =
      match t.orderedIds owner with
      | .ok ids => .ok ((), { t with dashboards := some (placed owner 0 ids t.boards) })
      | .error e => .error (.storage e) := by
  rw [renumber, Steps.bind_apply, Steps.ask]
  cases t.orderedIds owner with
  | error e => rfl
  | ok ids => exact writePositions_present h owner ids 0 n

end Steps

/-! ## Outcomes of operations -/

/-- A move needs the table of dashboards, and no other. -/
theorem moveDashboard_outcome {c : Connection} (h : .dashboards ∈ c.tables.present) (owner : UserId)
    (id : UInt32) (d : Direction) :
    (moveDashboard .clear owner id d).outcome c =
      match c.tables.orderedIds owner with
      | .error e => (.error (.storage e), c.tables)
      | .ok ids =>
        match (ids.findIdx? (· == id)).bind fun i => swapAdjacent? ids i d with
        | none => (.ok false, c.tables)
        | some swapped =>
          (.ok true,
            { c.tables with dashboards := some (placed owner 0 swapped c.tables.boards) }) := by
  rw [moveDashboard, transactionIf_outcome, Steps.bind_apply, Steps.ask]
  cases c.tables.orderedIds owner with
  | error e => rfl
  | ok ids =>
    dsimp only
    cases (ids.findIdx? (· == id)).bind fun i => swapAdjacent? ids i d with
    | none => rfl
    | some swapped =>
      dsimp only
      rw [Steps.bind_fst, writePositions_present h]
      rfl

/-- Making a dashboard needs its table and that of the users. -/
theorem createDashboard_outcome {c : Connection} (hboards : .dashboards ∈ c.tables.present)
    (husers : .users ∈ c.tables.present) (draft : Dashboard) {n : Int}
    (hn : nextNumber (c.tables.boards.map (·.id)) c.tables.lastDashboard = .ok n) :
    (createDashboard .clear draft).outcome c =
      if Text.allBlank draft.name then (.error .blankDashboardName, c.tables)
      else match c.tables.nextOrder draft.owner with
        | .error e => (.error (.storage e), c.tables)
        | .ok order =>
          if c.tables.HasUser (wide draft.owner) then
            (.ok { draft with id := cut32 n, order := order },
              { c.tables with
                dashboards := some (c.tables.boards ++
                  [⟨n, wide draft.owner, .text draft.name, .integer order.toInt⟩])
                lastDashboard := max c.tables.lastDashboard n })
          else (.error (.storage .noParentRow), c.tables) := by
  unfold createDashboard
  by_cases hb : Text.allBlank draft.name = true
  · rw [if_pos hb, if_pos hb]
    rfl
  · rw [if_neg hb, if_neg hb, transaction, transactionIf_outcome, Steps.bind_apply, Steps.ask]
    cases c.tables.nextOrder draft.owner with
    | error e => rfl
    | ok order =>
      dsimp only
      rw [Steps.bind_apply, Steps.change, Steps.tryWith,
        insertDashboard_present hboards husers _ _ _ hn]
      by_cases howner : c.tables.HasUser (wide draft.owner)
      · rw [if_pos howner, if_pos howner]
        rfl
      · rw [if_neg howner, if_neg howner]
        rfl

/-- Writing the positions anew needs the table of dashboards, and no other. -/
theorem reindexDashboards_outcome {c : Connection} (h : .dashboards ∈ c.tables.present)
    (owner : UserId) :
    (reindexDashboards .clear owner).outcome c =
      match c.tables.orderedIds owner with
      | .error e => (.error (.storage e), c.tables)
      | .ok ids =>
        (.ok (), { c.tables with dashboards := some (placed owner 0 ids c.tables.boards) }) := by
  rw [reindexDashboards, transaction, transactionIf_outcome, renumber_present h]
  cases c.tables.orderedIds owner <;> rfl

/-- Whatever else is remembered, a dashboard goes if it is there and the rest can be read. -/
theorem removeDashboard_outcome {c : Connection} (hboards : .dashboards ∈ c.tables.present)
    (husers : .users ∈ c.tables.present) (hknown : ∀ f ∈ c.known.faults, f.strayColumn? = none)
    (owner : UserId) (id : UInt32) :
    (removeDashboard .clear owner id).outcome c =
      let left := c.tables.boardsWithout owner id
      if c.tables.boards.any fun r => r.id == wide id && r.owner == wide owner then
        match Tables.orderedIds { c.tables with dashboards := some left } owner with
        | .error e => (.error (.storage e), c.tables)
        | .ok ids => (.ok (), { c.tables with dashboards := some (placed owner 0 ids left) })
      else (.error (.dashboardMissing id), c.tables) := by
  have hcount : (c.tables.boards.filter fun r => r.id == wide id && r.owner == wide owner).length =
      0 ↔ ¬ (c.tables.boards.any fun r => r.id == wide id && r.owner == wide owner) = true := by
    simp [List.filter_eq_nil_iff]
  have hprepares : c.Prepares .clear (requireFor · .dashboards .delete) :=
    prepares_clear (fun _ h => doubtful_of_requireFor hknown h)
      (requireFor_of_mem hboards husers (List.forall_mem_nil _) .delete)
  rw [removeDashboard, transactionFrom_outcome hprepares, Steps.bind_apply, Steps.changeMany,
    Steps.tryWith, deleteDashboard_present hboards husers]
  unfold Tables.boardsWithout
  dsimp only
  by_cases hany : (c.tables.boards.any fun r => r.id == wide id && r.owner == wide owner) = true
  · have hleft := Tables.present_withBoards hboards
      (c.tables.boards.filter fun r => !(r.id == wide id && r.owner == wide owner))
      c.tables.lastDashboard
    rw [if_neg fun h0 => hcount.mp h0 hany, if_pos hany, renumber_present (hleft ▸ hboards)]
    cases Tables.orderedIds _ owner <;> rfl
  · rw [if_pos (hcount.mpr hany), if_neg hany]
    rfl

/-- Whatever is remembered, a tag is made unless its key is blank, is taken, or has no owner. -/
theorem createTag_outcome {c : Connection} (hc : c.Steady) (tag : Tag) :
    (createTag .clear tag).outcome c =
      if Text.allBlank tag.key then (.error .blankTagKey, c.tables)
      else if c.tables.definitions.any fun r =>
          r.owner == wide tag.owner && r.key == .text tag.key then
        (.error (.tagExists tag.key), c.tables)
      else if c.tables.HasUser (wide tag.owner) then
        (.ok tag, { c.tables with tags := some (c.tables.definitions ++
          [(TagRow.ofTag tag).numbered c.tables.definitions]) })
      else (.error (.tagExists tag.key), c.tables) := by
  unfold createTag
  by_cases hb : Text.allBlank tag.key = true
  · rw [if_pos hb, if_pos hb]
    rfl
  · have hneeds : requireFor (c.tables.schema .clear) .tags .insert = .ok () :=
      requireFor_of_all hc.tables (List.forall_mem_nil _) .tags .insert
    have hprepares : c.Prepares .clear (requireFor · .tags .insert) :=
      prepares_clear (fun _ h => doubtful_of_requireFor hc.known h) hneeds
    rw [if_neg hb, if_neg hb, autocommit_outcome hprepares hneeds, Steps.bind_apply,
      Steps.tryWith, insertTag_present hc.tables]
    rw [show (TagRow.ofTag tag).owner = wide tag.owner from rfl,
      show (TagRow.ofTag tag).key = .text tag.key from rfl]
    by_cases hany : (c.tables.definitions.any fun r =>
        r.owner == wide tag.owner && r.key == .text tag.key) = true
    · rw [if_pos hany, if_pos hany]
      rfl
    · rw [if_neg hany, if_neg hany]
      by_cases howner : c.tables.HasUser (wide tag.owner)
      · rw [if_pos howner, if_pos howner]
        rfl
      · rw [if_neg howner, if_neg howner]
        rfl

namespace Connection.Calm

variable {c : Connection}

theorem createUser_outcome (hc : c.Calm) (name : String) {n : Int}
    (hn : nextNumber (c.tables.people.map (·.id)) c.tables.lastUser = .ok n) :
    (createUser .clear name).outcome c =
      if Text.allBlank name then (.error .blankUserName, c.tables)
      else if c.tables.people.any (·.name == .text name) then
        (.error (.userExists name), c.tables)
      else (.ok ⟨cut32 n, name⟩, { c.tables with
        users := some (c.tables.people ++ [⟨n, .text name⟩])
        lastUser := max c.tables.lastUser n }) := by
  unfold createUser
  by_cases hb : Text.allBlank name = true
  · rw [if_pos hb, if_pos hb]
    rfl
  · rw [if_neg hb, if_neg hb, hc.autocommit_outcome (requireFor_doubtful .users .insert) rfl,
      Steps.bind_apply, Steps.tryWith, insertUser_sound hc.tables _ hn]
    cases c.tables.people.any (·.name == .text name) <;> rfl

theorem removeTag_outcome (hc : c.Calm) (owner : UserId) (key : String) :
    (removeTag .clear owner key).outcome c =
      if c.tables.definitions.any fun r => r.owner == wide owner && r.key == .text key then
        (.ok (), { c.tables with
          tags := some (c.tables.definitions.filter fun r =>
            !(r.owner == wide owner && r.key == .text key))
          recents := some (c.tables.uses.filter (!·.isFor (wide owner) (.text key))) })
      else (.error (.tagMissing key), c.tables) := by
  have hcount : (c.tables.definitions.filter fun r =>
        r.owner == wide owner && r.key == .text key).length = 0 ↔
      ¬ (c.tables.definitions.any fun r => r.owner == wide owner && r.key == .text key) = true := by
    simp [List.filter_eq_nil_iff]
  rw [removeTag, hc.transactionFrom_outcome (requireFor_doubtful .tags .delete) rfl,
    Steps.bind_apply, Steps.changeMany, Steps.tryWith, deleteTag_sound hc.tables]
  dsimp only
  by_cases hany : (c.tables.definitions.any fun r =>
      r.owner == wide owner && r.key == .text key) = true
  · rw [if_neg fun h0 => hcount.mp h0 hany, if_pos hany, Steps.bind_apply, Steps.changeMany,
      Steps.tryWith, deleteRecent_sound (hc.tables.withDefinitions _)]
    rfl
  · rw [if_pos (hcount.mpr hany), if_neg hany]
    rfl

theorem removeUser_outcome (hc : c.Calm) (id : UserId) :
    (removeUser .clear id).outcome c =
      if c.tables.HasUser (wide id) then
        (.ok (), { c.tables.withoutBelongings (· == wide id) with
          users := some (c.tables.people.filter (!·.id == wide id)) })
      else (.error (.userMissing id), c.tables) := by
  rw [removeUser, Operation.outcome_judge, hc.autocommit_outcome requireRemoval_doubtful rfl,
    Steps.changeMany, Steps.tryWith, deleteUser_sound hc.tables]
  by_cases huser : c.tables.HasUser (wide id)
  · have hcount : (c.tables.people.filter (·.id == wide id)).length ≠ 0 := by
      simpa [Tables.HasUser, Tables.people, List.filter_eq_nil_iff] using huser
    rw [if_pos huser, if_pos huser]
    dsimp only [conclude, except_ok_bind]
    rw [if_neg hcount]
    rfl
  · rw [if_neg huser, if_neg huser]
    rfl

theorem recordUse_outcome (hc : c.Calm) (strategy : Dialect.Strategy) (owner : UserId)
    (key : String) (moment : Time.Instant) :
    (recordUse .clear strategy owner key moment).outcome c =
      match putRecent .clear strategy (.ofUse owner key moment) c.tables with
      | .ok (u, t) => (.ok u, t)
      | .error e => (.error (.storage e), c.tables) := by
  unfold recordUse
  cases strategy with
  | duplicateKey => rfl
  | replace =>
    rw [hc.autocommit_outcome (requireRecent_doubtful (by decide)) rfl, Steps.change,
      Steps.tryWith]
    rcases putRecent .clear .replace (.ofUse owner key moment) c.tables with e | ⟨u, t⟩ <;> rfl
  | conflictTarget =>
    rw [hc.autocommit_outcome (requireRecent_doubtful (by decide)) rfl, Steps.change,
      Steps.tryWith]
    rcases putRecent .clear .conflictTarget (.ofUse owner key moment) c.tables with e | ⟨u, t⟩ <;>
      rfl

end Connection.Calm

end Pinboard.Store
