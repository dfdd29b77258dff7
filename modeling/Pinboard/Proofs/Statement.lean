import Pinboard.Store.Statement

/-!
# When statements succeed

Each statement of the store succeeds exactly when the table is ready, rows can be written without a
fault that strikes, and the rows obey the rules of the table; this module says so once for every
statement, together with the tables that it leaves. Later proofs open statements through these
equivalences only.
-/

namespace Pinboard.Store

/-! ## Steps of a statement -/

theorem except_ok_bind {ε α β : Type} (a : α) (f : α → Except ε β) : (.ok a >>= f) = f a := rfl

theorem except_bind_eq_ok {ε α β : Type} {x : Except ε α} {f : α → Except ε β} {b : β} :
    (x >>= f) = .ok b ↔ ∃ a, x = .ok a ∧ f a = .ok b := by
  cases x with
  | error e => simp [bind, Except.bind]
  | ok a => simp [bind, Except.bind]

theorem except_bind_eq_error {ε α β : Type} {x : Except ε α} {f : α → Except ε β} {e : ε} :
    (x >>= f) = .error e ↔ x = .error e ∨ ∃ a, x = .ok a ∧ f a = .error e := by
  cases x with
  | error e' => simp [bind, Except.bind]
  | ok a => simp [bind, Except.bind]

theorem forM_eq_ok {ε α : Type} {xs : List α} {f : α → Except ε Unit} {u : Unit} :
    xs.forM f = .ok u ↔ ∀ x ∈ xs, f x = .ok () := by
  induction xs with
  | nil => simp [List.forM, pure, Except.pure]
  | cons x xs ih =>
    show (f x >>= fun _ => xs.forM f) = _ ↔ _
    simp only [except_bind_eq_ok, ih, List.forall_mem_cons]
    exact ⟨fun ⟨⟨⟩, h1, h2⟩ => ⟨h1, h2⟩, fun ⟨h1, h2⟩ => ⟨(), h1, h2⟩⟩

namespace Statement

theorem bind_apply {α β : Type} (x : Statement α) (f : α → Statement β) (t : Tables) :
    (x >>= f) t = x t >>= fun p => f p.1 p.2 := rfl

theorem bind_eq_ok {α β : Type} {x : Statement α} {f : α → Statement β} {t t' : Tables} {b : β} :
    (x >>= f) t = .ok (b, t') ↔ ∃ a u, x t = .ok (a, u) ∧ f a u = .ok (b, t') := by
  rw [bind_apply, except_bind_eq_ok]
  constructor
  · rintro ⟨⟨a, u⟩, h1, h2⟩
    exact ⟨a, u, h1, h2⟩
  · rintro ⟨a, u, h1, h2⟩
    exact ⟨(a, u), h1, h2⟩

theorem get_bind_apply {β : Type} (f : Tables → Statement β) (t : Tables) :
    ((get : Statement Tables) >>= f) t = f t t := rfl

theorem lift_bind_apply {α β : Type} (x : Except StorageError α) (f : α → Statement β)
    (t : Tables) : ((liftM x : Statement α) >>= f) t = x >>= fun a => f a t := by
  cases x <;> rfl

theorem lift_bind_eq_ok {α β : Type} {x : Except StorageError α} {f : α → Statement β}
    {t t' : Tables} {b : β} :
    ((liftM x : Statement α) >>= f) t = .ok (b, t') ↔ ∃ a, x = .ok a ∧ f a t = .ok (b, t') := by
  cases x with
  | error e =>
    constructor
    · intro h
      cases h
    · rintro ⟨a, h, -⟩
      cases h
  | ok a =>
    constructor
    · intro h
      exact ⟨a, rfl, h⟩
    · rintro ⟨a', ha, h⟩
      cases ha
      exact h

theorem put_bind_apply {β : Type} (u : Tables) (f : Unit → Statement β) (t : Tables) :
    (Statement.put u >>= f) t = f () u := rfl

theorem put_eq_ok {t t' u : Tables} {a : Unit} : Statement.put u t = .ok (a, t') ↔ t' = u := by
  simp [Statement.put, eq_comm]

theorem pure_eq_ok {α : Type} {t t' : Tables} {a b : α} :
    (pure a : Statement α) t = .ok (b, t') ↔ b = a ∧ t' = t := by
  show Except.ok (a, t) = _ ↔ _
  simp [eq_comm]

end Statement

/-! ## Tables, demands and numbers -/

namespace Tables

theorem userRows_eq_ok {t : Tables} {rows : List UserRow} :
    t.userRows = .ok rows ↔ t.users = some rows := by
  cases h : t.users <;> simp [userRows, h]

theorem parentRows_eq_ok {t : Tables} {rows : List UserRow} :
    t.parentRows = .ok rows ↔ t.users = some rows := by
  cases h : t.users <;> simp [parentRows, h]

theorem dashboardRows_eq_ok {t : Tables} {rows : List DashboardRow} :
    t.dashboardRows = .ok rows ↔ t.dashboards = some rows := by
  cases h : t.dashboards <;> simp [dashboardRows, h]

theorem tagRows_eq_ok {t : Tables} {rows : List TagRow} :
    t.tagRows = .ok rows ↔ t.tags = some rows := by
  cases h : t.tags <;> simp [tagRows, h]

theorem recentRows_eq_ok {t : Tables} {rows : List RecentRow} :
    t.recentRows = .ok rows ↔ t.recents = some rows := by
  cases h : t.recents <;> simp [recentRows, h]

end Tables

theorem demand_eq_ok {holds : Bool} {e : StorageError} {u : Unit} :
    demand holds e = .ok u ↔ holds = true := by
  cases holds <;> simp [demand]

theorem parentNumber_integer_eq_ok {users : List UserRow} {owner n : Int} :
    parentNumber users (.integer owner) = .ok n ↔ n = owner ∧ ∃ u ∈ users, u.id = owner := by
  have hany : users.any (·.id == owner) = true ↔ ∃ u ∈ users, u.id = owner := by simp
  by_cases h : users.any (·.id == owner) = true
  · simp only [parentNumber, refersTo, h, if_true, Except.ok.injEq, ← hany, and_true]
    exact eq_comm
  · simp only [parentNumber, refersTo, h, ← hany]
    simp

theorem le_foldl_max (taken : List Int) (last : Int) :
    last ≤ taken.foldl max last ∧ ∀ m ∈ taken, m ≤ taken.foldl max last := by
  induction taken generalizing last with
  | nil => simp
  | cons a as ih =>
    obtain ⟨h1, h2⟩ := ih (max last a)
    refine ⟨by simp only [List.foldl_cons]; omega, fun m hm => ?_⟩
    rcases List.mem_cons.mp hm with rfl | hm
    · simp only [List.foldl_cons]
      omega
    · exact h2 m hm

/-- The next number is larger than every number in use or used before. -/
theorem nextNumber_spec {taken : List Int} {last n : Int} (h : nextNumber taken last = .ok n) :
    (∀ m ∈ taken, m < n) ∧ last < n ∧ 0 < n ∧ n ≤ greatestInteger := by
  unfold nextNumber at h
  obtain ⟨h1, h2⟩ := le_foldl_max taken (max last 0)
  generalize taken.foldl max (max last 0) = top at h h1 h2
  by_cases hlt : top < greatestInteger
  · have hn : top + 1 = n := by simpa [hlt] using h
    refine ⟨fun m hm => ?_, by omega, by omega, by omega⟩
    have := h2 m hm
    omega
  · simp [hlt] at h

/-- The next number is that of no row. -/
theorem nextNumber_ne {ρ : Type} {number : ρ → Int} {rows : List ρ} {last n : Int}
    (h : nextNumber (rows.map number) last = .ok n) : ∀ r ∈ rows, number r ≠ n := by
  intro r hr he
  have := (nextNumber_spec h).1 (number r) (List.mem_map_of_mem hr)
  omega

/-- A row that differs from all others in what is unique comes beside them. -/
theorem nodup_map_append {ρ α : Type} {f : ρ → α} {rows : List ρ} {row : ρ}
    (h : (rows.map f).Nodup) (hnew : ∀ r ∈ rows, f r ≠ f row) :
    ((rows ++ [row]).map f).Nodup := by
  rw [List.map_append, List.nodup_append]
  refine ⟨h, List.pairwise_singleton _ _, ?_⟩
  intro a ha b hb
  obtain ⟨r, hr, rfl⟩ := List.mem_map.mp ha
  rw [List.map_singleton, List.mem_singleton] at hb
  rw [hb]
  exact hnew r hr

/-! ## Writing rows -/

theorem Setting.write_eq_ok {s : Setting} {table : Table} {event : RowEvent} {row : Columns}
    {u : Unit} : s.write table event row = .ok u ↔
      s.permit table event row = .ok () ∧ s.setAside = .ok () := by
  unfold Setting.write
  rw [except_bind_eq_ok]
  exact ⟨fun ⟨⟨⟩, h⟩ => h, fun h => ⟨(), h⟩⟩

/-- When the user is looked for makes no difference to what succeeds. -/
theorem Setting.writeChild_eq_ok {s : Setting} {mayDoMore : Bool} {users : List UserRow}
    {owner n : Int} : s.writeChild mayDoMore users (.integer owner) = .ok n ↔
      s.setAside = .ok () ∧ n = owner ∧ ∃ u ∈ users, u.id = owner := by
  rw [← parentNumber_integer_eq_ok]
  unfold Setting.writeChild
  cases mayDoMore with
  | true =>
    rw [if_pos rfl, except_bind_eq_ok]
    exact ⟨fun ⟨⟨⟩, h⟩ => h, fun h => ⟨(), h⟩⟩
  | false =>
    rw [if_neg Bool.false_ne_true, except_bind_eq_ok]
    constructor
    · rintro ⟨m, hm, h⟩
      obtain ⟨⟨⟩, haside, hn⟩ := except_bind_eq_ok.mp h
      cases hn
      exact ⟨haside, hm⟩
    · rintro ⟨haside, hm⟩
      exact ⟨n, hm, except_bind_eq_ok.mpr ⟨(), haside, rfl⟩⟩

/-! ## Inserting -/

/-- Inserting a user by name succeeds exactly with the next number and a name that is not taken. -/
theorem insertUser_eq_ok {s : Setting} {name : String} {t t' : Tables} {n : Int} :
    insertUser s none (some (.text name)) t = .ok (n, t') ↔
      t.ready s .users .insert = .ok () ∧
      s.write .users .insert
        (Table.users.row unnumbered [some (.integer unnumbered), some (.text name)]) = .ok () ∧
      ∃ rows, t.users = some rows ∧ nextNumber (rows.map (·.id)) t.lastUser = .ok n ∧
        (∀ r ∈ rows, r.name ≠ .text name) ∧
        t' = { t with
          users := some (rows ++ [⟨n, .text name⟩])
          lastUser := max t.lastUser n } := by
  simp only [insertUser, Statement.get_bind_apply, Statement.lift_bind_eq_ok,
    Statement.put_bind_apply, Statement.pure_eq_ok, Tables.userRows_eq_ok, demand_eq_ok,
    givenNumber, chooseNumber, presentIn, Option.map_some, Cell.asText,
    Except.ok.injEq, List.all_eq_true, decide_eq_true_eq, Setting.write_eq_ok]
  constructor
  · rintro ⟨⟨⟩, hr, rows, hrows, _, rfl, ⟨⟩, hp, number, hn, _, rfl, -, -, -, hname, ⟨⟩, haside,
      rfl, rfl⟩
    exact ⟨hr, ⟨hp, haside⟩, rows, hrows, hn, hname, rfl⟩
  · rintro ⟨hr, ⟨hp, haside⟩, rows, hrows, hn, hname, rfl⟩
    have hid : ∀ r ∈ rows, r.id ≠ n := nextNumber_ne hn
    exact ⟨(), hr, rows, hrows, none, rfl, (), hp, n, hn, _, rfl, (), hid, (), hname, (), haside,
      rfl, rfl⟩

/-- Inserting a dashboard succeeds exactly with the next number and an owner that is there. -/
theorem insertDashboard_eq_ok {s : Setting} {owner order : Int} {name : String} {t t' : Tables}
    {n : Int} :
    insertDashboard s none (some (.integer owner)) (some (.text name)) (some (.integer order)) t =
        .ok (n, t') ↔
      t.ready s .dashboards .insert = .ok () ∧
      s.write .dashboards .insert (Table.dashboards.row unnumbered [some (.integer unnumbered),
        some (.integer owner), some (.text name), some (.integer order)]) = .ok () ∧
      ∃ rows users, t.dashboards = some rows ∧ t.users = some users ∧
        nextNumber (rows.map (·.id)) t.lastDashboard = .ok n ∧ (∃ u ∈ users, u.id = owner) ∧
        t' = { t with
          dashboards := some (rows ++ [⟨n, owner, .text name, .integer order⟩])
          lastDashboard := max t.lastDashboard n } := by
  simp only [insertDashboard, Statement.get_bind_apply, Statement.lift_bind_eq_ok,
    Statement.put_bind_apply, Statement.pure_eq_ok, Tables.dashboardRows_eq_ok,
    Tables.parentRows_eq_ok, demand_eq_ok, givenNumber, chooseNumber,
    presentIn, Option.map_some, Cell.asText, Cell.asInteger, Except.ok.injEq,
    List.all_eq_true, decide_eq_true_eq, Setting.write_eq_ok]
  constructor
  · rintro ⟨⟨⟩, hr, rows, hrows, users, husers, _, rfl, ⟨⟩, hp, number, hn, _, rfl, _, rfl, _, rfl,
      -, -, o, ho, rfl, rfl⟩
    obtain ⟨haside, rfl, howner⟩ := Setting.writeChild_eq_ok.mp ho
    exact ⟨hr, ⟨hp, haside⟩, rows, users, hrows, husers, hn, howner, rfl⟩
  · rintro ⟨hr, ⟨hp, haside⟩, rows, users, hrows, husers, hn, howner, rfl⟩
    have hid : ∀ r ∈ rows, r.id ≠ n := nextNumber_ne hn
    exact ⟨(), hr, rows, hrows, users, husers, none, rfl, (), hp, n, hn, _, rfl, _, rfl, _, rfl,
      (), hid, owner, Setting.writeChild_eq_ok.mpr ⟨haside, rfl, howner⟩, rfl, rfl⟩

/-- A tag definition with the number that it gets beside other rows. -/
def TagRow.numbered (row : TagRow) (rows : List TagRow) : TagRow :=
  { row with number := freshNumber (rows.map (·.number)) }

/-- A use with the number that it gets beside other rows. -/
def RecentRow.numbered (row : RecentRow) (rows : List RecentRow) : RecentRow :=
  { row with number := freshNumber (rows.map (·.number)) }

/-- Inserting a tag definition succeeds exactly with an owner that is there and a key that is not
taken. -/
theorem insertTag_eq_ok {s : Setting} {row : TagRow} {t t' : Tables} {u : Unit} :
    insertTag s row t = .ok (u, t') ↔
      t.ready s .tags .insert = .ok () ∧
      s.write .tags .insert { row with number := unnumbered }.columns = .ok () ∧
      ∃ rows users, t.tags = some rows ∧ t.users = some users ∧
        (∀ r ∈ rows, ¬ (r.owner = row.owner ∧ r.key = row.key)) ∧
        (∃ u ∈ users, u.id = row.owner) ∧
        t' = { t with tags := some (rows ++ [row.numbered rows]) } := by
  simp only [insertTag, Statement.get_bind_apply, Statement.lift_bind_eq_ok,
    Statement.put_eq_ok, Tables.tagRows_eq_ok, Tables.parentRows_eq_ok, demand_eq_ok,
    List.all_eq_true, Bool.not_eq_true', Bool.and_eq_false_iff, beq_eq_false_iff_ne,
    Setting.write_eq_ok, Setting.writeChild_eq_ok]
  constructor
  · rintro ⟨⟨⟩, hr, rows, hrows, users, husers, ⟨⟩, hp, -, hkey, o, ⟨haside, rfl, howner⟩, rfl⟩
    refine ⟨hr, ⟨hp, haside⟩, rows, users, hrows, husers, fun r hm => ?_, howner, rfl⟩
    rw [Classical.not_and_iff_not_or_not]
    exact hkey r hm
  · rintro ⟨hr, ⟨hp, haside⟩, rows, users, hrows, husers, hkey, howner, rfl⟩
    refine ⟨(), hr, rows, hrows, users, husers, (), hp, (), fun r hm => ?_, row.owner,
      ⟨haside, rfl, howner⟩, rfl⟩
    rw [← Classical.not_and_iff_not_or_not]
    exact hkey r hm

theorem RecentRow.isFor_iff {r : RecentRow} {owner : Int} {key : Cell} :
    r.isFor owner key = true ↔ r.owner = owner ∧ r.key = key := by
  simp [isFor]

/-- A use that takes the place of the old one succeeds exactly with an owner that is there. -/
theorem replaceRecent_eq_ok {s : Setting} {row : RecentRow} {t t' : Tables} {u : Unit} :
    replaceRecent s row t = .ok (u, t') ↔
      t.ready s .recents .insert = .ok () ∧
      s.write .recents .insert { row with number := unnumbered }.columns = .ok () ∧
      ∃ rows users, t.recents = some rows ∧ t.users = some users ∧
        (∃ u ∈ users, u.id = row.owner) ∧
        t' = { t with
          recents := some (rows.filter (!·.isFor row.owner row.key) ++ [row.numbered rows]) } := by
  simp only [replaceRecent, Statement.get_bind_apply, Statement.lift_bind_eq_ok,
    Statement.put_eq_ok, Tables.recentRows_eq_ok, Tables.parentRows_eq_ok,
    Setting.write_eq_ok, Setting.writeChild_eq_ok]
  constructor
  · rintro ⟨⟨⟩, hr, rows, hrows, users, husers, ⟨⟩, hp, o, ⟨haside, rfl, howner⟩, rfl⟩
    exact ⟨hr, ⟨hp, haside⟩, rows, users, hrows, husers, howner, rfl⟩
  · rintro ⟨hr, ⟨hp, haside⟩, rows, users, hrows, husers, howner, rfl⟩
    exact ⟨(), hr, rows, hrows, users, husers, (), hp, row.owner, ⟨haside, rfl, howner⟩, rfl⟩

/-- The rows with the moment of a use written over the one that has its key. -/
def retime (row : RecentRow) (rows : List RecentRow) : List RecentRow :=
  rows.map fun r => if r.isFor row.owner row.key then { r with lastUsed := row.lastUsed } else r

/-- A use that is merged into the old one succeeds exactly where there is an old one that may be
changed, or an owner for a new one. -/
theorem mergeRecent_eq_ok {s : Setting} {row : RecentRow} {t t' : Tables} {u : Unit} :
    mergeRecent s row t = .ok (u, t') ↔
      t.ready s .recents .insert = .ok () ∧ (t.schema s).sound .recents .update = .ok () ∧
      s.write .recents .insert { row with number := unnumbered }.columns = .ok () ∧
      ∃ rows users, t.recents = some rows ∧ t.users = some users ∧
        ((∃ old, rows.find? (·.isFor row.owner row.key) = some old ∧
            s.write .recents .update { row with number := old.number }.columns = .ok () ∧
            t' = { t with recents := some (retime row rows) }) ∨
          (rows.find? (·.isFor row.owner row.key) = none ∧ (∃ u ∈ users, u.id = row.owner) ∧
            t' = { t with recents := some (rows ++ [row.numbered rows]) })) := by
  simp only [mergeRecent, Statement.get_bind_apply, Statement.lift_bind_eq_ok,
    Tables.recentRows_eq_ok, Tables.parentRows_eq_ok]
  constructor
  · rintro ⟨⟨⟩, hr, ⟨⟩, hs, rows, hrows, users, husers, ⟨⟩, hp, h⟩
    cases hf : rows.find? (·.isFor row.owner row.key) with
    | some old =>
      simp only [hf, Statement.lift_bind_eq_ok, Statement.put_eq_ok] at h
      obtain ⟨⟨⟩, hu, rfl⟩ := h
      exact ⟨hr, hs, Setting.write_eq_ok.mpr ⟨hp, (Setting.write_eq_ok.mp hu).2⟩, rows, users,
        hrows, husers, Or.inl ⟨old, hf, hu, rfl⟩⟩
    | none =>
      simp only [hf, Statement.lift_bind_eq_ok, Statement.put_eq_ok, Setting.writeChild_eq_ok] at h
      obtain ⟨o, ⟨haside, rfl, howner⟩, rfl⟩ := h
      exact ⟨hr, hs, Setting.write_eq_ok.mpr ⟨hp, haside⟩, rows, users, hrows, husers,
        Or.inr ⟨hf, howner, rfl⟩⟩
  · rintro ⟨hr, hs, hw, rows, users, hrows, husers, h⟩
    obtain ⟨hp, haside⟩ := Setting.write_eq_ok.mp hw
    refine ⟨(), hr, (), hs, rows, hrows, users, husers, (), hp, ?_⟩
    rcases h with ⟨old, hf, hu, rfl⟩ | ⟨hf, howner, rfl⟩
    · simp only [hf, Statement.lift_bind_eq_ok, Statement.put_eq_ok]
      exact ⟨(), hu, rfl⟩
    · simp only [hf, Statement.lift_bind_eq_ok, Statement.put_eq_ok, Setting.writeChild_eq_ok]
      exact ⟨row.owner, ⟨haside, rfl, howner⟩, rfl⟩

/-! ## Removing -/

/-- Rows may go exactly if each of them may. -/
theorem writeDeletes_eq_ok {s : Setting} {table : Table} {rows : List Columns} {u : Unit} :
    s.writeDeletes table rows = .ok u ↔ ∀ row ∈ rows, s.write table .delete row = .ok () := by
  induction rows with
  | nil => simp [Setting.writeDeletes]
  | cons row rows ih =>
    simp only [Setting.writeDeletes, except_bind_eq_ok, ih, List.forall_mem_cons]
    exact ⟨fun ⟨⟨⟩, h1, h2⟩ => ⟨h1, h2⟩, fun ⟨h1, h2⟩ => ⟨(), h1, h2⟩⟩

theorem removal_eq_ok {ρ : Type} {s : Setting} {table : Table} {columns : ρ → Columns}
    {goes : ρ → Bool} {rows left : List ρ} {count : Nat} :
    removal s table columns goes rows = .ok (count, left) ↔
      (∀ r ∈ rows, goes r = true → s.write table .delete (columns r) = .ok ()) ∧
      count = (rows.filter goes).length ∧ left = rows.filter (!goes ·) := by
  simp only [removal, except_bind_eq_ok, writeDeletes_eq_ok, List.forall_mem_map,
    List.mem_filter, and_imp, pure, Except.pure, Except.ok.injEq, Prod.mk.injEq]
  constructor
  · rintro ⟨⟨⟩, hp, rfl, rfl⟩
    exact ⟨hp, rfl, rfl⟩
  · rintro ⟨hp, rfl, rfl⟩
    exact ⟨(), hp, rfl, rfl⟩

/-- A cascade may go on exactly if every row that it reaches may go. -/
theorem writeCascade_eq_ok {t : Tables} {s : Setting} {user : Int} {u : Unit} :
    t.writeCascade s [user] = .ok u ↔
      ∀ table ∈ t.children, ∀ row ∈ t.belongings user table,
        s.write table .delete row = .ok () := by
  simp only [Tables.writeCascade, forM_eq_ok, List.mem_singleton, forall_eq, writeDeletes_eq_ok]

/-- Removing a user succeeds exactly if nothing that goes with it is held; where there is no such
user, nothing changes. -/
theorem deleteUser_eq_ok {s : Setting} {id : Int} {t t' : Tables} {count : Nat} :
    deleteUser s id t = .ok (count, t') ↔
      requireRemoval (t.schema s) = .ok () ∧ s.permitWriting = .ok () ∧
      ∃ rows, t.users = some rows ∧
        (∀ r ∈ rows, r.id = id → s.write .users .delete r.columns = .ok ()) ∧
        count = (rows.filter (·.id == id)).length ∧
        ((count = 0 ∧ t' = t) ∨
          (count ≠ 0 ∧
            (∀ table ∈ t.children, ∀ row ∈ t.belongings id table,
              s.write table .delete row = .ok ()) ∧
            t' = { t.withoutBelongings (· == id) with
              users := some (rows.filter (!·.id == id)) })) := by
  simp only [deleteUser, Statement.get_bind_apply, Statement.lift_bind_eq_ok,
    Tables.userRows_eq_ok]
  constructor
  · rintro ⟨⟨⟩, hr, ⟨⟩, hw, rows, hrows, ⟨count', left⟩, hrem, h⟩
    obtain ⟨hp, rfl, rfl⟩ := removal_eq_ok.mp hrem
    refine ⟨hr, hw, rows, hrows, by simpa using hp, ?_⟩
    by_cases hc : (rows.filter (·.id == id)).length = 0
    · simp only [hc, if_true, Statement.pure_eq_ok] at h
      exact ⟨by rw [h.1, hc], Or.inl h⟩
    · simp only [hc, if_false, Statement.lift_bind_eq_ok, Statement.put_bind_apply,
        Statement.pure_eq_ok, writeCascade_eq_ok] at h
      obtain ⟨⟨⟩, hcasc, rfl, rfl⟩ := h
      exact ⟨rfl, Or.inr ⟨hc, hcasc, rfl⟩⟩
  · rintro ⟨hr, hw, rows, hrows, hp, rfl, h⟩
    refine ⟨(), hr, (), hw, rows, hrows, (_, _),
      removal_eq_ok.mpr ⟨by simpa using hp, rfl, rfl⟩, ?_⟩
    rcases h with ⟨hc, rfl⟩ | ⟨hc, hcasc, rfl⟩
    · simp only [hc, if_true, Statement.pure_eq_ok, and_self]
    · simp only [hc, if_false, Statement.lift_bind_eq_ok, Statement.put_bind_apply,
        Statement.pure_eq_ok, writeCascade_eq_ok]
      exact ⟨(), hcasc, trivial, trivial⟩

/-- Removing a dashboard succeeds exactly if no fault strikes; all rows that match go. -/
theorem deleteDashboard_eq_ok {s : Setting} {owner id : Int} {t t' : Tables} {count : Nat} :
    deleteDashboard s owner id t = .ok (count, t') ↔
      t.ready s .dashboards .delete = .ok () ∧
      ∃ rows, t.dashboards = some rows ∧
        (∀ r ∈ rows, r.id = id → r.owner = owner →
          s.write .dashboards .delete r.columns = .ok ()) ∧
        count = (rows.filter fun r => r.id == id && r.owner == owner).length ∧
        t' = { t with
          dashboards := some (rows.filter fun r => !(r.id == id && r.owner == owner)) } := by
  simp only [deleteDashboard, Statement.get_bind_apply, Statement.lift_bind_eq_ok,
    Statement.put_bind_apply, Statement.pure_eq_ok, Tables.dashboardRows_eq_ok]
  constructor
  · rintro ⟨⟨⟩, hr, rows, hrows, ⟨count', left⟩, hrem, rfl, rfl⟩
    obtain ⟨hp, rfl, rfl⟩ := removal_eq_ok.mp hrem
    exact ⟨hr, rows, hrows, by simpa using hp, rfl, rfl⟩
  · rintro ⟨hr, rows, hrows, hp, rfl, rfl⟩
    exact ⟨(), hr, rows, hrows, (_, _), removal_eq_ok.mpr ⟨by simpa using hp, rfl, rfl⟩, rfl, rfl⟩

/-- Removing a tag definition succeeds exactly if no fault strikes; all rows that match go. -/
theorem deleteTag_eq_ok {s : Setting} {owner : Int} {key : Cell} {t t' : Tables} {count : Nat} :
    deleteTag s owner key t = .ok (count, t') ↔
      t.ready s .tags .delete = .ok () ∧
      ∃ rows, t.tags = some rows ∧
        (∀ r ∈ rows, r.owner = owner → r.key = key →
          s.write .tags .delete r.columns = .ok ()) ∧
        count = (rows.filter fun r => r.owner == owner && r.key == key).length ∧
        t' = { t with
          tags := some (rows.filter fun r => !(r.owner == owner && r.key == key)) } := by
  simp only [deleteTag, Statement.get_bind_apply, Statement.lift_bind_eq_ok,
    Statement.put_bind_apply, Statement.pure_eq_ok, Tables.tagRows_eq_ok]
  constructor
  · rintro ⟨⟨⟩, hr, rows, hrows, ⟨count', left⟩, hrem, rfl, rfl⟩
    obtain ⟨hp, rfl, rfl⟩ := removal_eq_ok.mp hrem
    exact ⟨hr, rows, hrows, by simpa using hp, rfl, rfl⟩
  · rintro ⟨hr, rows, hrows, hp, rfl, rfl⟩
    exact ⟨(), hr, rows, hrows, (_, _), removal_eq_ok.mpr ⟨by simpa using hp, rfl, rfl⟩, rfl, rfl⟩

/-- Forgetting a use succeeds exactly if no fault strikes; all rows that match go. -/
theorem deleteRecent_eq_ok {s : Setting} {owner : Int} {key : Cell} {t t' : Tables}
    {count : Nat} :
    deleteRecent s owner key t = .ok (count, t') ↔
      t.ready s .recents .delete = .ok () ∧
      ∃ rows, t.recents = some rows ∧
        (∀ r ∈ rows, r.isFor owner key = true →
          s.write .recents .delete r.columns = .ok ()) ∧
        count = (rows.filter (·.isFor owner key)).length ∧
        t' = { t with recents := some (rows.filter (!·.isFor owner key)) } := by
  simp only [deleteRecent, Statement.get_bind_apply, Statement.lift_bind_eq_ok,
    Statement.put_bind_apply, Statement.pure_eq_ok, Tables.recentRows_eq_ok]
  constructor
  · rintro ⟨⟨⟩, hr, rows, hrows, ⟨count', left⟩, hrem, rfl, rfl⟩
    obtain ⟨hp, rfl, rfl⟩ := removal_eq_ok.mp hrem
    exact ⟨hr, rows, hrows, hp, rfl, rfl⟩
  · rintro ⟨hr, rows, hrows, hp, rfl, rfl⟩
    exact ⟨(), hr, rows, hrows, (_, _), removal_eq_ok.mpr ⟨hp, rfl, rfl⟩, rfl, rfl⟩

/-! ## Changing -/

/-- Changing rows in a column that an index holds succeeds exactly if each that is chosen can be
written; all of these change. -/
theorem changeRows_eq_ok {ρ : Type} [DecidableEq ρ] {s : Setting} {table : Table}
    {column : String} {chosen : ρ → Bool} {columns : ρ → Given → Columns} {change : ρ → Cell → ρ}
    {c : Cell} {rows rows' : List ρ} {count : Nat} :
    changeRows s table column true chosen columns change (some c) rows = .ok (count, rows') ↔
      (∀ r ∈ rows, chosen r = true → s.write table .update (columns r (some c)) = .ok ()) ∧
      count = (rows.filter chosen).length ∧
      rows' = rows.map fun r => if chosen r then change r c else r := by
  induction rows generalizing rows' count with
  | nil =>
    simp only [changeRows, Except.ok.injEq, Prod.mk.injEq]
    constructor
    · rintro ⟨rfl, rfl⟩
      simp
    · rintro ⟨-, rfl, rfl⟩
      simp
  | cons row rows ih =>
    by_cases hch : chosen row = true
    · simp only [changeRows, hch, if_true, except_bind_eq_ok, presentIn, Except.ok.injEq, pure,
        Except.pure, Prod.mk.injEq, List.forall_mem_cons, List.filter_cons_of_pos,
        List.length_cons, List.map_cons, forall_const, Bool.true_or, Setting.write_eq_ok]
      constructor
      · rintro ⟨⟨⟩, hp, _, rfl, ⟨⟩, haside, ⟨n, rest⟩, hrest, rfl, rfl⟩
        obtain ⟨h1, rfl, rfl⟩ := ih.mp hrest
        exact ⟨⟨⟨hp, haside⟩, fun r hr hc => Setting.write_eq_ok.mp (h1 r hr hc)⟩, rfl, rfl⟩
      · rintro ⟨⟨⟨hp, haside⟩, h1⟩, rfl, rfl⟩
        refine ⟨(), hp, c, rfl, (), haside, (_, _), ih.mpr ⟨?_, rfl, rfl⟩, rfl, rfl⟩
        exact fun r hr hc => Setting.write_eq_ok.mpr (h1 r hr hc)
    · simp only [changeRows, hch, if_false, Bool.false_eq_true, except_bind_eq_ok, pure,
        Except.pure, Except.ok.injEq, Prod.mk.injEq, List.forall_mem_cons, List.map_cons]
      constructor
      · rintro ⟨⟨n, rest⟩, hrest, rfl, rfl⟩
        obtain ⟨h1, rfl, rfl⟩ := ih.mp hrest
        exact ⟨⟨fun h => absurd h (by simp), h1⟩, by simp [hch], rfl⟩
      · rintro ⟨⟨-, h1⟩, rfl, rfl⟩
        exact ⟨(_, _), ih.mpr ⟨h1, rfl, rfl⟩, by simp [hch], rfl⟩

/-- The dashboards with some of them put at a position. -/
def placeAt (chosen : DashboardRow → Bool) (position : Int) (rows : List DashboardRow) :
    List DashboardRow :=
  rows.map fun r => if chosen r then { r with order := .integer position } else r

/-- Putting dashboards at a position succeeds exactly if no fault strikes one of them. -/
theorem setOrder_eq_ok {s : Setting} {chosen : DashboardRow → Bool} {position : Int}
    {t t' : Tables} {count : Nat} :
    setOrder s chosen (some (.integer position)) t = .ok (count, t') ↔
      t.ready s .dashboards .update = .ok () ∧
      ∃ rows, t.dashboards = some rows ∧
        (∀ r ∈ rows, chosen r = true → s.write .dashboards .update
          { r with order := .integer position }.columns = .ok ()) ∧
        count = (rows.filter chosen).length ∧
        t' = { t with dashboards := some (placeAt chosen position rows) } := by
  simp only [setOrder, Statement.get_bind_apply, Statement.lift_bind_eq_ok,
    Statement.put_bind_apply, Statement.pure_eq_ok, Tables.dashboardRows_eq_ok, Option.map_some,
    Cell.asInteger]
  constructor
  · rintro ⟨⟨⟩, hr, rows, hrows, ⟨count', rows'⟩, hch, rfl, rfl⟩
    obtain ⟨hp, rfl, rfl⟩ := changeRows_eq_ok.mp hch
    exact ⟨hr, rows, hrows, hp, rfl, rfl⟩
  · rintro ⟨hr, rows, hrows, hp, rfl, rfl⟩
    exact ⟨(), hr, rows, hrows, (_, _), changeRows_eq_ok.mpr ⟨hp, rfl, rfl⟩, rfl, rfl⟩

end Pinboard.Store
