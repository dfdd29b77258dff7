import Pinboard.Proofs.Appending
import Pinboard.Proofs.Removal

/-!
# Numbers that are handed out

A new row has a number of 64 bits, and what is handed out are the 32 lowest of them. As long as
these are all of it, the number names the new row, which is found as it was handed out, and nothing
that was there before. A number with more bits is cut to one that names an older row, or none.
-/

namespace Pinboard.Store

/-! ## Rows that were written -/

theorem Tables.mem_present_of_ready {t : Tables} {s : Setting} {table : Table} {event : RowEvent}
    (h : t.ready s table event = .ok ()) : table ∈ t.present := by
  obtain ⟨_, hneeds, -⟩ := except_bind_eq_ok.mp h
  obtain ⟨_, htable, -⟩ := except_bind_eq_ok.mp hneeds
  unfold requireTable at htable
  split at htable
  · rename_i hmem
    exact List.contains_iff_mem.mp hmem
  · cases htable

/-- What was written of a dashboard is read from its row. -/
theorem DashboardRow.read_written (d : Dashboard) :
    (⟨wide d.id, wide d.owner, .text d.name, .integer d.order.toInt⟩ : DashboardRow).read =
      .ok d := by
  have horder : readInt32 d.order.toInt 3 = .ok d.order := by
    have hlow := d.order.le_toInt
    have hhigh := d.order.toInt_lt
    unfold readInt32
    rw [if_pos (by omega), Int32.ofInt_toInt]
  unfold DashboardRow.read
  simp only [readUInt32_wide, Cell.readText, Cell.readInteger, except_ok_bind, horder]
  rfl

/-- What was written of a user is read from its row. -/
theorem UserRow.read_written (u : User) : (⟨wide u.id, .text u.name⟩ : UserRow).read = .ok u := by
  unfold UserRow.read
  rw [readUInt32_wide]
  rfl

section Lists

variable {α : Type} {rows : List α} {row : α} {p : α → Bool}

theorem find?_append_new (hold : ∀ r ∈ rows, p r = false) (hnew : p row = true) :
    (rows ++ [row]).find? p = some row := by
  have hnone : rows.find? p = none := by
    rw [List.find?_eq_none]
    intro r hr
    rw [hold r hr]
    exact Bool.false_ne_true
  rw [List.find?_append, hnone, Option.none_or, List.find?_singleton, if_pos hnew]

theorem filter_append_new (hold : ∀ r ∈ rows, p r = false) (hnew : p row = true) :
    (rows ++ [row]).filter (!p ·) = rows := by
  have hall : rows.filter (!p ·) = rows := by
    rw [List.filter_eq_self]
    intro r hr
    rw [hold r hr]
    rfl
  rw [List.filter_append, hall, List.filter_singleton, hnew]
  exact List.append_nil rows

end Lists

section Handles

variable {c : Connection}

theorem findDashboard_eq_some (h : .dashboards ∈ c.tables.present) {owner : UserId} {id : UInt32}
    {d : Dashboard} : (findDashboard .clear owner id c).1 = .ok (some d) ↔
      ∃ r, (c.tables.boards.find? fun r => r.id == wide id && r.owner == wide owner) = some r ∧
        r.read = .ok d := by
  unfold findDashboard
  rw [inspect_table rfl h, Tables.dashboardRows_eq_ok.mpr (Tables.boards_eq h), except_ok_bind]
  cases c.tables.boards.find? fun r => r.id == wide id && r.owner == wide owner with
  | none => simp [fromStorage, pure, Except.pure]
  | some r => cases hread : r.read <;> simp [fromStorage, hread]

theorem findUser_eq_some (h : .users ∈ c.tables.present) {id : UserId} {u : User} :
    (findUser .clear id c).1 = .ok (some u) ↔
      ∃ r, c.tables.people.find? (·.id == wide id) = some r ∧ r.read = .ok u := by
  unfold findUser
  rw [inspect_table rfl h, Tables.userRows_eq_ok.mpr (Tables.users_eq h), except_ok_bind]
  cases c.tables.people.find? (·.id == wide id) with
  | none => simp [fromStorage, pure, Except.pure]
  | some r => cases hread : r.read <;> simp [fromStorage, hread]

end Handles

/-! ## New dashboards -/

/-- A row was added to the dashboards under the next number. -/
structure BoardAdded (c c' : Connection) (row : DashboardRow) : Prop where
  /-- The number is the next one. -/
  number : nextNumber (c.tables.boards.map (·.id)) c.tables.lastDashboard = .ok row.id
  /-- There was a table to add it to. -/
  present : .dashboards ∈ c.tables.present
  /-- Its owner was there. -/
  owner : c.tables.HasUser row.owner
  /-- The connection knows of no faults. -/
  known : c'.known.faults = []
  /-- The row comes last, and its number is remembered. Nothing else has changed. -/
  tables : c'.tables = { c.tables with
    dashboards := some (c.tables.boards ++ [row]), lastDashboard := row.id }

theorem createDashboard_added {c : Connection} {draft d : Dashboard}
    (h : (createDashboard .clear draft c).1 = .ok d) : ∃ n, d.id = cut32 n ∧
      BoardAdded c (createDashboard .clear draft c).2
        ⟨n, wide d.owner, .text d.name, .integer d.order.toInt⟩ := by
  obtain ⟨hblank, order, n, -, hinsert, rfl⟩ := createDashboard_inserts ⟨h, rfl⟩
  obtain ⟨hready, -, rows, users, hrows, husers, hn, howner, htables⟩ :=
    insertDashboard_eq_ok.mp hinsert
  have hboards : c.tables.boards = rows := by rw [Tables.boards, hrows, Option.getD_some]
  obtain ⟨-, hlast, -, -⟩ := nextNumber_spec hn
  rw [Int.max_eq_right (Int.le_of_lt hlast)] at htables
  refine ⟨n, rfl, hboards ▸ hn, Tables.mem_present_of_ready hready, ?_, ?_, hboards ▸ htables⟩
  · rw [Tables.HasUser, husers]
    exact howner
  · rw [createDashboard, if_neg (by rw [hblank]; exact Bool.false_ne_true)]
    exact runSteps_known .clear _ _ c

theorem number_and_owner_beq {row : DashboardRow} {owner : UserId} {id : UInt32}
    (hid : row.id = wide id) (howner : row.owner = wide owner) :
    (row.id == wide id && row.owner == wide owner) = true := by
  rw [hid, howner, beq_self_eq_true, beq_self_eq_true, Bool.and_self]

namespace BoardAdded

variable {c c' : Connection} {row : DashboardRow} {owner : UserId} {id : UInt32}
  (h : BoardAdded c c' row)
include h

theorem boards : c'.tables.boards = c.tables.boards ++ [row] := by
  rw [h.tables]
  rfl

theorem present_eq : c'.tables.present = c.tables.present := by
  rw [h.tables, Tables.present_withBoards h.present]

/-- The row is the only one with its number. -/
theorem other (hid : row.id = wide id) :
    ∀ r ∈ c.tables.boards, (r.id == wide id && r.owner == wide owner) = false := by
  intro r hr
  have hne : r.id ≠ wide id := hid ▸ nextNumber_ne h.number r hr
  rw [beq_eq_false_iff_ne.mpr hne, Bool.false_and]

theorem found (hid : row.id = wide id) (howner : row.owner = wide owner) {d : Dashboard}
    (hread : row.read = .ok d) : (findDashboard .clear owner id c').1 = .ok (some d) := by
  refine (findDashboard_eq_some (h.present_eq ▸ h.present)).mpr ⟨row, ?_, hread⟩
  rw [h.boards]
  exact find?_append_new (h.other hid) (number_and_owner_beq hid howner)

/-- Without the row, the dashboards are those that there were. -/
theorem boardsWithout (hid : row.id = wide id) (howner : row.owner = wide owner) :
    c'.tables.boardsWithout owner id = c.tables.boards := by
  rw [Tables.boardsWithout, h.boards]
  exact filter_append_new (h.other hid) (number_and_owner_beq hid howner)

theorem mem_boardsOf (howner : row.owner = wide owner) : row ∈ c'.tables.boardsOf owner := by
  refine List.mem_filter.mpr ⟨?_, beq_iff_eq.mpr howner⟩
  rw [h.boards]
  exact List.mem_append_right _ (List.mem_singleton.mpr rfl)

theorem wide_id (howner : row.owner = wide owner)
    (hfits : ∀ r ∈ c'.tables.boardsOf owner, 0 ≤ r.id ∧ r.id < 4294967296) :
    row.id = wide (cut32 row.id) := by
  obtain ⟨h0, hlt⟩ := hfits row (h.mem_boardsOf howner)
  exact (wide_cut32 h0 hlt).symm

theorem removable (howner : row.owner = wide owner) :
    (removeDashboard .clear owner (cut32 row.id) c').1 = .ok () ↔
      ∀ r ∈ c'.tables.boardsOf owner, 0 ≤ r.id ∧ r.id < 4294967296 := by
  have hboards : .dashboards ∈ c'.tables.present := h.present_eq ▸ h.present
  have husers : .users ∈ c'.tables.present := h.present_eq ▸ h.owner.mem_present
  rw [removeDashboard_granted_iff hboards husers (h.known ▸ List.forall_mem_nil _)]
  have hleft : ∀ r, r ∈ (c'.tables.withoutBoard owner (cut32 row.id)).boardsOf owner ↔
      r ∈ c'.tables.boardsOf owner ∧ r.id ≠ wide (cut32 row.id) := by
    intro r
    rw [Tables.withoutBoard, Tables.boardsOf_without, List.mem_filter]
    simp
  constructor
  · rintro ⟨-, hfits⟩ r hr
    by_cases hid : r.id = wide (cut32 row.id)
    · rw [hid]
      exact ⟨wide_nonneg _, wide_lt _⟩
    · exact hfits r ((hleft r).mpr ⟨hr, hid⟩)
  · intro hfits
    refine ⟨⟨row, ?_, h.wide_id howner hfits, howner⟩, fun r hr => hfits r ((hleft r).mp hr).1⟩
    exact (List.mem_filter.mp (h.mem_boardsOf howner)).1

theorem removed (howner : row.owner = wide owner)
    (hgranted : (removeDashboard .clear owner (cut32 row.id) c').1 = .ok ()) :
    ∃ boards, Repositioned owner c.tables.boards boards ∧
      (removeDashboard .clear owner (cut32 row.id) c').2.tables =
        { c.tables with dashboards := some boards, lastDashboard := row.id } := by
  have hid := h.wide_id howner ((h.removable howner).mp hgranted)
  have heffect := removeDashboard_effect ⟨hgranted, rfl⟩
  generalize (removeDashboard .clear owner (cut32 row.id) c').2.tables = t at heffect ⊢
  cases heffect with
  | question hq => cases hq
  | removeDashboard hrows hthere hleft hids =>
    rename_i rows left ids
    have hback := h.boardsWithout hid howner
    rw [Tables.boardsWithout, Tables.boards, hrows, Option.getD_some, ← hleft] at hback
    refine ⟨_, placed_repositioned owner 0 ids _, ?_⟩
    rw [hback, h.tables]

end BoardAdded

/-- What a number says of the dashboard that it was handed out for: the row got the number `n`. -/
structure BoardMade (c c' : Connection) (d : Dashboard) (n : Int) : Prop where
  /-- The row has the next number. -/
  number : nextNumber (c.tables.boards.map (·.id)) c.tables.lastDashboard = .ok n
  /-- The dashboard that is handed out has what 32 bits hold of it. -/
  id : d.id = cut32 n
  /-- If `n` has 32 bits, the dashboard is found as it was handed out. -/
  found : n < 4294967296 → (findDashboard .clear d.owner d.id c').1 = .ok (some d)
  /-- If `n` has 32 bits, no other dashboard had the number before. -/
  unused : n < 4294967296 → ∀ r ∈ c.tables.boards, r.id ≠ wide d.id
  /-- If `n` has more, what has the number was there before. -/
  older : 4294967296 ≤ n → ∀ r ∈ c'.tables.boards, r.id = wide d.id → r ∈ c.tables.boards
  /-- The number can be removed exactly if all numbers of the owner's dashboards have 32 bits. -/
  removable : (removeDashboard .clear d.owner d.id c').1 = .ok () ↔
    ∀ r ∈ c'.tables.boardsOf d.owner, 0 ≤ r.id ∧ r.id < 4294967296
  /-- What is removed is the new row: but for positions of the owner and the counter, everything is
  as it was before. -/
  removed : (removeDashboard .clear d.owner d.id c').1 = .ok () →
    ∃ boards, Repositioned d.owner c.tables.boards boards ∧
      (removeDashboard .clear d.owner d.id c').2.tables =
        { c.tables with dashboards := some boards, lastDashboard := n }

theorem createDashboard_made {c : Connection} {draft d : Dashboard}
    (h : (createDashboard .clear draft c).1 = .ok d) :
    ∃ n, BoardMade c (createDashboard .clear draft c).2 d n := by
  obtain ⟨n, hid, hadded⟩ := createDashboard_added h
  obtain ⟨-, -, hpos, -⟩ := nextNumber_spec hadded.number
  have hwide : n < 4294967296 → n = wide d.id := by
    intro hroom
    rw [hid]
    exact (wide_cut32 (Int.le_of_lt hpos) hroom).symm
  refine ⟨n, hadded.number, hid, fun hroom => ?_, fun hroom r hr => ?_, fun hlarge r hr hrid => ?_,
    ?_, ?_⟩
  · have hread := DashboardRow.read_written d
    rw [← hwide hroom] at hread
    exact hadded.found (hwide hroom) rfl hread
  · rw [← hwide hroom]
    exact nextNumber_ne hadded.number r hr
  · rw [hadded.boards] at hr
    rcases List.mem_append.mp hr with hr | hr
    · exact hr
    · -- the new row has more bits than the number
      have hsmall := wide_lt d.id
      rw [← hrid, List.mem_singleton.mp hr] at hsmall
      exact absurd hlarge (Int.not_le.mpr hsmall)
  · rw [hid]
    exact hadded.removable rfl
  · rw [hid]
    exact hadded.removed rfl

/-! ## New users -/

theorem UserRow.name_of_read {r : UserRow} {u : User} (h : r.read = .ok u) :
    r.name = .text u.name := by
  obtain ⟨id, -, h⟩ := except_bind_eq_ok.mp h
  obtain ⟨name, hname, h⟩ := except_bind_eq_ok.mp h
  cases h
  cases hcell : r.name with
  | text s =>
    rw [hcell] at hname
    cases hname
    rfl
  | integer _ => rw [hcell] at hname; cases hname
  | real _ => rw [hcell] at hname; cases hname
  | blob _ => rw [hcell] at hname; cases hname

/-- What a number says of the user that it was handed out for: the row got the number `n`. -/
structure UserMade (c c' : Connection) (u : User) (n : Int) : Prop where
  /-- The row has the next number. -/
  number : nextNumber (c.tables.people.map (·.id)) c.tables.lastUser = .ok n
  /-- The user that is handed out has what 32 bits hold of it. -/
  id : u.id = cut32 n
  /-- The user is found as it was handed out exactly if `n` has 32 bits. -/
  found : (findUser .clear u.id c').1 = .ok (some u) ↔ n < 4294967296
  /-- If `n` has 32 bits, no other user had the number before. -/
  unused : n < 4294967296 → ∀ r ∈ c.tables.people, r.id ≠ wide u.id

theorem createUser_made {c : Connection} {name : String} {u : User}
    (h : (createUser .clear name c).1 = .ok u) :
    ∃ n, UserMade c (createUser .clear name c).2 u n := by
  obtain ⟨-, n, hinsert, rfl⟩ := createUser_inserts ⟨h, rfl⟩
  obtain ⟨hready, -, rows, hrows, hn, hname, htables⟩ := insertUser_eq_ok.mp hinsert
  generalize (createUser .clear name c).2 = c' at htables ⊢
  have hpeople : c.tables.people = rows := by rw [Tables.people, hrows, Option.getD_some]
  have hpeople' : c'.tables.people = rows ++ [⟨n, .text name⟩] := by
    rw [htables]
    rfl
  have hpresent : .users ∈ c'.tables.present := by
    have hsame : c'.tables.present = c.tables.present := by
      rw [htables]
      exact Tables.present_congr (by rw [hrows]; rfl) rfl rfl rfl rfl
    rw [hsame]
    exact Tables.mem_present_of_ready hready
  obtain ⟨-, -, hpos, -⟩ := nextNumber_spec hn
  have hunused : n < 4294967296 → ∀ r ∈ rows, r.id ≠ wide (cut32 n) := by
    intro hroom r hr
    rw [wide_cut32 (Int.le_of_lt hpos) hroom]
    exact nextNumber_ne hn r hr
  refine ⟨n, hpeople ▸ hn, rfl, ⟨fun hfound => ?_, fun hroom => ?_⟩, hpeople ▸ hunused⟩
  · obtain ⟨r, hfind, hread⟩ := (findUser_eq_some hpresent).mp hfound
    have hid : r.id = wide (cut32 n) := by simpa using List.find?_some hfind
    have hmem := List.mem_of_find?_eq_some hfind
    rw [hpeople'] at hmem
    -- no older user has the name, so it is the new row that was found
    rcases List.mem_append.mp hmem with hold | hnew
    · exact absurd (UserRow.name_of_read hread) (hname r hold)
    · rw [List.mem_singleton.mp hnew] at hid
      rw [show n = wide (cut32 n) from hid]
      exact wide_lt (cut32 n)
  · refine (findUser_eq_some hpresent).mpr ⟨⟨n, .text name⟩, ?_, ?_⟩
    · rw [hpeople']
      refine find?_append_new (fun r hr => beq_eq_false_iff_ne.mpr (hunused hroom r hr)) ?_
      exact beq_iff_eq.mpr (wide_cut32 (Int.le_of_lt hpos) hroom).symm
    · have hread := UserRow.read_written ⟨cut32 n, name⟩
      rw [wide_cut32 (Int.le_of_lt hpos) hroom] at hread
      exact hread

/-! ## Numbers and what they name -/

/-- Whatever the counters are, the number that is handed out for a new dashboard or a new user is
cut from the number of its row, and names this row exactly as long as nothing is cut off. -/
theorem made_rows_named (c : Connection) :
    (∀ draft d, (createDashboard .clear draft c).1 = .ok d →
      ∃ n, BoardMade c (createDashboard .clear draft c).2 d n) ∧
    ∀ name u, (createUser .clear name c).1 = .ok u →
      ∃ n, UserMade c (createUser .clear name c).2 u n :=
  ⟨fun _ _ h => createDashboard_made h, fun _ _ h => createUser_made h⟩

/-- The greatest numbers that have 32 bits are handed out, and what they name is found. -/
theorem made_rows_named_up_to_32_bits :
    let t : Tables := { Tables.fresh with
      users := some [⟨1, .text "u"⟩]
      dashboards := some [⟨4294967294, 1, .text "a", .integer 0⟩]
      lastUser := 4294967294 }
    let c : Connection := ⟨t, {}, 0⟩
    (createDashboard .clear (.draft 1 "b") c).1 = .ok ⟨4294967295, 1, "b", 1⟩ ∧
      (findDashboard .clear 1 4294967295 (createDashboard .clear (.draft 1 "b") c).2).1 =
        .ok (some ⟨4294967295, 1, "b", 1⟩) ∧
      (createUser .clear "v" c).1 = .ok ⟨4294967295, "v"⟩ ∧
      (findUser .clear 4294967295 (createUser .clear "v" c).2).1 =
        .ok (some ⟨4294967295, "v"⟩) := by
  intro t c
  have hboard : (createDashboard .clear (.draft 1 "b") c).1 = .ok ⟨4294967295, 1, "b", 1⟩ := by
    decide +kernel
  have huser : (createUser .clear "v" c).1 = .ok ⟨4294967295, "v"⟩ := by
    decide +kernel
  obtain ⟨n, hmade⟩ := (made_rows_named c).1 _ _ hboard
  obtain ⟨m, hmade'⟩ := (made_rows_named c).2 _ _ huser
  obtain rfl : 4294967295 = n := Except.ok.inj hmade.number
  obtain rfl : 4294967295 = m := Except.ok.inj hmade'.number
  exact ⟨hboard, hmade.found (by decide), huser, hmade'.found.mpr (by decide)⟩

/-- Once a counter has 32 bits behind it, the number of a new dashboard names an old one of the same
owner, which can then not be removed, and that of a new user names an old user. -/
theorem made_row_names_older_row :
    let t : Tables := { Tables.fresh with
      users := some [⟨1, .text "u"⟩]
      dashboards := some [⟨1, 1, .text "a", .integer 0⟩]
      lastUser := 4294967296
      lastDashboard := 4294967296 }
    let c : Connection := ⟨t, {}, 0⟩
    let c' := (createDashboard .clear (.draft 1 "b") c).2
    (createDashboard .clear (.draft 1 "b") c).1 = .ok ⟨1, 1, "b", 1⟩ ∧
      (findDashboard .clear 1 1 c').1 = .ok (some ⟨1, 1, "a", 0⟩) ∧
      (removeDashboard .clear 1 1 c').1 ≠ .ok () ∧
      (createUser .clear "v" c).1 = .ok ⟨1, "v"⟩ ∧
      (findUser .clear 1 (createUser .clear "v" c).2).1 = .ok (some ⟨1, "u"⟩) := by
  decide +kernel

end Pinboard.Store
