import Pinboard.Proofs.Contiguity
import Pinboard.Proofs.Counter

/-!
# Well-formed tables

What can be relied on in the tables of a session that begins on fresh ones, whatever its stores were
asked for and whatever came of it: rows belong to users that are there, names and keys occur once
and are not blank, counters have passed the numbers of all rows, and the cells hold what they are
for. The tables of users, dashboards and tag definitions have an invariant each. The latter two need
that a user takes all its rows along when it goes (`Effect.removeUser_takes`), and that nothing else
makes a user go (`Effect.hasUser`).
-/

namespace Pinboard.Store

/-! ## What is well-formed -/

/-- The cell holds a text with a character that is not blank. -/
def Cell.Worded (c : Cell) : Prop := ∃ s, c = .text s ∧ ∃ ch ∈ s.toList, Text.isBlank ch = false

theorem Cell.worded_text {s : String} (h : Text.allBlank s = false) : Cell.Worded (.text s) := by
  refine ⟨s, rfl, ?_⟩
  unfold Text.allBlank at h
  obtain ⟨ch, hmem, hblank⟩ := List.all_eq_false.mp h
  exact ⟨ch, hmem, Bool.not_eq_true _ ▸ hblank⟩

/-- What a tag definition is for. -/
def TagRow.slot (r : TagRow) : Int × Cell := (r.owner, r.key)

/-- Everything that the tables promise to those who read them. -/
structure Tables.WellFormed (t : Tables) : Prop where
  /-- All tables are there. -/
  present : t.present = fresh.present
  /-- Dashboards belong to users. -/
  boardOwners : ∀ r ∈ t.boards, t.HasUser r.owner
  /-- Tag definitions belong to users. -/
  tagOwners : ∀ r ∈ t.definitions, t.HasUser r.owner
  /-- Uses belong to users. -/
  useOwners : ∀ r ∈ t.uses, t.HasUser r.owner
  /-- No two users share a name. -/
  userNames : (t.people.map (·.name)).Nodup
  /-- No two tag definitions of a user share a key. -/
  tagKeys : (t.definitions.map (·.slot)).Nodup
  /-- No two uses of a user share a key. -/
  useKeys : (t.uses.map (·.slot)).Nodup
  /-- Users have names. -/
  wordedUsers : ∀ u ∈ t.people, u.name.Worded
  /-- Dashboards have names. -/
  wordedBoards : ∀ r ∈ t.boards, r.name.Worded
  /-- Tag definitions have keys. -/
  wordedTags : ∀ r ∈ t.definitions, r.key.Worded
  /-- No two users share a number. -/
  userIds : (t.people.map (·.id)).Nodup
  /-- The counter of users has passed all their numbers. -/
  usersPassed : ∀ u ∈ t.people, 0 < u.id ∧ u.id ≤ t.lastUser
  /-- No two dashboards share a number. -/
  boardIds : (t.boards.map (·.id)).Nodup
  /-- The counter of dashboards has passed all their numbers. -/
  boardsPassed : ∀ r ∈ t.boards, 0 < r.id ∧ r.id ≤ t.lastDashboard
  /-- The kind of a tag definition is one of the two. -/
  kinds : ∀ r ∈ t.definitions, r.kind = .text "novalue" ∨ r.kind = .text "singlevalue"
  /-- Positions are numbers of 32 bits from zero on. -/
  orders : ∀ r ∈ t.boards, ∃ n : Int, r.order = .integer n ∧ 0 ≤ n ∧ n ≤ 2147483647

/-! ## Users -/

/-- The table of users and its counter are in order. -/
structure Tables.Enrolled (t : Tables) : Prop where
  /-- The counter starts at zero. -/
  start : 0 ≤ t.lastUser
  /-- It has passed the number of each user. -/
  passed : ∀ u ∈ t.people, 0 < u.id ∧ u.id ≤ t.lastUser
  /-- No two users share a number. -/
  ids : (t.people.map (·.id)).Nodup
  /-- No two users share a name. -/
  names : (t.people.map (·.name)).Nodup
  /-- Names are not blank. -/
  worded : ∀ u ∈ t.people, u.name.Worded

theorem Tables.enrolled_fresh : Tables.Enrolled .fresh where
  start := Int.le_refl 0
  passed := fun _ hu => nomatch hu
  ids := List.nodup_nil
  names := List.nodup_nil
  worded := fun _ hu => nomatch hu

theorem Tables.people_eq {t : Tables} {rows : List UserRow} (h : t.users = some rows) :
    t.people = rows := by
  rw [people, h]
  rfl

section Effect

variable {t t' : Tables} {r : Request} {a : Reply}

/-- Whatever a granted request does, the table of users stays in order. -/
theorem Effect.enrolled (h : Effect t r a t') (he : t.Enrolled) : t'.Enrolled := by
  cases h with
  | @createUser name rows n hblank hrows hn hname =>
    have hpeople := Tables.people_eq hrows
    obtain ⟨hstart, hpassed, hids, hnames, hworded⟩ := he
    rw [hpeople] at hpassed hids hnames hworded
    -- the new number is above the counter, so no user has it
    obtain ⟨-, hlast, hpos, -⟩ := nextNumber_spec hn
    refine ⟨by show 0 ≤ max t.lastUser n; omega, fun u hu => ?_,
      nodup_map_append hids (nextNumber_ne hn), nodup_map_append hnames hname, fun u hu => ?_⟩
    · show 0 < u.id ∧ u.id ≤ max t.lastUser n
      rcases List.mem_append.mp hu with hu | hu
      · have := hpassed u hu
        omega
      · rw [List.mem_singleton.mp hu]
        exact ⟨hpos, Int.le_max_right _ _⟩
    · rcases List.mem_append.mp hu with hu | hu
      · exact hworded u hu
      · rw [List.mem_singleton.mp hu]
        exact Cell.worded_text hblank
  | @removeUser id rows hrows hid =>
    have hpeople := Tables.people_eq hrows
    obtain ⟨hstart, hpassed, hids, hnames, hworded⟩ := he
    rw [hpeople] at hpassed hids hnames hworded
    have hsub : (rows.filter (!·.id == wide id)).Sublist rows := List.filter_sublist
    exact ⟨hstart, fun u hu => hpassed u (hsub.subset hu), hids.sublist (hsub.map _),
      hnames.sublist (hsub.map _), fun u hu => hworded u (hsub.subset hu)⟩
  | recordUse hput =>
    obtain ⟨rows, rfl⟩ := hput.only_recents
    exact ⟨he.start, he.passed, he.ids, he.names, he.worded⟩
  | recordUses hputs =>
    obtain ⟨rows, rfl⟩ := hputs.only_recents
    exact ⟨he.start, he.passed, he.ids, he.names, he.worded⟩
  | question => exact he
  | unmoved => exact he
  | _ => exact ⟨he.start, he.passed, he.ids, he.names, he.worded⟩

/-- A user stays until it is removed. -/
theorem Effect.hasUser (h : Effect t r a t') {o : Int} (ho : t.HasUser o)
    (hstays : ∀ id, r = .removeUser id → o ≠ wide id) : t'.HasUser o := by
  cases h with
  | createUser _ hrows =>
    obtain ⟨u, hu, hid⟩ := ho
    rw [hrows] at hu
    exact ⟨u, List.mem_append_left _ hu, hid⟩
  | removeUser hrows =>
    obtain ⟨u, hu, rfl⟩ := ho
    rw [hrows] at hu
    refine ⟨u, List.mem_filter.mpr ⟨hu, ?_⟩, rfl⟩
    simpa using hstays _ rfl
  | recordUse hput =>
    obtain ⟨rows, rfl⟩ := hput.only_recents
    exact ho
  | recordUses hputs =>
    obtain ⟨rows, rfl⟩ := hputs.only_recents
    exact ho
  | _ => exact ho

/-- When a user goes, its dashboards and its tag definitions go too. -/
theorem Effect.removeUser_takes {id : UserId} (h : Effect t (.removeUser id) a t') :
    (∀ i ∈ t'.identities, i.2.1 ≠ wide id) ∧ ∀ row ∈ t'.definitions, row.owner ≠ wide id := by
  cases h with
  | question hq => cases hq
  | removeUser =>
    refine ⟨fun i hi => ?_, fun row hrow => ?_⟩
    · obtain ⟨row, hrow, rfl⟩ := List.mem_map.mp hi
      have hstays : row ∈ (t.withoutBelongings (· == wide id)).boards := hrow
      rw [Tables.withoutBelongings_boards] at hstays
      show row.owner ≠ wide id
      simpa using (List.mem_filter.mp hstays).2
    · have hstays : row ∈ (t.withoutBelongings (· == wide id)).definitions := hrow
      rw [Tables.withoutBelongings_definitions] at hstays
      simpa using (List.mem_filter.mp hstays).2

/-- The owner of a row that was there before, and still is, is there. -/
theorem Effect.hasUser_of_kept (h : Effect t r a t') {o : Int} (ho : t.HasUser o)
    (hkept : (∃ i ∈ t'.identities, i.2.1 = o) ∨ ∃ row ∈ t'.definitions, row.owner = o) :
    t'.HasUser o := by
  refine h.hasUser ho fun id hr => ?_
  subst hr
  obtain ⟨hboards, htags⟩ := h.removeUser_takes
  rcases hkept with ⟨i, hi, rfl⟩ | ⟨row, hrow, rfl⟩
  · exact hboards i hi
  · exact htags row hrow

/-! ## Dashboards -/

/-- Each dashboard has an owner that is there, and a name that is not blank. -/
def Tables.Housed (t : Tables) : Prop := ∀ i ∈ t.identities, t.HasUser i.2.1 ∧ i.2.2.Worded

theorem Effect.housed (h : Effect t r a t') (hh : t.Housed) : t'.Housed := by
  intro i hi
  have hold : i ∈ t.identities → t'.HasUser i.2.1 ∧ i.2.2.Worded := by
    intro hmem
    obtain ⟨howner, hworded⟩ := hh i hmem
    exact ⟨h.hasUser_of_kept howner (Or.inl ⟨i, hi, rfl⟩), hworded⟩
  -- dashboards may have moved, but what they are has not changed
  rcases h.footprint.identities with hsub | ⟨draft, number, rfl, hadded⟩
  · exact hold (hsub.subset hi)
  · rw [hadded] at hi
    rcases List.mem_append.mp hi with hmem | hmem
    · exact hold hmem
    · rw [List.mem_singleton.mp hmem]
      cases h with
      | question hq => cases hq
      | createDashboard hblank hrows husers horder hn howner =>
        refine ⟨?_, Cell.worded_text hblank⟩
        show ∃ u ∈ t.users.getD [], u.id = wide draft.owner
        rw [husers]
        exact howner

/-- Contiguous positions are numbers of 32 bits. -/
theorem Numbered.order {rows : List DashboardRow} (hn : Numbered rows) {row : DashboardRow}
    (hrow : row ∈ rows) : ∃ n : Int, row.order = .integer n ∧ 0 ≤ n ∧ n ≤ 2147483647 := by
  have hmem : row.order ∈ positions rows row.owner :=
    List.mem_map_of_mem (List.mem_filter.mpr ⟨hrow, beq_self_eq_true _⟩)
  obtain ⟨i, hlt, horder⟩ := (hn.contiguous row.owner).mem_positions.mp hmem
  have hfew := hn.few row.owner
  exact ⟨i, horder, by omega, by omega⟩

/-! ## Tag definitions -/

/-- The table of tag definitions is in order. -/
structure Tables.Defined (t : Tables) : Prop where
  /-- The owner of each tag is there. -/
  owners : ∀ row ∈ t.definitions, t.HasUser row.owner
  /-- Each key of a user comes once. -/
  slots : (t.definitions.map (·.slot)).Nodup
  /-- Keys are not blank. -/
  worded : ∀ row ∈ t.definitions, row.key.Worded
  /-- Kinds go by their names. -/
  kinds : ∀ row ∈ t.definitions, ∃ kind : TagKind, row.kind = .text kind.name

/-- Tag definitions do not change: some go, or a new one comes. -/
theorem Effect.definitions_cases (h : Effect t r a t') :
    t'.definitions.Sublist t.definitions ∨
      ∃ tag, r = .createTag tag ∧ Text.allBlank tag.key = false ∧
        (∀ row ∈ t.definitions, row.slot ≠ (TagRow.ofTag tag).slot) ∧
        t'.HasUser (wide tag.owner) ∧
        t'.definitions = t.definitions ++ [(TagRow.ofTag tag).numbered t.definitions] := by
  cases h with
  | @removeUser id =>
    left
    show (t.withoutBelongings (· == wide id)).definitions.Sublist t.definitions
    rw [Tables.withoutBelongings_definitions]
    exact List.filter_sublist
  | createTag hblank hrows husers hkey howner =>
    right
    have hdefined : t.definitions = _ := congrArg (·.getD []) hrows
    refine ⟨_, rfl, hblank, ?_, ?_, ?_⟩
    · rw [hdefined]
      intro row hrow he
      exact hkey row hrow (Prod.mk.inj he)
    · show ∃ u ∈ t.users.getD [], _
      rw [husers]
      exact howner
    · rw [hdefined]
      rfl
  | removeTag hrows =>
    left
    have hdefined : t.definitions = _ := congrArg (·.getD []) hrows
    rw [hdefined]
    exact List.filter_sublist
  | recordUse hput =>
    obtain ⟨rows, rfl⟩ := hput.only_recents
    exact Or.inl (.refl _)
  | recordUses hputs =>
    obtain ⟨rows, rfl⟩ := hputs.only_recents
    exact Or.inl (.refl _)
  | _ => exact Or.inl (.refl _)

theorem Effect.defined (h : Effect t r a t') (hd : t.Defined) : t'.Defined := by
  have howners : ∀ row ∈ t.definitions, row ∈ t'.definitions → t'.HasUser row.owner :=
    fun row hold hnew => h.hasUser_of_kept (hd.owners row hold) (Or.inr ⟨row, hnew, rfl⟩)
  rcases h.definitions_cases with hsub | ⟨tag, -, hblank, hkey, howner, hadded⟩
  · exact ⟨fun row hrow => howners row (hsub.subset hrow) hrow, hd.slots.sublist (hsub.map _),
      fun row hrow => hd.worded row (hsub.subset hrow),
      fun row hrow => hd.kinds row (hsub.subset hrow)⟩
  · have hcases : ∀ row ∈ t'.definitions,
        row ∈ t.definitions ∨ row = (TagRow.ofTag tag).numbered t.definitions := by
      intro row hrow
      rw [hadded, List.mem_append, List.mem_singleton] at hrow
      exact hrow
    refine ⟨fun row hrow => ?_, ?_, fun row hrow => ?_, fun row hrow => ?_⟩
    · rcases hcases row hrow with hold | rfl
      · exact howners row hold hrow
      · exact howner
    · rw [hadded]
      exact nodup_map_append hd.slots hkey
    · rcases hcases row hrow with hold | rfl
      · exact hd.worded row hold
      · exact Cell.worded_text hblank
    · rcases hcases row hrow with hold | rfl
      · exact hd.kinds row hold
      · exact ⟨tag.kind, rfl⟩

end Effect

/-! ## Every session -/

/-- What holds of the tables before and after everything that stores do. -/
structure Tables.Kept (t : Tables) : Prop where
  /-- All tables are there, and the ledger is keyed. -/
  sound : t.Sound
  /-- Users are in order. -/
  enrolled : t.Enrolled
  /-- Dashboards have owners and names. -/
  housed : t.Housed
  /-- Dashboards are counted. -/
  counted : t.Counted
  /-- Positions are in order. -/
  ordered : t.Ordered
  /-- Tag definitions are in order. -/
  defined : t.Defined

theorem Tables.kept_fresh : Tables.Kept .fresh where
  sound := Tables.sound_fresh
  enrolled := Tables.enrolled_fresh
  housed := fun _ hi => nomatch hi
  counted := Tables.counted_fresh
  ordered := ⟨[], rfl, Numbered.nil⟩
  defined := ⟨fun _ hr => (nomatch hr), List.nodup_nil, fun _ hr => (nomatch hr),
    fun _ hr => (nomatch hr)⟩

theorem Effect.kept {t t' : Tables} {r : Request} {a : Reply} (h : Effect t r a t')
    (hk : t.Kept) : t'.Kept where
  sound := h.sound hk.sound
  enrolled := h.enrolled hk.enrolled
  housed := h.housed hk.housed
  counted := h.counted hk.counted
  ordered := h.ordered hk.ordered
  defined := h.defined hk.defined

theorem Session.run_kept {w : Session} (hw : w.tables.Kept) (steps : List Step) :
    (w.run steps).2.tables.Kept := by
  refine run_keeps (fun t ht => ?_) (fun t r a t' heff ht => heff.kept ht) hw steps
  rw [ht.sound.addMissing]
  exact ht

theorem Tables.Kept.wellFormed {t : Tables} (hk : t.Kept) : t.WellFormed := by
  have hboard : ∀ r ∈ t.boards, t.HasUser r.owner ∧ r.name.Worded :=
    fun r hr => hk.housed r.identity (List.mem_map_of_mem hr)
  have hnumbered : Numbered t.boards := hk.ordered.numbered hk.sound.boards_eq
  exact {
    present := hk.sound.present
    boardOwners := fun r hr => (hboard r hr).1
    tagOwners := hk.defined.owners
    useOwners := hk.sound.keyed.owners
    userNames := hk.enrolled.names
    tagKeys := hk.defined.slots
    useKeys := hk.sound.keyed.slots
    wordedUsers := hk.enrolled.worded
    wordedBoards := fun r hr => (hboard r hr).2
    wordedTags := hk.defined.worded
    userIds := hk.enrolled.ids
    usersPassed := hk.enrolled.passed
    boardIds := hnumbered.ids
    boardsPassed := hk.counted.passed
    kinds := fun r hr => by
      obtain ⟨kind, hkind⟩ := hk.defined.kinds r hr
      rw [hkind]
      cases kind with
      | noValue => exact Or.inl rfl
      | singleValue => exact Or.inr rfl
    orders := fun r hr => hnumbered.order hr }

/-- In every session that begins on fresh tables, whatever the stores are asked for, whether or not
it is granted, and whatever surrounds each step, the tables are well-formed. -/
theorem tables_well_formed (clients : Nat → Option Client) (steps : List Step) :
    ((Session.mk .fresh clients).run steps).2.tables.WellFormed :=
  (Session.run_kept Tables.kept_fresh steps).wellFormed

/-- The ledger takes a blank key: what is used need not be defined. -/
theorem blank_key_used :
    let steps : List Step := [⟨0, .clear, .join .sqlite⟩, ⟨0, .clear, .ask (.createUser "u")⟩,
      ⟨0, .clear, .ask (.recordUse none 1 " " ⟨1, 0, by decide⟩)⟩]
    ¬ ∀ r ∈ ((Session.start .fresh).run steps).2.tables.uses, r.key.Worded := by
  intro steps h
  have hrow : (⟨1, 1, .text " ", .integer 1000⟩ : RecentRow) ∈
      ((Session.start .fresh).run steps).2.tables.uses := by
    decide +kernel
  obtain ⟨s, hs, ch, hch, hblank⟩ := h _ hrow
  obtain rfl := Cell.text.inj hs
  obtain rfl : ch = ' ' := by simpa using hch
  exact absurd hblank (by decide)

end Pinboard.Store
