import Mathlib.Data.List.Induction
import Pinboard.Proofs.Rotation

/-!
# Records and handles

The records that are sent to a log are cut into segments: a record begins a new one when the current
one holds something and would become too large. They may be sent through any of the handles that
share the log, and a turn is taken at any of these.
-/

namespace Pinboard.Log

open Files

/-! ## Segments -/

/-- Records one after another. -/
def joined (records : List ByteArray) : ByteArray := records.foldl (· ++ ·) ByteArray.empty

/-- Segments, the newest first, with one more record. -/
def stack (maxBytes : Nat) : List (List ByteArray) → ByteArray → List (List ByteArray)
  | [], record => [[record]]
  | current :: older, record =>
    if 0 < (joined current).size ∧ maxBytes < (joined current).size + record.size then
      [record] :: current :: older
    else (current ++ [record]) :: older

/-- The segments of some records, the newest first. -/
def segments (maxBytes : Nat) (records : List ByteArray) : List (List ByteArray) :=
  records.foldl (stack maxBytes) [[]]

/-- A segment is small enough, or it consists of one record, apart from empty ones. -/
def Fitting (maxBytes : Nat) (segment : List ByteArray) : Prop :=
  (joined segment).size ≤ maxBytes ∨ (segment.filter (0 < ·.size)).length ≤ 1

theorem stack_full {maxBytes : Nat} {current : List ByteArray} {record : ByteArray}
    (h : 0 < (joined current).size ∧ maxBytes < (joined current).size + record.size)
    (older : List (List ByteArray)) :
    stack maxBytes (current :: older) record = [record] :: current :: older := if_pos h

theorem stack_fits {maxBytes : Nat} {current : List ByteArray} {record : ByteArray}
    (h : ¬ (0 < (joined current).size ∧ maxBytes < (joined current).size + record.size))
    (older : List (List ByteArray)) :
    stack maxBytes (current :: older) record = (current ++ [record]) :: older := if_neg h

theorem joined_concat (records : List ByteArray) (record : ByteArray) :
    joined (records ++ [record]) = joined records ++ record := by
  simp [joined]

theorem joined_singleton (record : ByteArray) : joined [record] = record := by
  simp [joined]

/-- Where records hold nothing together, none of them holds anything. -/
theorem filter_eq_nil_of_joined {records : List ByteArray} (h : (joined records).size = 0) :
    records.filter (0 < ·.size) = [] := by
  induction records using List.reverseRecOn with
  | nil => rfl
  | append_singleton records record ih =>
    rw [joined_concat, ByteArray.size_append] at h
    have hrecord : record.size = 0 := by omega
    rw [List.filter_append, ih (by omega)]
    simp [hrecord]

/-- Cutting records into segments keeps them all, in their order. -/
theorem flatten_foldl_stack (maxBytes : Nat) (records : List ByteArray)
    (segs : List (List ByteArray)) : (records.foldl (stack maxBytes) segs).reverse.flatten =
      segs.reverse.flatten ++ records := by
  induction records generalizing segs with
  | nil => simp
  | cons record records ih =>
    rw [List.foldl_cons, ih]
    have hone : (stack maxBytes segs record).reverse.flatten =
        segs.reverse.flatten ++ [record] := by
      cases segs with
      | nil => rfl
      | cons current older =>
        by_cases hfull : 0 < (joined current).size ∧
            maxBytes < (joined current).size + record.size
        · rw [stack_full hfull]
          simp
        · rw [stack_fits hfull]
          simp
    rw [hone, List.append_assoc, List.singleton_append]

theorem segments_flatten (maxBytes : Nat) (records : List ByteArray) :
    (segments maxBytes records).reverse.flatten = records :=
  flatten_foldl_stack maxBytes records [[]]

/-- A record never makes the segments fewer. -/
theorem length_le_stack (maxBytes : Nat) (segs : List (List ByteArray)) (record : ByteArray) :
    segs.length ≤ (stack maxBytes segs record).length := by
  cases segs with
  | nil => exact Nat.zero_le _
  | cons current older =>
    by_cases hfull : 0 < (joined current).size ∧ maxBytes < (joined current).size + record.size
    · rw [stack_full hfull]
      exact Nat.le_succ _
    · rw [stack_fits hfull]
      exact Nat.le_refl _

theorem length_le_foldl_stack (maxBytes : Nat) (records : List ByteArray)
    (segs : List (List ByteArray)) :
    segs.length ≤ (records.foldl (stack maxBytes) segs).length := by
  induction records generalizing segs with
  | nil => exact Nat.le_refl _
  | cons record records ih => exact Nat.le_trans (length_le_stack maxBytes segs record) (ih _)

theorem Fitting.singleton (maxBytes : Nat) (record : ByteArray) : Fitting maxBytes [record] :=
  Or.inr (List.length_filter_le _ _)

/-- Each segment stays fitting when a record is stacked. -/
theorem fitting_stack {maxBytes : Nat} {segs : List (List ByteArray)}
    (h : ∀ seg ∈ segs, Fitting maxBytes seg) (record : ByteArray) :
    ∀ seg ∈ stack maxBytes segs record, Fitting maxBytes seg := by
  cases segs with
  | nil =>
    intro seg hseg
    rw [List.mem_singleton.mp hseg]
    exact .singleton maxBytes record
  | cons current older =>
    obtain ⟨-, holder⟩ := List.forall_mem_cons.mp h
    by_cases hfull : 0 < (joined current).size ∧
        maxBytes < (joined current).size + record.size
    · rw [stack_full hfull]
      exact List.forall_mem_cons.mpr ⟨.singleton maxBytes record, h⟩
    · rw [stack_fits hfull]
      refine List.forall_mem_cons.mpr ⟨?_, holder⟩
      by_cases hempty : (joined current).size = 0
      · right
        rw [List.filter_append, filter_eq_nil_of_joined hempty, List.nil_append]
        exact List.length_filter_le _ _
      · left
        rw [joined_concat, ByteArray.size_append]
        omega

theorem segments_fitting (maxBytes : Nat) (records : List ByteArray) :
    ∀ seg ∈ segments maxBytes records, Fitting maxBytes seg := by
  have hall : ∀ segs : List (List ByteArray), (∀ seg ∈ segs, Fitting maxBytes seg) →
      ∀ seg ∈ records.foldl (stack maxBytes) segs, Fitting maxBytes seg := by
    induction records with
    | nil => exact fun segs h => h
    | cons record records ih => exact fun segs h => ih _ (fitting_stack h record)
  refine hall [[]] fun seg hseg => ?_
  rw [List.mem_singleton.mp hseg]
  exact Or.inl (Nat.zero_le maxBytes)

/-! ## A log with its clones -/

/-- What can be done with a log and its clones. -/
inductive Turn where
  /-- A handle is cloned under a name. -/
  | clone (source name : String)
  /-- A handle is dropped. -/
  | close (name : String)
  /-- A record is sent through a handle. -/
  | write (name : String) (record : ByteArray)

/-- Takes one turn. A handle that is not there is passed over. -/
def Writers.turn (w : Writers) : Turn → FileAction Writers
  | .clone source name =>
    match w.index? source with
    | some index => pure (w.point name index)
    | none => pure w
  | .close name => pure (w.close name)
  | .write name record => w.write name record

/-- Takes turn after turn. -/
def Writers.turns : Writers → List Turn → FileAction Writers
  | w, [] => pure w
  | w, turn :: rest => do
    let w ← w.turn turn
    w.turns rest

/-- The records that are sent through handles that are there, given the names of these. -/
def sent : List String → List Turn → List ByteArray
  | _, [] => []
  | names, .clone source name :: rest =>
    sent (if source ∈ names then name :: names else names) rest
  | names, .close name :: rest => sent (names.filter (· ≠ name)) rest
  | names, .write name record :: rest =>
    if name ∈ names then record :: sent names rest else sent names rest

/-- All handles lead to one log. -/
structure Writers.Sharing (w : Writers) (names : List String) (log : RollingLog) : Prop where
  /-- There is no other log. -/
  logs : w.logs = #[log]
  /-- The handles lead to it. -/
  handles : ∀ name, w.index? name = if name ∈ names then some 0 else none

theorem lookup_filter_ne {α β : Type} [BEq α] [LawfulBEq α] [DecidableEq α] (l : List (α × β))
    (a a' : α) :
    (l.filter (·.1 ≠ a)).lookup a' = if a' = a then none else l.lookup a' := by
  induction l with
  | nil => simp
  | cons entry l ih =>
    obtain ⟨key, value⟩ := entry
    by_cases hkey : key = a
    · rw [List.filter_cons_of_neg (by simpa using hkey), ih]
      split
      · rfl
      · rename_i hne
        have hother : (a' == key) = false := by
          rw [hkey]
          exact beq_eq_false_iff_ne.mpr hne
        rw [List.lookup_cons, hother]
    · rw [List.filter_cons_of_pos (by simpa using hkey), List.lookup_cons, List.lookup_cons, ih]
      by_cases hsame : a' = key
      · subst hsame
        simp [hkey]
      · have hother : (a' == key) = false := beq_eq_false_iff_ne.mpr hsame
        rw [hother]

theorem Writers.index?_close (w : Writers) (name name' : String) :
    (w.close name).index? name' = if name' = name then none else w.index? name' :=
  lookup_filter_ne w.handles name name'

theorem Writers.index?_point (w : Writers) (name name' : String) (index : Nat) :
    (w.point name index).index? name' = if name' = name then some index else w.index? name' := by
  have hclose := w.index?_close name name'
  unfold Writers.index? Writers.point at *
  rw [List.lookup_cons, hclose]
  by_cases h : name' = name
  · simp [h]
  · have hother : (name' == name) = false := beq_eq_false_iff_ne.mpr h
    rw [hother, if_neg h, if_neg h]

theorem Writers.Sharing.log? {w : Writers} {names : List String} {log : RollingLog}
    (h : w.Sharing names log) {name : String} (hname : name ∈ names) : w.log? name = some log := by
  unfold Writers.log?
  rw [h.handles, if_pos hname, h.logs]
  rfl

/-- Writing through any handle writes to the one log. -/
theorem Writers.Sharing.write {w : Writers} {names : List String} {log log' : RollingLog}
    (h : w.Sharing names log) {name : String} (hname : name ∈ names) {record : ByteArray}
    {v v' : Volume} (hrun : (log.write record).run.run v = (.ok log', v')) :
    ∃ w', (w.write name record).run.run v = (.ok w', v') ∧ w'.Sharing names log' := by
  refine ⟨{ w with logs := w.logs.setIfInBounds 0 log' }, ?_, ?_, h.handles⟩
  · unfold Writers.write Writers.update
    rw [h.log? hname, h.handles, if_pos hname]
    exact FileAction.run_bind_ok hrun
  · rw [h.logs]
    rfl

/-- A handle that is not there is not written through. -/
theorem Writers.Sharing.write_absent {w : Writers} {names : List String} {log : RollingLog}
    (h : w.Sharing names log) {name : String} (hname : name ∉ names) (record : ByteArray)
    (v : Volume) : (w.write name record).run.run v = (.ok w, v) := by
  unfold Writers.write Writers.update
  rw [h.handles, if_neg hname]
  rfl

end Pinboard.Log
