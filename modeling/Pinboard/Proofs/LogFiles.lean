import Pinboard.Log.Writers
import Pinboard.Proofs.Volume

/-!
# The files of a log

The active file and those that were set aside are siblings: their names have one beginning in
common, and all paths lead there by the same directories. So what stands at these places is all
there is to say of a log's directory, and it can be told by number: the active file is number 0,
the youngest that was set aside is number 1, and so on.
-/

namespace Pinboard.Files

/-! ## Paths with an ending -/

/-- A text without separators is one field. -/
theorem fields_of_not_mem {separator : Char} {cs : List Char} (h : separator ∉ cs) :
    Text.fields separator cs = [cs] := by
  induction cs with
  | nil => rfl
  | cons c cs ih =>
    have hc : c ≠ separator := fun hc => h (hc ▸ List.mem_cons_self)
    rw [Text.fields, ih fun hmem => h (List.mem_cons_of_mem _ hmem)]
    simp [hc]

/-- The fields of a text with more text behind it that holds no separator. -/
theorem fields_append (separator : Char) (cs : List Char) {ending : List Char}
    (hending : separator ∉ ending) :
    ∃ front last, Text.fields separator cs = front ++ [last] ∧
      Text.fields separator (cs ++ ending) = front ++ [last ++ ending] := by
  induction cs with
  | nil => exact ⟨[], [], rfl, fields_of_not_mem hending⟩
  | cons c cs ih =>
    obtain ⟨front, last, h1, h2⟩ := ih
    rw [List.cons_append, Text.fields, Text.fields, h1, h2]
    cases front with
    | nil =>
      by_cases hc : c = separator
      · exact ⟨[[]], last, by simp [hc], by simp [hc]⟩
      · exact ⟨[], c :: last, by simp [hc], by simp [hc]⟩
    | cons part parts =>
      by_cases hc : c = separator
      · exact ⟨[] :: part :: parts, last, by simp [hc], by simp [hc]⟩
      · exact ⟨(c :: part) :: parts, last, by simp [hc], by simp [hc]⟩

/-- What all paths with one beginning have in common, if what comes behind holds no slash. -/
theorem Path.ofText_append (text : String) : ∃ front stem, ∀ ending : String, ending ≠ "" →
    '/' ∉ ending.toList → Path.ofText (text ++ ending) =
      ⟨text.toList.head? = some '/', front ++ [stem ++ ending], false⟩ := by
  obtain ⟨front, last, hfields, -⟩ :=
    fields_append '/' text.toList List.not_mem_nil
  refine ⟨(front.filter (!·.isEmpty)).map String.ofList, String.ofList last,
    fun ending hne hslash => ?_⟩
  obtain ⟨front', last', hfields', happend⟩ :=
    fields_append '/' text.toList hslash
  obtain ⟨rfl, hlast⟩ := List.append_inj' (hfields'.symm.trans hfields) rfl
  obtain rfl : last' = last := by simpa using hlast
  have hlist : ending.toList ≠ [] := fun h => hne (String.toList_eq_nil_iff.mp h)
  obtain ⟨c, cs, hcs⟩ := List.exists_cons_of_ne_nil hlist
  have hhead : (text.toList ++ ending.toList).head? = some '/' ↔ text.toList.head? = some '/' := by
    cases htext : text.toList with
    | nil =>
      have hc : c ≠ '/' := by
        rintro rfl
        exact hslash (hcs ▸ List.mem_cons_self)
      simp [hcs, hc]
    | cons d ds => simp
  have htrailing : (text.toList ++ ending.toList).getLast? ≠ some '/' := by
    intro h
    rw [List.getLast?_append] at h
    cases hend : ending.toList.getLast? with
    | none => exact hlist (List.getLast?_eq_none_iff.mp hend)
    | some d =>
      rw [hend, Option.some_or] at h
      cases h
      exact hslash (List.mem_of_getLast? hend)
  have hname : [last' ++ ending.toList].filter (!·.isEmpty) = [last' ++ ending.toList] := by
    simp [hcs]
  unfold Path.ofText
  rw [String.toList_append]
  simp only [happend, List.filter_append, List.map_append, hhead, htrailing, decide_false, hname,
    List.map_cons, List.map_nil, String.ofList_append, String.ofList_toList]

/-- An ending goes to the name and not to the directory. -/
theorem join_append {dir name ending : String} (hne : ending ≠ "")
    (hslash : '/' ∉ ending.toList) : join dir (name ++ ending) = join dir name ++ ending := by
  have hlist : ending.toList ≠ [] := fun h => hne (String.toList_eq_nil_iff.mp h)
  obtain ⟨c, cs, hcs⟩ := List.exists_cons_of_ne_nil hlist
  have hhead : (name ++ ending).toList.head? = some '/' ↔ name.toList.head? = some '/' := by
    rw [String.toList_append]
    cases name.toList with
    | nil =>
      have hc : c ≠ '/' := by
        rintro rfl
        exact hslash (hcs ▸ List.mem_cons_self)
      simp [hcs, hc]
    | cons d ds => simp
  unfold join
  simp only [hhead]
  split
  · rfl
  split
  · rfl
  split
  · rw [String.append_assoc]
  · rw [← String.append_assoc]

end Pinboard.Files

namespace Pinboard.Log

open Files

/-! ## Names -/

/-- What the name of a log's file ends in. -/
def ending (i : Nat) : String := if i = 0 then ".log" else ".log." ++ i.repr

/-- The path of a log's file by number. -/
def filePath (dir appName : String) (i : Nat) : String :=
  if i = 0 then activePath dir appName else rotatedPath dir appName i

theorem toList_ending (i : Nat) : (ending i).toList =
    ['.', 'l', 'o', 'g'] ++ if i = 0 then [] else '.' :: Nat.toDigits 10 i := by
  unfold ending
  split
  · rfl
  · rw [String.toList_append, Nat.toList_repr]
    rfl

/-- An ending holds no characters but those of a number behind its constant beginning. -/
theorem not_mem_ending {c : Char} (hdigit : c.isDigit = false) (hlog : c ∉ ['.', 'l', 'o', 'g'])
    (i : Nat) : c ∉ (ending i).toList := by
  rw [toList_ending]
  split
  · simpa using hlog
  · intro h
    rcases List.mem_append.mp h with h | h
    · exact hlog h
    rcases List.mem_cons.mp h with rfl | h
    · exact hlog List.mem_cons_self
    · rw [Nat.isDigit_of_mem_toDigits (by decide) (by decide) h] at hdigit
      cases hdigit

theorem slash_not_mem_ending (i : Nat) : '/' ∉ (ending i).toList :=
  not_mem_ending (by decide) (by decide) i

theorem ending_ne_empty (i : Nat) : ending i ≠ "" := by
  intro h
  have := congrArg String.toList h
  rw [toList_ending] at this
  cases this

theorem ending_injective {i j : Nat} (h : ending i = ending j) : i = j := by
  have hlist := congrArg String.toList h
  rw [toList_ending, toList_ending, List.append_cancel_left_eq] at hlist
  by_cases hi : i = 0 <;> by_cases hj : j = 0
  · rw [hi, hj]
  · simp [hi, hj] at hlist
  · simp [hi, hj] at hlist
  · simp only [hi, hj, if_false, List.cons.injEq, true_and] at hlist
    have hnumber := congrArg (Nat.ofDigitChars 10 · 0) hlist
    simpa only [Nat.ofDigitChars_ten_toDigits] using hnumber

theorem filePath_eq (dir appName : String) (i : Nat) :
    filePath dir appName i = join dir appName ++ ending i := by
  rw [← join_append (ending_ne_empty i) (slash_not_mem_ending i)]
  unfold filePath ending
  split
  · rfl
  · unfold rotatedPath
    congr 1
    rw [← String.append_assoc]
    rfl

/-! ## Places -/

/-- Where the files of a log stand. -/
structure Rack where
  /-- Their directory. -/
  parent : Place
  /-- What all their names begin with. -/
  stem : String

namespace Rack

/-- The place of a file by number. -/
def place (r : Rack) (i : Nat) : Place := r.parent ++ [r.stem ++ ending i]

/-- No file up to a number stands on the way to a place, or there. -/
def Clear (r : Rack) (n : Nat) (q : Place) : Prop := ∀ i ≤ n, ¬ r.place i <+: q

variable {r : Rack}

theorem place_ne_nil (i : Nat) : r.place i ≠ [] := by
  simp [place]

theorem place_injective {i j : Nat} (h : r.place i = r.place j) : i = j := by
  unfold place at h
  rw [List.append_cancel_left_eq, List.cons.injEq, ← String.toList_inj, String.toList_append,
    String.toList_append, List.append_cancel_left_eq, String.toList_inj] at h
  exact ending_injective h.1

/-- No file of a log is below another. -/
theorem place_not_below {i j : Nat} (h : i ≠ j) : ¬ r.place i <+: r.place j := by
  intro hpre
  refine h (place_injective (hpre.eq_of_length ?_))
  simp [place]

theorem Clear.ne {n : Nat} {q : Place} (h : r.Clear n q) {i : Nat} (hi : i ≤ n) :
    q ≠ r.place i := by
  rintro rfl
  exact h i hi (List.prefix_refl _)

theorem Clear.dropLast {n : Nat} {q : Place} (h : r.Clear n q) : r.Clear n q.dropLast :=
  fun i hi hpre => h i hi (hpre.trans (List.dropLast_prefix q))

/-- A way that leads beyond the files leads through one of them. -/
theorem Clear.append {n : Nat} {q : Place} (h : r.Clear n q) {name : String}
    (hne : ∀ i ≤ n, r.place i ≠ q ++ [name]) : r.Clear n (q ++ [name]) := by
  intro i hi hpre
  rcases List.prefix_concat_iff.mp hpre with heq | hpre
  · exact hne i hi heq
  · exact h i hi hpre

/-- Neither the root nor the working directory is below a file of a log. -/
theorem clear_start (n : Nat) (absolute : Bool) :
    r.Clear n (if absolute = true then [] else home) := by
  have hdot : ∀ name ∈ home, '.' ∉ name.toList := by decide
  intro i hi hpre
  have hmem : r.stem ++ ending i ∈ if absolute = true then ([] : Place) else home :=
    hpre.subset (by simp [place])
  cases absolute with
  | true => cases hmem
  | false =>
    refine hdot _ hmem ?_
    rw [String.toList_append, toList_ending]
    simp

end Rack

/-! ## Ways -/

/-- A way that passes directories only does not pass a file of a log, unless that is a directory. -/
theorem clear_of_passed {r : Rack} {n : Nat} {v : Volume} {place : Place} {names : List String}
    (hstart : r.Clear n place) (hpassed : ∀ q ∈ Volume.passed place names,
      v.node? q = some .directory)
    (hrack : ∀ i ≤ n, v.node? (r.place i) ≠ some .directory) :
    ∀ q ∈ Volume.passed place names, r.Clear n q := by
  induction names generalizing place with
  | nil =>
    intro q hq
    cases hq
  | cons name names ih =>
    obtain ⟨hdir, hpassed⟩ := List.forall_mem_cons.mp hpassed
    have hnext : r.Clear n (Volume.next place name) := by
      unfold Volume.next at hdir ⊢
      split at hdir
      · rename_i hdot
        rw [if_pos hdot]
        exact hstart
      · rename_i hdot
        rw [if_neg hdot]
        split at hdir
        · rename_i hup
          rw [if_pos hup]
          exact hstart.dropLast
        · rename_i hup
          rw [if_neg hup]
          refine hstart.append fun i hi heq => ?_
          rw [← heq] at hdir
          exact hrack i hi hdir
    exact List.forall_mem_cons.mpr ⟨hnext, ih hnext hpassed⟩

/-- All paths to the files of a log go by the same names, up to the last. -/
theorem exists_names (dir appName : String) : ∃ absolute front stem, ∀ i,
    Path.ofText (filePath dir appName i) = ⟨absolute, front ++ [stem ++ ending i], false⟩ := by
  obtain ⟨front, stem, hpath⟩ := Path.ofText_append (join dir appName)
  refine ⟨decide ((join dir appName).toList.head? = some '/'), front, stem, fun i => ?_⟩
  rw [filePath_eq, hpath (ending i) (ending_ne_empty i) (slash_not_mem_ending i)]

/-- No name of a file is made of dots only. -/
theorem name_ne_dots (stem : String) (i : Nat) :
    stem ++ ending i ≠ "." ∧ stem ++ ending i ≠ ".." := by
  have hlog : 'l' ∈ (stem ++ ending i).toList := by
    rw [String.toList_append, toList_ending]
    simp
  refine ⟨?_, ?_⟩ <;> intro h <;> rw [h] at hlog <;> revert hlog <;> decide

/-- The files of a log are siblings. -/
theorem locate_filePath {dir appName stem : String} {absolute : Bool} {front : List String}
    {v : Volume} {t : Volume.Target} {i : Nat}
    (hpath : Path.ofText (filePath dir appName i) = ⟨absolute, front ++ [stem ++ ending i], false⟩)
    (h : v.locate (filePath dir appName i) = .ok t) :
    ∃ d, v.walk (if absolute = true then [] else home) front = .ok d ∧
      t = ⟨(Rack.mk d stem).place i, false⟩ := by
  obtain ⟨hdot, hup⟩ := name_ne_dots stem i
  have hlast : (Path.ofText (filePath dir appName i)).names.getLast? = some (stem ++ ending i) := by
    rw [hpath]
    exact List.getLast?_concat
  obtain ⟨d, hwalk, ht⟩ := Volume.approach_eq_ok (Volume.locate_eq_ok.mp h).1 hlast
  rw [hpath] at hwalk ht
  simp only [List.dropLast_concat, if_neg hdot, if_neg hup] at hwalk ht
  exact ⟨d, hwalk, ht⟩

/-! ## A volume with the places of a log -/

/-- The files of a log up to a number can be reached, and their places are not on the way. -/
structure Rack.Reached (r : Rack) (dir appName : String) (n : Nat) (v : Volume) : Prop where
  /-- No file is on the way to another. -/
  passes : ∀ i, ∀ q ∈ Volume.passes (filePath dir appName i), r.Clear n q
  /-- The paths lead to the places. -/
  locate : ∀ i ≤ n, v.locate (filePath dir appName i) = .ok ⟨r.place i, false⟩

/-- Only at the places of a log and below them can two volumes differ. -/
def Rack.Apart (r : Rack) (n : Nat) (v v' : Volume) : Prop :=
  ∀ q, r.Clear n q → v'.node? q = v.node? q

/-- The places of a log can be told by the volume, if the names of its files can be followed, and
either none of them is a directory or the way there never turns back. -/
theorem exists_reached {dir appName : String} {n : Nat} {v : Volume}
    (hnames : ∀ i ≤ n, (v.locate (filePath dir appName i)).isOk = true)
    (hway : (∀ i ≤ n, v.isDirectory (filePath dir appName i) = false) ∨
      ".." ∉ (Path.ofText (activePath dir appName)).names) :
    ∃ r : Rack, r.Reached dir appName n v := by
  obtain ⟨absolute, front, stem, hpath⟩ := exists_names dir appName
  have hlocate : ∀ i ≤ n, ∃ d, v.walk (if absolute = true then [] else home) front = .ok d ∧
      v.locate (filePath dir appName i) = .ok ⟨(Rack.mk d stem).place i, false⟩ := by
    intro i hi
    have hok := hnames i hi
    cases ht : v.locate (filePath dir appName i) with
    | error e =>
      rw [ht] at hok
      cases hok
    | ok t =>
      obtain ⟨d, hwalk, rfl⟩ := locate_filePath (hpath i) ht
      exact ⟨d, hwalk, rfl⟩
  obtain ⟨d, hwalk, -⟩ := hlocate 0 (Nat.zero_le n)
  have hplaces : ∀ i ≤ n,
      v.locate (filePath dir appName i) = .ok ⟨(Rack.mk d stem).place i, false⟩ := by
    intro i hi
    obtain ⟨d', hwalk', hi⟩ := hlocate i hi
    cases hwalk.symm.trans hwalk'
    exact hi
  refine ⟨⟨d, stem⟩, fun i => ?_, hplaces⟩
  have hpasses : Volume.passes (filePath dir appName i) =
      Volume.passed (if absolute = true then [] else home) front := by
    unfold Volume.passes
    rw [hpath]
    simp only [List.dropLast_concat]
  rw [hpasses]
  rcases hway with hfiles | hup
  · refine clear_of_passed (Rack.clear_start n absolute) (Volume.directory_of_passed hwalk) ?_
    intro j hj hdir
    have hfile := hfiles j hj
    unfold Volume.isDirectory at hfile
    rw [Volume.find?_of_locate (hplaces j hj), hdir] at hfile
    cases hfile
  · have hactive := hpath 0
    rw [show filePath dir appName 0 = activePath dir appName from rfl] at hactive
    rw [hactive] at hup
    have hfront : ".." ∉ front := fun h => hup (List.mem_append_left _ h)
    intro q hq j hj hpre
    have hdown := (Volume.prefix_of_passed hwalk hfront).2 q hq
    have hlength := (hpre.trans hdown).length_le
    simp only [Rack.place, List.length_append, List.length_singleton] at hlength
    omega

namespace Rack

variable {r : Rack} {dir appName : String} {n i j : Nat} {v v' v'' : Volume}

theorem Apart.refl (r : Rack) (n : Nat) (v : Volume) : r.Apart n v v := fun _ _ => rfl

theorem Apart.trans (h : r.Apart n v v') (h' : r.Apart n v' v'') : r.Apart n v v'' :=
  fun q hq => (h' q hq).trans (h q hq)

/-- What happens at the places of a log does not change the ways to them. -/
theorem Reached.of_apart (h : r.Reached dir appName n v) (ha : r.Apart n v v') :
    r.Reached dir appName n v' :=
  ⟨h.passes, fun i hi =>
    Volume.locate_congr (h.locate i hi) fun q hq => ha q (h.passes i q hq)⟩

theorem apart_erase (hi : i ≤ n) : r.Apart n v (v.erase (r.place i)) := by
  intro q hq
  rw [Volume.node?_erase v (place_ne_nil i), if_neg (hq.ne hi)]

theorem apart_insert {node : Node} (hi : i ≤ n) (hfree : v.node? (r.place i) = none) :
    r.Apart n v (v.insert (r.place i) node) := by
  intro q hq
  rw [Volume.node?_insert hfree, if_neg (hq.ne hi)]

theorem apart_moveNode (hi : i ≤ n) (hj : j ≤ n) :
    r.Apart n v (v.moveNode (r.place i) (r.place j)) :=
  fun _ hq => Volume.node?_moveNode_other v (hq i hi) (hq j hj)

/-- Other contents do not change what stands where. -/
theorem node?_contents (v : Volume) (contents : Array ByteArray) (q : Place) :
    Volume.node? { v with contents := contents } q = v.node? q := by
  cases q <;> rfl

theorem apart_contents (contents : Array ByteArray) :
    r.Apart n v { v with contents := contents } := fun q _ => node?_contents v contents q

theorem node?_erase_place (v : Volume) (i k : Nat) : (v.erase (r.place i)).node? (r.place k) =
    if k = i then none else v.node? (r.place k) := by
  rw [Volume.node?_erase v (place_ne_nil i)]
  by_cases hk : k = i
  · rw [if_pos hk, if_pos (by rw [hk])]
  · rw [if_neg hk, if_neg (mt place_injective hk)]

theorem node?_insert_place {node : Node} (hfree : v.node? (r.place i) = none) (k : Nat) :
    (v.insert (r.place i) node).node? (r.place k) =
      if k = i then some node else v.node? (r.place k) := by
  rw [Volume.node?_insert hfree]
  by_cases hk : k = i
  · rw [if_pos hk, if_pos (by rw [hk])]
  · rw [if_neg hk, if_neg (mt place_injective hk)]

theorem node?_moveNode_place (hij : i ≠ j) (hfree : v.node? (r.place j) = none) (k : Nat) :
    (v.moveNode (r.place i) (r.place j)).node? (r.place k) =
      if k = j then v.node? (r.place i) else if k = i then none else v.node? (r.place k) := by
  by_cases hkj : k = j
  · rw [if_pos hkj, hkj, Volume.node?_moveNode_target v (place_ne_nil i) hfree]
  rw [if_neg hkj]
  by_cases hki : k = i
  · rw [if_pos hki, hki,
      Volume.node?_moveNode_source v (place_ne_nil i) (place_not_below (Ne.symm hij))]
  · rw [if_neg hki, Volume.node?_moveNode_other v (place_not_below (Ne.symm hki))
      (place_not_below (Ne.symm hkj))]

end Rack

end Pinboard.Log
