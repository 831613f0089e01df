import OldPart.Lib.Context
import OldPart.Lib.MachineInt
import OldPart.Opc.GrepFile

/-!
# What `GrepFile` selects

The buffer holds the last lines that are not selected, as many as there is room for, and the one
that is read next.  With that, a run of the loop adds the matching lines, and every line that is in
the context of one, in order.  What `afterCount` is to begin with makes it take the first lines
for lines behind a match.
-/

namespace OldPart

section Lines

variable (pattern : Regex) (ls : List Str) (before after : ℕ)

/-- Line `k`, counted from zero, matches. -/
def Regex.Hits (k : ℕ) : Prop := ∃ line, ls[k]? = some line ∧ pattern.ranges line ≠ []

instance (k : ℕ) : Decidable (pattern.Hits ls k) :=
  match h : ls[k]? with
  | none => isFalse (by rintro ⟨line, hline, -⟩; rw [h] at hline; cases hline)
  | some line => decidable_of_iff (pattern.ranges line ≠ [])
      ⟨fun hne => ⟨line, h, hne⟩, by
        rintro ⟨line', hline', hne⟩
        rwa [← Option.some.inj (h.symm.trans hline')] at hne⟩

/-- What is reported of line `k` when it matches. -/
def Regex.lineResult (k : ℕ) : GrepLineResult :=
  ⟨.ofNat (k + 1), (pattern.ranges (ls.getD k [])).map GrepMatchRange.ofRange⟩

/-- What is reported of line `k` when it is selected for match `j`. -/
def selectedLine (k : ℕ) (j : ℤ) : SelectedGrepLine := ⟨.ofNat (k + 1), .ofInt j, ls.getD k []⟩

/-- The matches among the first `n` lines. -/
def Regex.matchesOf (n : ℕ) : List GrepLineResult :=
  ((List.range n).filter (pattern.Hits ls)).map (pattern.lineResult ls)

lemma not_hits_of_nil {pattern : Regex} {ls : List Str} {k : ℕ} {line : Str}
    (hline : ls[k]? = some line) (hnil : pattern.ranges line = []) : ¬pattern.Hits ls k := by
  rintro ⟨line', hline', hne⟩
  obtain rfl := Option.some.inj (hline.symm.trans hline')
  exact hne hnil

/-- The lines among the first `n` that are selected, when the first `start` lines count as lines
behind a match. -/
def Regex.selectedOf (start n : ℕ) : List SelectedGrepLine :=
  (List.range n).filterMap fun k =>
    (Context.owner (pattern.Hits ls) before after start k).map (selectedLine ls k)

/-- Line `k` as it waits in the buffer. -/
def waiting (k : ℕ) : GrepTrace := ⟨.ofNat (k + 1), false, ls.getD k []⟩

end Lines

section Lines

variable {pattern : Regex} {ls : List Str} {before after start : ℕ}

lemma Regex.matchesOf_succ_of_hit {p : ℕ} (h : pattern.Hits ls p) :
    pattern.matchesOf ls (p + 1) = pattern.matchesOf ls p ++ [pattern.lineResult ls p] := by
  rw [matchesOf, List.range_succ, List.filter_append, List.map_append,
    List.filter_cons_of_pos (by simpa using h)]
  rfl

lemma Regex.matchesOf_succ_of_not_hit {p : ℕ} (h : ¬pattern.Hits ls p) :
    pattern.matchesOf ls (p + 1) = pattern.matchesOf ls p := by
  rw [matchesOf, List.range_succ, List.filter_append, List.map_append,
    List.filter_cons_of_neg (by simpa using h)]
  exact List.append_nil _

/-- More lines that are selected for the same match. -/
lemma Regex.selectedOf_add {m k : ℕ} {j : ℤ} (h : ∀ q, m ≤ q → q < m + k →
      Context.owner (pattern.Hits ls) before after start q = some j) :
    pattern.selectedOf ls before after start (m + k) =
      pattern.selectedOf ls before after start m ++
        (List.range' m k).map fun q => selectedLine ls q j := by
  rw [selectedOf, selectedOf, List.range_eq_range', List.range_eq_range',
    ← List.range'_append_1, List.filterMap_append, Nat.zero_add, ← List.filterMap_eq_map]
  congr 1
  refine List.filterMap_congr fun q hq => ?_
  obtain ⟨hle, hlt⟩ := List.mem_range'_1.mp hq
  rw [h q hle hlt]
  rfl

/-- More lines that are not selected. -/
lemma Regex.selectedOf_add_of_none {m k : ℕ} (h : ∀ q, m ≤ q → q < m + k →
      Context.owner (pattern.Hits ls) before after start q = none) :
    pattern.selectedOf ls before after start (m + k) =
      pattern.selectedOf ls before after start m := by
  induction k with
  | zero => rfl
  | succ k ih =>
    rw [← ih fun q hle hlt => h q hle (by omega), selectedOf, selectedOf, ← Nat.add_assoc,
      List.range_succ, List.filterMap_append, List.filterMap_cons_none]
    · exact List.append_nil _
    · rw [h (m + k) (by omega) (by omega)]
      rfl

end Lines

/-! ## One line -/

section Turn

variable {pattern : Regex} {ls : List Str} {before after p b : ℕ} {r : GrepFileResponse}
  {w : GrepState}

/-- The response after the first `p` lines, of which the last `b` wait. -/
def Regex.responseAt (pattern : Regex) (ls : List Str) (before after : ℕ) (r : GrepFileResponse)
    (p b : ℕ) : GrepFileResponse :=
  { r with
    «matches» := r.matches ++ pattern.matchesOf ls p
    selectedLines := r.selectedLines ++ pattern.selectedOf ls before after after (p - b) }

/-- The variables in front of line `p`, when the last `b` lines wait. -/
structure GrepState.At (pattern : Regex) (ls : List Str) (before after : ℕ) (r : GrepFileResponse)
    (p b : ℕ) (w : GrepState) : Prop where
  lineNo : w.lineNo = .ofNat (p + 1)
  matchIndex : w.matchIndex = .ofInt (Nat.count (pattern.Hits ls) p - 1)
  afterCount : w.afterCount =
    .ofNat (Context.behindEnd (pattern.Hits ls) after after p - p)
  capacity : w.beforeBuffer.capacity = before + 1
  buffer : w.beforeBuffer.elems = (List.range' (p - b) b).map (waiting ls) ++ [.new]
  le_before : b ≤ before
  le_pos : b ≤ p
  passed : ∀ q, p - b ≤ q → q < p →
    ¬pattern.Hits ls q ∧ Context.behindEnd (pattern.Hits ls) after after q ≤ q
  pResponse : w.pResponse = pattern.responseAt ls before after r p b

lemma foldl_select (matchIndex : Int32) (ts : List GrepTrace) (r : GrepFileResponse) :
    ts.foldl (fun r t => r.select matchIndex t) r = { r with
      selectedLines := r.selectedLines ++ ts.map fun t => ⟨t.lineNo, matchIndex, t.line⟩ } := by
  induction ts generalizing r with
  | nil => simp
  | cons t ts ih =>
    rw [List.foldl_cons, ih]
    simp [GrepFileResponse.select]

/-- The buffer with the line that is read in its last place. -/
def GrepState.read (w : GrepState) (line : Str) : Ring GrepTrace :=
  w.beforeBuffer.modifyBack fun t => { t with lineNo := w.lineNo, line := line }

@[simp] lemma GrepState.capacity_read (line : Str) :
    (w.read line).capacity = w.beforeBuffer.capacity := rfl

/-- A turn with a line that matches. -/
lemma GrepState.turn_eq_matched {after' : Int32} {line : Str} (hne : pattern.ranges line ≠ []) :
    w.turn pattern after' line =
      { lineNo := w.lineNo + 1
        matchIndex := w.matchIndex + 1
        afterCount := after'
        beforeBuffer := (w.read line).popAll.pushBack .new
        pResponse := { w.pResponse with
          «matches» := w.pResponse.matches ++
            [⟨w.lineNo, (pattern.ranges line).map GrepMatchRange.ofRange⟩]
          selectedLines := w.pResponse.selectedLines ++
            ((w.read line).modifyBack fun t => { t with matched := true }).elems.map
              fun t => ⟨t.lineNo, w.matchIndex + 1, t.line⟩ } } := by
  simp only [turn, if_pos hne, matched, foldl_select]
  rfl

/-- A turn with a line that is taken for one behind a match. -/
lemma GrepState.turn_eq_behind {after' : Int32} {line : Str} (hnil : pattern.ranges line = [])
    (hcount : w.afterCount > 0) :
    w.turn pattern after' line =
      { lineNo := w.lineNo + 1
        matchIndex := w.matchIndex
        afterCount := w.afterCount - 1
        beforeBuffer := (w.read line).popFront.pushBack .new
        pResponse := (w.read line).elems.head?.elim w.pResponse
          (w.pResponse.select w.matchIndex) } := by
  have hne : ¬pattern.ranges line ≠ [] := not_not.mpr hnil
  simp only [turn, if_neg hne, if_pos hcount, behind]
  rfl

/-- A turn with a line that waits. -/
lemma GrepState.turn_eq_waits {after' : Int32} {line : Str} (hnil : pattern.ranges line = [])
    (hcount : ¬w.afterCount > 0) :
    w.turn pattern after' line =
      { w with
        lineNo := w.lineNo + 1
        beforeBuffer := (w.read line).pushBack .new } := by
  have hne : ¬pattern.ranges line ≠ [] := not_not.mpr hnil
  simp only [turn, if_neg hne, if_neg hcount]
  rfl

namespace GrepState.At

/-- Before the first line nothing waits. -/
lemma start {before after : Int32} (hbefore : 0 ≤ before) (hlt : 0 ≤ before + 1)
    (hafter : 0 ≤ after) (r : GrepFileResponse) :
    (GrepState.start before after r).At pattern ls before.toNatClampNeg after.toNatClampNeg r
      0 0 where
  lineNo := rfl
  matchIndex := rfl
  afterCount := (Int32.ofNat_toNatClampNeg after hafter).symm
  capacity := toNatClampNeg_add_one hbefore hlt
  buffer := by
    refine Ring.elems_pushBack_of_nil rfl GrepTrace.new ?_
    rw [Ring.empty, toNatClampNeg_add_one hbefore hlt]
    exact Nat.succ_pos _
  le_before := Nat.zero_le _
  le_pos := Nat.le_refl 0
  passed q _ hlt := (Nat.not_lt_zero q hlt).elim
  pResponse := by simp [GrepState.start, Regex.responseAt, Regex.matchesOf, Regex.selectedOf]

variable (h : w.At pattern ls before after r p b)
include h

/-- What waits is selected for the next match, and so is its own line. -/
lemma owner_of_waiting (hhit : pattern.Hits ls p) :
    ∀ q, p - b ≤ q → q < p - b + (b + 1) →
      Context.owner (pattern.Hits ls) before after after q =
        some (Nat.count (pattern.Hits ls) p : ℤ) := by
  intro q hle hlt
  have hroom := h.le_before
  have hpos := h.le_pos
  obtain rfl | hlt := Nat.eq_or_lt_of_le (by omega : q ≤ p)
  · exact Context.owner_of_hit hhit
  · obtain ⟨hnot, hend⟩ := h.passed q hle hlt
    have hahead : Context.Ahead (pattern.Hits ls) before q := ⟨p, hlt, by omega, hhit⟩
    have hcount := Context.count_eq_of_no_hit hlt.le fun i hi hip => (h.passed i (by omega) hip).1
    rw [Context.owner, if_neg hnot, if_neg (by omega), if_pos hahead, hcount]

/-- Nothing waits behind a match. -/
lemma none_waiting (hbehind : p < Context.behindEnd (pattern.Hits ls) after after p) : b = 0 := by
  by_contra hne
  have hle := h.le_pos
  obtain ⟨hnot, hend⟩ := h.passed (p - 1) (by omega) (by omega)
  obtain ⟨q, rfl⟩ : ∃ q, p = q + 1 := ⟨p - 1, by omega⟩
  rw [Nat.add_sub_cancel] at hnot hend
  rw [Context.behindEnd, if_neg hnot] at hbehind
  omega

/-- The line that is read is the last in the buffer. -/
lemma elems_read {line : Str} (hline : ls[p]? = some line) :
    (w.read line).elems = (List.range' (p - b) (b + 1)).map (waiting ls) := by
  have hpos : p - b + 1 * b = p := by
    rw [Nat.one_mul, Nat.sub_add_cancel h.le_pos]
  have hget : ls.getD p [] = line := by
    rw [List.getD_eq_getElem?_getD, hline]
    rfl
  rw [read, Ring.elems_modifyBack h.buffer, List.range'_concat, List.map_append,
    List.map_singleton, hpos, waiting, h.lineNo, hget]
  rfl

lemma next_lineNo : w.lineNo + 1 = .ofNat (p + 1 + 1) := by
  rw [h.lineNo]
  exact (Int32.ofNat_add (p + 1) 1).symm

lemma lineResult_eq {line : Str} (hline : ls[p]? = some line) :
    (⟨w.lineNo, (pattern.ranges line).map GrepMatchRange.ofRange⟩ : GrepLineResult) =
      pattern.lineResult ls p := by
  rw [Regex.lineResult, List.getD_eq_getElem?_getD, hline, h.lineNo]
  rfl

lemma next_matchIndex :
    w.matchIndex + 1 = .ofInt (Nat.count (pattern.Hits ls) p) := by
  rw [h.matchIndex]
  exact (Int32.ofInt_add _ 1).symm.trans (by rw [sub_add_cancel])

/-- A match selects what waits, and its own line. -/
lemma selects_buffer {line : Str} (hline : ls[p]? = some line) :
    ((w.read line).modifyBack fun t => { t with matched := true }).elems.map
        (fun t => (⟨t.lineNo, w.matchIndex + 1, t.line⟩ : SelectedGrepLine)) =
      (List.range' (p - b) (b + 1)).map fun q =>
        selectedLine ls q (Nat.count (pattern.Hits ls) p) := by
  have hread := h.elems_read hline
  rw [List.range'_concat, List.map_append, List.map_singleton] at hread
  rw [Ring.elems_modifyBack hread, h.next_matchIndex, List.map_append, List.map_map,
    List.range'_concat, List.map_append]
  rfl

/-- A line that matches. -/
lemma turn_of_hit {after' : Int32} (hafter : 0 ≤ after') (hsame : after = after'.toNatClampNeg)
    {line : Str} (hline : ls[p]? = some line) (hne : pattern.ranges line ≠ []) :
    (w.turn pattern after' line).At pattern ls before after r (p + 1) 0 := by
  have hhit : pattern.Hits ls p := ⟨line, hline, hne⟩
  have hle := h.le_pos
  rw [turn_eq_matched hne]
  refine ⟨h.next_lineNo, ?_, ?_, h.capacity, ?_, Nat.zero_le _, Nat.zero_le _, by omega, ?_⟩
  · rw [h.next_matchIndex, Nat.count_succ, if_pos hhit, Nat.cast_add, Nat.cast_one,
      add_sub_cancel_right]
  · rw [Context.behindEnd, if_pos hhit, Nat.add_sub_cancel_left, hsame,
      Int32.ofNat_toNatClampNeg after' hafter]
  · refine Ring.elems_pushBack_of_nil rfl GrepTrace.new ?_
    rw [Ring.capacity_popAll, capacity_read, h.capacity]
    exact Nat.succ_pos _
  · have hselected := Regex.selectedOf_add (h.owner_of_waiting hhit)
    rw [(by omega : p - b + (b + 1) = p + 1)] at hselected
    rw [h.selects_buffer hline, h.pResponse, h.lineResult_eq hline]
    simp only [Regex.responseAt, Nat.sub_zero, Regex.matchesOf_succ_of_hit hhit, hselected,
      List.append_assoc]

/-- A line behind a match. -/
lemma turn_of_behind (hafter : after < 2 ^ 31) {after' : Int32} {line : Str}
    (hline : ls[p]? = some line) (hnil : pattern.ranges line = [])
    (hbehind : p < Context.behindEnd (pattern.Hits ls) after after p) :
    (w.turn pattern after' line).At pattern ls before after r (p + 1) 0 := by
  obtain rfl := h.none_waiting hbehind
  have hnot : ¬pattern.Hits ls p := not_hits_of_nil hline hnil
  have hend : Context.behindEnd (pattern.Hits ls) after after p ≤ p + after :=
    Context.behindEnd_le le_rfl p
  have hcount : w.afterCount > 0 := by
    rw [h.afterCount, gt_iff_lt, ofNat_pos (by omega)]
    omega
  have hread := h.elems_read hline
  rw [turn_eq_behind hnil hcount]
  refine ⟨h.next_lineNo, ?_, ?_, h.capacity, ?_, Nat.zero_le _, Nat.zero_le _, by omega, ?_⟩
  · rw [h.matchIndex, Nat.count_succ, if_neg hnot, Nat.add_zero]
  · rw [h.afterCount, Context.behindEnd, if_neg hnot, ← Nat.sub_sub]
    exact (Int32.ofNat_sub _ 1 (by omega)).symm
  · refine Ring.elems_pushBack_of_nil ?_ GrepTrace.new ?_
    · rw [Ring.elems_popFront, hread]
      rfl
    · rw [Ring.capacity_popFront, capacity_read, h.capacity]
      exact Nat.succ_pos _
  · have howner : ∀ q, p ≤ q → q < p + 1 → Context.owner (pattern.Hits ls) before after after q =
        some ((Nat.count (pattern.Hits ls) p : ℤ) - 1) := by
      intro q hle hlt
      obtain rfl : q = p := by omega
      rw [Context.owner, if_neg hnot, if_pos hbehind]
    simp only [hread, h.pResponse, h.matchIndex, Regex.responseAt, Nat.sub_zero,
      Regex.matchesOf_succ_of_not_hit hnot, Regex.selectedOf_add howner]
    rw [← List.append_assoc]
    rfl

/-- A line that is not behind a match waits. -/
lemma turn_of_waits {after' : Int32} {line : Str}
    (hline : ls[p]? = some line) (hnil : pattern.ranges line = [])
    (hbehind : Context.behindEnd (pattern.Hits ls) after after p ≤ p) :
    (w.turn pattern after' line).At pattern ls before after r (p + 1) (min (b + 1) before) := by
  have hnot : ¬pattern.Hits ls p := not_hits_of_nil hline hnil
  have hcount : ¬w.afterCount > 0 := by
    rw [h.afterCount, gt_iff_lt, ofNat_pos (by omega)]
    omega
  have hread := h.elems_read hline
  have hle := h.le_pos
  have hroom := h.le_before
  have hpassed : ∀ q, p - b ≤ q → q < p + 1 →
      ¬pattern.Hits ls q ∧ Context.behindEnd (pattern.Hits ls) after after q ≤ q := by
    intro q hq hlt
    obtain rfl | hlt := Nat.eq_or_lt_of_le (Nat.le_of_lt_succ hlt)
    · exact ⟨hnot, hbehind⟩
    · exact h.passed q hq hlt
  rw [turn_eq_waits hnil hcount]
  refine ⟨h.next_lineNo, ?_, ?_, h.capacity, ?_, min_le_right _ _, by omega,
    fun q hq hlt => hpassed q (by omega) hlt, ?_⟩
  · rw [h.matchIndex, Nat.count_succ, if_neg hnot, Nat.add_zero]
  · rw [h.afterCount, Context.behindEnd, if_neg hnot]
    congr 1
    omega
  · have hcapacity := h.capacity
    rw [Ring.elems_pushBack _ _ (by rw [capacity_read]; omega), hread, capacity_read, hcapacity,
      List.length_map, List.length_range', ← List.map_drop, List.drop_range']
    congr 3
    · omega
    · omega
  · rw [h.pResponse, Regex.responseAt, Regex.responseAt, Regex.matchesOf_succ_of_not_hit hnot]
    by_cases hfull : b + 1 ≤ before
    · rw [Nat.min_eq_left hfull, Nat.add_sub_add_right]
    · -- the first line that waits is too far in front of what comes next
      have hnone : ∀ q, p - b ≤ q → q < p - b + 1 →
          Context.owner (pattern.Hits ls) before after after q = none := by
        intro q hq hlt
        obtain ⟨hfirst, hend⟩ := hpassed q hq (by omega)
        have hahead : ¬Context.Ahead (pattern.Hits ls) before q := by
          rintro ⟨m, hlt, hm, hhit⟩
          exact (hpassed m (by omega) (by omega)).1 hhit
        rw [Context.owner, if_neg hfirst, if_neg (by omega), if_neg hahead]
      rw [Nat.min_eq_right (by omega), (by omega : p + 1 - before = p - b + 1),
        Regex.selectedOf_add_of_none hnone]

/-- One turn of the loop. -/
lemma turn {after' : Int32} (hafter : 0 ≤ after') (hsame : after = after'.toNatClampNeg)
    {line : Str} (hline : ls[p]? = some line) :
    ∃ b', (w.turn pattern after' line).At pattern ls before after r (p + 1) b' := by
  by_cases hne : pattern.ranges line = []
  · by_cases hbehind : p < Context.behindEnd (pattern.Hits ls) after after p
    · have hlt : after < 2 ^ 31 := hsame ▸ after'.toNatClampNeg_lt
      exact ⟨0, h.turn_of_behind hlt hline hne hbehind⟩
    · exact ⟨_, h.turn_of_waits hline hne (Nat.le_of_not_lt hbehind)⟩
  · exact ⟨0, h.turn_of_hit hafter hsame hline hne⟩

/-- What waits behind the last line is not selected. -/
lemma pResponse_of_end (hend : p = ls.length) :
    w.pResponse = pattern.responseAt ls before after r ls.length 0 := by
  have hle := h.le_pos
  have hnone : ∀ q, p - b ≤ q → q < p - b + b →
      Context.owner (pattern.Hits ls) before after after q = none := by
    intro q hq hlt
    obtain ⟨hnot, hpast⟩ := h.passed q hq (by omega)
    have hahead : ¬Context.Ahead (pattern.Hits ls) before q := by
      rintro ⟨m, hgt, -, hhit⟩
      by_cases hm : m < p
      · exact (h.passed m (by omega) hm).1 hhit
      · obtain ⟨line, hline, -⟩ := hhit
        obtain ⟨hlt', -⟩ := List.getElem?_eq_some_iff.mp hline
        omega
    rw [Context.owner, if_neg hnot, if_neg (by omega), if_neg hahead]
  have hselected := Regex.selectedOf_add_of_none hnone
  rw [Nat.sub_add_cancel hle] at hselected
  rw [h.pResponse, Regex.responseAt, Regex.responseAt, ← hselected, ← hend, Nat.sub_zero]

end GrepState.At

/-- The loop over the lines that are left. -/
lemma GrepState.At.foldl {after' : Int32} (hafter : 0 ≤ after')
    (hsame : after = after'.toNatClampNeg) {xs : List Str} (hxs : ls.drop p = xs)
    (hle : p ≤ ls.length)
    (h : w.At pattern ls before after r p b) :
    (xs.foldl (GrepState.turn pattern after') w).pResponse =
      pattern.responseAt ls before after r ls.length 0 := by
  induction xs generalizing p b w with
  | nil =>
    have hlen := List.drop_eq_nil_iff.mp hxs
    exact h.pResponse_of_end (by omega)
  | cons line xs ih =>
    have hline : ls[p]? = some line := by
      rw [← List.head?_drop, hxs]
      rfl
    have hrest : ls.drop (p + 1) = xs := by
      rw [← List.drop_drop, hxs]
      rfl
    obtain ⟨hlt, -⟩ := List.getElem?_eq_some_iff.mp hline
    obtain ⟨b', hturn⟩ := h.turn hafter hsame hline
    exact ih hrest hlt hturn

end Turn

/-! ## A file -/

/-- The lines of a file. -/
def Host.lines (h : Host) (p : Str) : List Str := getLines [] ((h.fs.content p).getD [])

/-- `GrepFile` adds the matching lines, and the lines that are selected when the first `after`
count as lines behind a match. -/
theorem grepFile_eq (h : Host) (r : GrepFileResponse) (p spattern : Str) {before after : Int32}
    (hbefore : 0 ≤ before) (hlt : 0 ≤ before + 1) (hafter : 0 ≤ after) {pattern : Regex}
    (hcompile : h.compile spattern = .ok pattern) :
    grepFile h r p spattern before after = .done
      { r with
        «matches» := r.matches ++ pattern.matchesOf (h.lines p) (h.lines p).length
        selectedLines := r.selectedLines ++ pattern.selectedOf (h.lines p) before.toNatClampNeg
          after.toNatClampNeg after.toNatClampNeg (h.lines p).length } := by
  have hroom : ¬before + 1 < 0 := Int32.not_lt.mpr hlt
  rw [grepFile, hcompile]
  simp only [if_neg hroom]
  exact congrArg Attempt.done ((GrepState.At.start hbefore hlt hafter r).foldl hafter rfl
    List.drop_zero (Nat.zero_le _))

end OldPart
