import OldPart.Opc.GrepCorrect

/-!
# The context `GrepFile` shows

A selected line carries the index of a match that it is near to, and no line that is near to a
match is left out or comes twice.  The first lines of a file are taken for lines behind a match
there has not been, and carry the index `-1`.

Line numbers and ranges are reported as `int32_t`.
-/

namespace OldPart

/-! ## A few files -/

/-- What is found under a path. -/
inductive Node where
  | file (content : List UInt8)
  | directory (entries : List Str)
deriving DecidableEq, Repr

/-- `ENOENT`, and what an answer to a call is called when there is nothing under the path. -/
def FilesystemError.notFound : FilesystemError :=
  ⟨2, by decide, .literal "No such file or directory"⟩

/-- What `fs::file_size` throws for a directory. -/
def FilesystemError.notRegular : FilesystemError :=
  ⟨38, by decide, .literal "Function not implemented"⟩

/-- What `fs::directory_iterator` throws for a file. -/
def FilesystemError.notDirectory : FilesystemError :=
  ⟨20, by decide, .literal "Not a directory"⟩

/-- A file system with some nodes, all of which can be read, and none is a link. -/
def FileSystem.ofNodes (nodes : Str → Option Node) : FileSystem where
  status p :=
    match nodes p with
    | none => .ok .fileNotFound
    | some (.file _) => .ok .regularFile
    | some (.directory _) => .ok .directoryFile
  fileSize p :=
    match nodes p with
    | none => .error .notFound
    | some (.file content) => .ok (.ofNat content.length)
    | some (.directory _) => .error .notRegular
  lastWriteTime p := if (nodes p).isSome then .ok 0 else .error .notFound
  isSymlink _ := .ok false
  readSymlink _ := .error .notFound
  directory p :=
    match nodes p with
    | none => ⟨[], some .notFound⟩
    | some (.file _) => ⟨[], some .notDirectory⟩
    | some (.directory entries) => ⟨entries, none⟩
  content p :=
    match nodes p with
    | none => none
    | some (.file content) => some content
    | some (.directory _) => some []

/-- The pattern that is a single letter. -/
def Regex.ofLetter (c : UInt8) : Regex where
  search text := text.contains c
  ranges line := (line.zipIdx.filter fun x => x.1 == c).map fun x => (x.2, x.2 + 1)

/-- Such a file system, and patterns of a single letter. -/
def Host.ofNodes (nodes : Str → Option Node) : Host where
  fs := .ofNodes nodes
  compile
    | [c] => .ok (.ofLetter c)
    | _ => .error (.literal "not a letter")

/-- The line `a`, under `f`. -/
def oneLine : Host := .ofNodes fun p => if p = [102] then some (.file [97, 10]) else none

/-- The lines `a`, `b`, `b`, `a` and `b`, under `f`. -/
def fiveLines : Host := .ofNodes fun p =>
  if p = [102] then some (.file [97, 10, 98, 10, 98, 10, 97, 10, 98, 10]) else none

/-! ## Stray lines -/

/-- Every line that is selected carries the index of a match, and lies at most `before` lines in
front of it or `after` lines behind it. -/
def NoStrays (before after : Int32) (r : GrepFileResponse) : Prop :=
  ∀ e ∈ r.selectedLines, 0 ≤ e.matchIndex ∧ ∃ m, r.matches[e.matchIndex.toNatClampNeg]? = some m ∧
    m.lineNo.toInt ≤ e.lineNo.toInt + before.toInt ∧ e.lineNo.toInt ≤ m.lineNo.toInt + after.toInt

/-- How often `int32_t` has been gone through when line `k`, counted from zero, is numbered. -/
def lineRound (k : ℕ) : ℕ := (k + 1 + 2 ^ 31) / 2 ^ 32

/-- The file begins with a match, or no lines behind a match are asked for.  It has no more matches
than `int32_t` has indices, and no line is selected for a match that `int32_t` numbers in another
round. -/
structure GrepsPlainly (pattern : Regex) (ls : List Str) (before after : ℕ) : Prop where
  first : after = 0 ∨ ls = [] ∨ pattern.Hits ls 0
  count : Nat.count (pattern.Hits ls) ls.length ≤ 2 ^ 31
  rounds : ∀ k < ls.length, ∀ m, pattern.Hits ls m →
    Context.owner (pattern.Hits ls) before after 0 k =
        some (Nat.count (pattern.Hits ls) m : ℤ) →
      lineRound k = lineRound m

section Lines

variable {pattern : Regex} {ls : List Str} {before after start : ℕ}

lemma Regex.Hits.lt_length {k : ℕ} (h : pattern.Hits ls k) : k < ls.length := by
  obtain ⟨line, hline, -⟩ := h
  exact (List.getElem?_eq_some_iff.mp hline).1

/-- A match is reported under its index. -/
lemma Regex.getElem?_matchesOf {m : ℕ} (h : pattern.Hits ls m) :
    (pattern.matchesOf ls ls.length)[Nat.count (pattern.Hits ls) m]? =
      some (pattern.lineResult ls m) := by
  rw [matchesOf, List.getElem?_map, Context.getElem?_filter_range h.lt_length h]
  rfl

lemma Regex.mem_selectedOf {n : ℕ} {e : SelectedGrepLine} :
    e ∈ pattern.selectedOf ls before after start n ↔ ∃ k < n, ∃ j,
      Context.owner (pattern.Hits ls) before after start k = some j ∧ selectedLine ls k j = e := by
  rw [selectedOf, List.mem_filterMap]
  constructor
  · rintro ⟨k, hk, he⟩
    obtain ⟨j, hj, rfl⟩ := Option.map_eq_some_iff.mp he
    exact ⟨k, List.mem_range.mp hk, j, hj, rfl⟩
  · rintro ⟨k, hk, j, hj, rfl⟩
    exact ⟨k, List.mem_range.mpr hk, Option.map_eq_some_iff.mpr ⟨j, hj, rfl⟩⟩

lemma toInt_lineNo (k : ℕ) :
    (Int32.ofNat (k + 1)).toInt = (k : ℤ) + 1 - 2 ^ 32 * lineRound k := by
  rw [toInt_ofNat_eq_wrap32, wrap32, lineRound]
  omega

/-- The first lines are not taken for others. -/
lemma GrepsPlainly.owner_eq (h : after = 0 ∨ ls = [] ∨ pattern.Hits ls 0) {k : ℕ}
    (hk : k < ls.length) :
    Context.owner (pattern.Hits ls) before after after k =
      Context.owner (pattern.Hits ls) before after 0 k := by
  obtain hzero | rfl | hfirst := h
  · exact Context.owner_start (Or.inl hzero) k
  · exact (Nat.not_lt_zero k hk).elim
  · exact Context.owner_start (Or.inr hfirst) k

end Lines

/-- An index that `int32_t` has. -/
lemma ofInt_index {c : ℕ} (hc : c < 2 ^ 31) :
    0 ≤ Int32.ofInt c ∧ (Int32.ofInt c).toNatClampNeg = c := by
  refine ⟨?_, ?_⟩
  · rw [Int32.le_iff_toInt_le, toInt_ofInt_eq_wrap32, wrap32_natCast hc]
    exact Int.natCast_nonneg c
  · rw [Int32.toNatClampNeg_ofInt_of_le (by omega) (by omega), Int.toNat_natCast]

section NoStrays

variable {pattern : Regex} {ls : List Str} {before after : Int32} {r : GrepFileResponse}
  (hbefore : 0 ≤ before) (hafter : 0 ≤ after)
  (hmatches : r.matches = pattern.matchesOf ls ls.length)
  (hselected : r.selectedLines = pattern.selectedOf ls before.toNatClampNeg after.toNatClampNeg
    after.toNatClampNeg ls.length)
include hbefore hafter hmatches hselected

lemma noStrays_of_grepsPlainly
    (h : GrepsPlainly pattern ls before.toNatClampNeg after.toNatClampNeg) :
    NoStrays before after r := by
  have hb := Int32.toInt_eq_toNatClampNeg hbefore
  have ha := Int32.toInt_eq_toNatClampNeg hafter
  intro e he
  rw [hselected] at he
  obtain ⟨k, hk, j, hj, rfl⟩ := Regex.mem_selectedOf.mp he
  rw [GrepsPlainly.owner_eq h.first hk] at hj
  obtain ⟨m, hm, rfl, hbehind, hahead⟩ | ⟨-, -, hnone, -⟩ := Context.cases_of_owner_eq_some hj
  · have hcount := (Nat.count_strict_mono hm hm.lt_length).trans_le h.count
    obtain ⟨hnonneg, hindex⟩ := ofInt_index hcount
    refine ⟨hnonneg, pattern.lineResult ls m, ?_, ?_⟩
    · rw [hmatches, selectedLine, hindex]
      exact Regex.getElem?_matchesOf hm
    · have hround := h.rounds k hk m hm hj
      have hline := toInt_lineNo k
      have hmatch := toInt_lineNo m
      simp only [Regex.lineResult, selectedLine, hline, hmatch, hround]
      omega
  · exact (Nat.not_lt_zero k hnone).elim

lemma grepsPlainly_of_noStrays (h : NoStrays before after r) :
    GrepsPlainly pattern ls before.toNatClampNeg after.toNatClampNeg := by
  have hb := Int32.toInt_eq_toNatClampNeg hbefore
  have ha := Int32.toInt_eq_toNatClampNeg hafter
  have hb' := before.toInt_lt
  have ha' := after.toInt_lt
  have hsel : ∀ k < ls.length, ∀ j, Context.owner (pattern.Hits ls) before.toNatClampNeg
      after.toNatClampNeg after.toNatClampNeg k = some j →
        selectedLine ls k j ∈ r.selectedLines := by
    intro k hk j hj
    rw [hselected]
    exact Regex.mem_selectedOf.mpr ⟨k, hk, j, hj, rfl⟩
  have hfirst : after.toNatClampNeg = 0 ∨ ls = [] ∨ pattern.Hits ls 0 := by
    by_contra hnone
    obtain ⟨hpos, hne, hnot⟩ := not_or.mp hnone |>.imp_right not_or.mp
    -- the first line carries the index it starts with
    have howner : Context.owner (pattern.Hits ls) before.toNatClampNeg after.toNatClampNeg
        after.toNatClampNeg 0 = some (-1) := Context.owner_first (Nat.pos_of_ne_zero hpos) hnot
    have hstray : (0 : Int32) ≤ .ofInt (-1) :=
      (h _ (hsel 0 (List.length_pos_iff.mpr hne) _ howner)).1
    exact absurd hstray (by decide)
  have hcount : Nat.count (pattern.Hits ls) ls.length ≤ 2 ^ 31 := by
    by_contra hmany
    obtain ⟨m, hlt, hm, hindex⟩ := Context.exists_of_lt_count (Nat.lt_of_not_le hmany)
    have hstray : (0 : Int32) ≤ .ofInt (Nat.count (pattern.Hits ls) m) :=
      (h _ (hsel m hlt _ (Context.owner_of_hit hm))).1
    rw [hindex] at hstray
    exact absurd hstray (by decide)
  refine ⟨hfirst, hcount, fun k hk m hm hj => ?_⟩
  have hlt := (Nat.count_strict_mono hm hm.lt_length).trans_le hcount
  obtain ⟨-, hindex⟩ := ofInt_index hlt
  have hnear : m ≤ k + before.toNatClampNeg ∧ k ≤ m + after.toNatClampNeg := by
    obtain ⟨m', hm', hsame, hnear⟩ | ⟨-, -, hnone, -⟩ := Context.cases_of_owner_eq_some hj
    · rwa [Nat.count_injective hm hm' (by exact_mod_cast hsame.symm)]
    · exact (Nat.not_lt_zero k hnone).elim
  rw [← GrepsPlainly.owner_eq hfirst hk] at hj
  obtain ⟨-, m', hm', hwindow⟩ := h _ (hsel k hk _ hj)
  rw [hmatches, selectedLine, hindex, Regex.getElem?_matchesOf hm] at hm'
  obtain rfl := Option.some.inj hm'
  have hline := toInt_lineNo k
  have hmatch := toInt_lineNo m
  simp only [Regex.lineResult, selectedLine, hline, hmatch] at hwindow
  omega

end NoStrays

/-- What `GrepFile` makes of a new response. -/
lemma grepFile_left (h : Host) (p spattern : Str) {before after : Int32} (hbefore : 0 ≤ before)
    (hlt : before.toInt < 2 ^ 31 - 1) (hafter : 0 ≤ after) {pattern : Regex}
    (hcompile : h.compile spattern = .ok pattern) :
    (grepFile h {} p spattern before after).left.matches =
        pattern.matchesOf (h.lines p) (h.lines p).length ∧
      (grepFile h {} p spattern before after).left.selectedLines =
        pattern.selectedOf (h.lines p) before.toNatClampNeg after.toNatClampNeg
          after.toNatClampNeg (h.lines p).length := by
  have hnext : 0 ≤ before + 1 := by
    rw [Int32.le_iff_toInt_le, Int32.toInt_zero] at hbefore ⊢
    rw [Int32.toInt_add, Int32.toInt_one, Int.bmod_eq_of_le (by omega) (by omega)]
    omega
  rw [grepFile_eq h {} p spattern hbefore hnext hafter hcompile]
  exact ⟨List.nil_append _, List.nil_append _⟩

/-- `GrepFile` selects no stray line exactly when the file begins with a match or no lines behind a
match are asked for, `int32_t` has an index for every match, and no line is selected for a match
that is numbered in another round of `int32_t`. -/
theorem noStrays_iff_grepsPlainly (h : Host) (p spattern : Str) {before after : Int32}
    (hbefore : 0 ≤ before) (hlt : before.toInt < 2 ^ 31 - 1) (hafter : 0 ≤ after) {pattern : Regex}
    (hcompile : h.compile spattern = .ok pattern) :
    NoStrays before after (grepFile h {} p spattern before after).left ↔
      GrepsPlainly pattern (h.lines p) before.toNatClampNeg after.toNatClampNeg := by
  obtain ⟨hmatches, hselected⟩ := grepFile_left h p spattern hbefore hlt hafter hcompile
  exact ⟨grepsPlainly_of_noStrays hbefore hafter hmatches hselected,
    noStrays_of_grepsPlainly hbefore hafter hmatches hselected⟩

/-- A line in which nothing is found is shown as a line behind a match. -/
theorem not_noStrays_oneLine :
    ¬NoStrays 0 1 (grepFile oneLine {} [102] [98] 0 1).left := by
  intro h
  have hrun : (grepFile oneLine {} [102] [98] 0 1).left =
      { selectedLines := [⟨1, -1, [97]⟩] } := rfl
  rw [hrun] at h
  exact absurd (h _ (List.mem_singleton_self _)).1 (by decide)

/-- When it is found in the first line, no line in front of the next match or behind one is shown
that should not be. -/
theorem noStrays_fiveLines : NoStrays 1 1 (grepFile fiveLines {} [102] [97] 1 1).left :=
  (noStrays_iff_grepsPlainly fiveLines [102] [97] (by decide) (by decide) (by decide)
    (show fiveLines.compile [97] = .ok (.ofLetter 97) from rfl)).mpr
    { first := by decide
      count := by decide
      rounds := by
        intro k hk m hm _
        have hm := hm.lt_length
        have hlen : (fiveLines.lines [102]).length = 5 := rfl
        rw [lineRound, lineRound]
        omega }

/-! ## Lost lines -/

/-- The matching lines are reported in order, with their numbers and with their ranges as `shown`.
Every line near a match is selected once, with its text, and the lines that are selected are in
order.  Every matching line is selected for its own match. -/
structure LosesNothing (shown : ℕ → ℤ) (pattern : Regex) (ls : List Str) (before after : ℕ)
    (r : GrepFileResponse) : Prop where
  results : (r.matches.map fun m =>
      (m.lineNo.toInt, m.subMatches.map fun s => (s.from.toInt, s.to.toInt))) =
    ((List.range ls.length).filter (pattern.Hits ls)).map fun k : ℕ =>
      ((k : ℤ) + 1, (pattern.ranges (ls.getD k [])).map fun x => (shown x.1, shown x.2))
  once : ∀ k line, ls[k]? = some line → ∀ m, pattern.Hits ls m → m ≤ k + before → k ≤ m + after →
    ∃ j, r.selectedLines.filter (fun e => e.lineNo.toInt = (k : ℤ) + 1) =
      [⟨.ofNat (k + 1), j, line⟩]
  increasing : r.selectedLines.Pairwise fun e e' => e.lineNo.toInt < e'.lineNo.toInt
  own : ∀ (i : ℕ) m, r.matches[i]? = some m →
    ∃ e ∈ r.selectedLines, e.lineNo = m.lineNo ∧ e.matchIndex.toInt = i

section LosesNothing

variable {pattern : Regex} {ls : List Str} {before after start : ℕ} (hlen : ls.length < 2 ^ 31)
include hlen

lemma toInt_lineNo_of_lt {k : ℕ} (hk : k < ls.length) :
    (Int32.ofNat (k + 1)).toInt = (k : ℤ) + 1 := by
  rw [toInt_ofNat_eq_wrap32, wrap32_natCast (by omega), Nat.cast_succ]

/-- Lines are selected in order. -/
lemma Regex.selectedOf_pairwise :
    (pattern.selectedOf ls before after start ls.length).Pairwise fun e e' =>
      e.lineNo.toInt < e'.lineNo.toInt := by
  rw [selectedOf, List.pairwise_filterMap]
  refine List.pairwise_lt_range.imp_of_mem fun {k k'} hk hk' hlt e he e' he' => ?_
  obtain ⟨j, -, rfl⟩ := Option.map_eq_some_iff.mp he
  obtain ⟨j', -, rfl⟩ := Option.map_eq_some_iff.mp he'
  rw [selectedLine, selectedLine, toInt_lineNo_of_lt hlen (List.mem_range.mp hk),
    toInt_lineNo_of_lt hlen (List.mem_range.mp hk')]
  omega

end LosesNothing

/-- In order, what is there is there once. -/
lemma filter_eq_singleton {es : List SelectedGrepLine}
    (h : es.Pairwise fun e e' => e.lineNo.toInt < e'.lineNo.toInt) {e : SelectedGrepLine}
    (he : e ∈ es) {n : ℤ} (hn : e.lineNo.toInt = n) :
    es.filter (fun e => e.lineNo.toInt = n) = [e] := by
  induction es with
  | nil => cases he
  | cons e' es ih =>
    obtain ⟨hhead, htail⟩ := List.pairwise_cons.mp h
    obtain rfl | he := List.mem_cons.mp he
    · rw [List.filter_cons_of_pos (by simpa using hn), List.filter_eq_nil_iff.mpr]
      intro e' he'
      have hlt := hhead e' he'
      simp only [decide_eq_true_eq]
      omega
    · have hlt := hhead e he
      have hne : e'.lineNo.toInt ≠ n := by omega
      rw [List.filter_cons_of_neg (by simpa using hne)]
      exact ih htail he

/-- `GrepFile` loses, repeats and reorders nothing in a file of fewer than `2 ^ 31` lines, but it
reports the ranges in `int32_t`. -/
theorem grepFile_losesNothing (h : Host) (p spattern : Str) {before after : Int32}
    (hbefore : 0 ≤ before) (hlt : before.toInt < 2 ^ 31 - 1) (hafter : 0 ≤ after) {pattern : Regex}
    (hcompile : h.compile spattern = .ok pattern) (hlen : (h.lines p).length < 2 ^ 31) :
    LosesNothing (fun n => wrap32 n) pattern (h.lines p) before.toNatClampNeg after.toNatClampNeg
      (grepFile h {} p spattern before after).left := by
  obtain ⟨hmatches, hselected⟩ := grepFile_left h p spattern hbefore hlt hafter hcompile
  have hpairwise : (pattern.selectedOf (h.lines p) before.toNatClampNeg after.toNatClampNeg
      after.toNatClampNeg (h.lines p).length).Pairwise fun e e' =>
        e.lineNo.toInt < e'.lineNo.toInt := Regex.selectedOf_pairwise hlen
  refine ⟨?_, ?_, ?_, ?_⟩
  · rw [hmatches, Regex.matchesOf, List.map_map]
    refine List.map_congr_left fun k hk => ?_
    have hk := List.mem_range.mp (List.mem_filter.mp hk).1
    simp only [Function.comp_apply, Regex.lineResult, List.map_map, toInt_lineNo_of_lt hlen hk,
      GrepMatchRange.ofRange, Function.comp_def, toInt_ofNat_eq_wrap32]
  · intro k line hline m hm hbehind hahead
    obtain ⟨hk, -⟩ := List.getElem?_eq_some_iff.mp hline
    obtain ⟨j, hj⟩ : ∃ j, Context.owner (pattern.Hits (h.lines p)) before.toNatClampNeg
        after.toNatClampNeg after.toNatClampNeg k = some j :=
      Context.owner_isSome hm hbehind hahead
    have hmem := Regex.mem_selectedOf.mpr ⟨k, hk, j, hj, rfl⟩
    refine ⟨.ofInt j, ?_⟩
    rw [hselected, filter_eq_singleton hpairwise hmem (toInt_lineNo_of_lt hlen hk), selectedLine,
      List.getD_eq_getElem?_getD, hline]
    rfl
  · rw [hselected]
    exact hpairwise
  · intro i m hm
    rw [hmatches, Regex.matchesOf, List.getElem?_map] at hm
    obtain ⟨k, hk, rfl⟩ := Option.map_eq_some_iff.mp hm
    obtain ⟨hlt, hhit, rfl⟩ := Context.of_getElem?_filter_range hk
    refine ⟨_, hselected ▸ Regex.mem_selectedOf.mpr
      ⟨k, hlt, _, Context.owner_of_hit hhit, rfl⟩, rfl, ?_⟩
    have hcount := Nat.count_le (p := pattern.Hits (h.lines p)) (n := k)
    rw [selectedLine, toInt_ofInt_eq_wrap32, wrap32_natCast (by omega)]

/-- What is not broken is one line. -/
lemma getLines_of_notMem {line cs : List UInt8} (h : (10 : UInt8) ∉ cs) (hne : line ++ cs ≠ []) :
    getLines line cs = [line ++ cs] := by
  induction cs generalizing line with
  | nil =>
    rw [List.append_nil] at hne ⊢
    exact if_neg hne
  | cons c cs ih =>
    obtain ⟨hc, hcs⟩ := not_or.mp (List.mem_cons.not.mp h)
    have happend : line ++ c :: cs = line ++ [c] ++ cs := by rw [List.append_assoc]; rfl
    rw [getLines, if_neg (Ne.symm hc), happend]
    exact ih hcs (by simp)

/-- The pattern `.+`. -/
def Regex.anyText : Regex where
  search text := !text.isEmpty
  ranges line := if line = [] then [] else [(0, line.length)]

/-- A line of `n` bytes, under `f`. -/
def longLine (n : ℕ) : Host where
  fs := .ofNodes fun p => if p = [102] then some (.file (List.replicate n 97)) else none
  compile p := if p = [46, 43] then .ok .anyText else .error (.literal "another pattern")

lemma lines_longLine {n : ℕ} (hn : 0 < n) : (longLine n).lines [102] = [List.replicate n 97] := by
  have hcontent : ((longLine n).fs.content [102]).getD [] = List.replicate n 97 := rfl
  have hnot : (10 : UInt8) ∉ List.replicate n 97 := fun hmem =>
    absurd (List.eq_of_mem_replicate hmem) (by decide)
  have hne : [] ++ List.replicate n (97 : UInt8) ≠ [] := by
    rw [List.nil_append]
    exact List.ne_nil_of_length_pos (by rwa [List.length_replicate])
  rw [Host.lines, hcontent]
  exact getLines_of_notMem hnot hne

/-- What is reported when the whole line is found. -/
lemma toInt_of_losesNothing_longLine {n : ℕ} (hn : 0 < n)
    (h : LosesNothing (fun n => n) .anyText ((longLine n).lines [102]) (Int32.toNatClampNeg 0)
      (Int32.toNatClampNeg 0) (grepFile (longLine n) {} [102] [46, 43] 0 0).left) :
    (Int32.ofNat n).toInt = n := by
  have hne : List.replicate n (97 : UInt8) ≠ [] :=
    List.ne_nil_of_length_pos (by rwa [List.length_replicate])
  have hranges : Regex.anyText.ranges (List.replicate n 97) = [(0, n)] := by
    rw [Regex.anyText]
    simp only [if_neg hne, List.length_replicate]
  have hhit : Regex.anyText.Hits [List.replicate n 97] 0 :=
    ⟨_, rfl, by rw [hranges]; exact List.cons_ne_nil _ _⟩
  have hmatches := (grepFile_left (longLine n) [102] [46, 43] (by decide : (0 : Int32) ≤ 0)
    (by decide) (by decide : (0 : Int32) ≤ 0)
    (show (longLine n).compile [46, 43] = .ok .anyText from rfl)).1
  have hget : [List.replicate n (97 : UInt8)].getD 0 [] = List.replicate n 97 := rfl
  have hresults := h.results
  rw [hmatches, lines_longLine hn, List.length_singleton, Regex.matchesOf_succ_of_hit hhit,
    Regex.lineResult, List.getD_cons_zero, hranges, List.range_one,
    List.filter_cons_of_pos (by simpa using hhit), List.filter_nil] at hresults
  simp only [List.map_cons, List.map_nil, hget, hranges] at hresults
  have hentry := (Prod.mk.inj (List.cons.inj hresults).1).2
  exact (Prod.mk.inj (List.cons.inj hentry).1).2

/-- A match that ends at a position that `int32_t` does not have. -/
theorem not_losesNothing_longLine :
    ((longLine (2 ^ 31)).lines [102]).length < 2 ^ 31 ∧
      ¬LosesNothing (fun n => n) .anyText ((longLine (2 ^ 31)).lines [102]) (Int32.toNatClampNeg 0)
        (Int32.toNatClampNeg 0) (grepFile (longLine (2 ^ 31)) {} [102] [46, 43] 0 0).left := by
  refine ⟨?_, fun h => ?_⟩
  · rw [lines_longLine (by decide), List.length_singleton]
    decide
  · have htop := toInt_of_losesNothing_longLine (by decide) h
    rw [toInt_ofNat_eq_wrap32] at htop
    exact absurd htop (by decide)

/-- A match with a line behind it, and one with a line on each side. -/
theorem losesNothing_fiveLines :
    LosesNothing (fun n => wrap32 n) (.ofLetter 97) (fiveLines.lines [102]) (Int32.toNatClampNeg 1)
      (Int32.toNatClampNeg 1) (grepFile fiveLines {} [102] [97] 1 1).left :=
  grepFile_losesNothing fiveLines [102] [97] (by decide : (0 : Int32) ≤ 1) (by decide)
    (by decide : (0 : Int32) ≤ 1) (show fiveLines.compile [97] = .ok (.ofLetter 97) from rfl)
    (by decide)

end OldPart
