import OldPart.Opc.HealthyTrees

/-!
# Searching in the files that are found

`OnGrepFilesRequest` finds files by the pattern it searches for, and searches in the directory.  A
directory reads as an empty file.  So the answer is right where the two patterns find the same
files, and there is nothing to report of any of them.
-/

namespace OldPart

/-! ## Files of which nothing is reported -/

section Silent

variable {pattern : Regex} {ls : List Str} {before after : ℕ}

/-- There is no line, or no line matches and none is asked for behind a match. -/
def Regex.Silent (pattern : Regex) (ls : List Str) (after : ℕ) : Prop :=
  ls = [] ∨ after = 0 ∧ ∀ k, ¬pattern.Hits ls k

/-- Only then nothing is selected, and nothing matches. -/
lemma Regex.silent_iff :
    pattern.Silent ls after ↔ pattern.matchesOf ls ls.length = [] ∧
      pattern.selectedOf ls before after after ls.length = [] := by
  constructor
  · rintro (rfl | ⟨rfl, hnone⟩)
    · exact ⟨rfl, rfl⟩
    · have hfilter : (List.range ls.length).filter (pattern.Hits ls) = [] :=
        List.filter_eq_nil_iff.mpr fun k _ => by simpa using hnone k
      refine ⟨by rw [matchesOf, hfilter]; rfl, List.eq_nil_iff_forall_not_mem.mpr fun e he => ?_⟩
      obtain ⟨k, hk, j, hj, -⟩ := mem_selectedOf.mp he
      obtain ⟨m, hm, -⟩ | ⟨-, -, hlt, -⟩ := Context.cases_of_owner_eq_some hj
      · exact hnone m hm
      · exact Nat.not_lt_zero k hlt
  · rintro ⟨hmatches, hselected⟩
    have hnone : ∀ k, ¬pattern.Hits ls k := by
      intro k hk
      have hget := getElem?_matchesOf hk
      rw [hmatches] at hget
      cases hget
    by_cases hls : ls = []
    · exact Or.inl hls
    · refine Or.inr ⟨?_, hnone⟩
      by_contra hpos
      -- the first line would be shown
      have hfirst : selectedLine ls 0 (-1) ∈ pattern.selectedOf ls before after after ls.length :=
        mem_selectedOf.mpr ⟨0, List.length_pos_iff.mpr hls, -1,
          Context.owner_first (Nat.pos_of_ne_zero hpos) (hnone 0), rfl⟩
      rw [hselected] at hfirst
      cases hfirst

end Silent

/-! ## The answer -/

namespace GrepFilesRequest

variable (h : Host) (request : GrepFilesRequest)

/-- What `GrepFile` makes of a new response for a file. -/
def greps (p : Str) : GrepFileResponse :=
  (grepFile h {} p request.pattern request.before request.after).left

/-- There is one entry for each path that `FindFiles` reports for `findPattern`, with what
`GrepFile` makes of it.  When it throws, it reports none. -/
def GrepsEach : Prop :=
  ∃ levels response found, onGrepFilesRequest h levels request = some response ∧
    findFilesMatching h levels request.path request.findPattern [] = some found ∧
    (found.thrown = none →
      response.allMatches = found.left.map fun p => ⟨p, request.greps h p⟩)

/-- The two patterns report the same of what is in the directory, and of nothing they report is
there anything to show.  Where the lines in front of a match do not fit into `int32_t` with the line
itself, `findPattern` reports one path at most, which is the first that `pattern` reports. -/
def Coincides (pattern findPattern : Regex) (walked : List Str) : Prop :=
  if request.before + 1 < 0 then
    (walked.filter (h.fs.reports pattern.filter)).take 1 =
      walked.filter (h.fs.reports findPattern.filter)
  else
    ∀ q ∈ walked, h.fs.reports pattern.filter q = h.fs.reports findPattern.filter q ∧
      (h.fs.reports findPattern.filter q = true →
        pattern.Silent (h.lines q) request.after.toNatClampNeg)

end GrepFilesRequest

section Answer

variable {h : Host} {request : GrepFilesRequest}

/-- What a pattern reports of what is in a directory. -/
lemma findFilesMatching_of_walk {levels : ℕ} {dirPath pattern : Str} {walked : Found}
    (hwalk : findFiles h.fs (fun _ _ => true) levels dirPath [] = some walked)
    {regex : Regex} (hcompile : h.compile pattern = .ok regex) :
    findFilesMatching h levels dirPath pattern [] =
      some ⟨walked.left.filter (h.fs.reports regex.filter),
        walked.thrown.map Thrown.filesystemError⟩ := by
  have hdirs : ∀ q, regex.filter q true = true := fun q => rfl
  obtain ⟨added, hleft, hreports⟩ := findFiles_reports hdirs hwalk
  rw [hleft]
  exact findFilesMatching_of_ok hcompile (hreports [])

/-- What the files that `pattern` reports add to the response, for what `findPattern` reports. -/
lemma grepsEach_iff_of_found {levels : ℕ} {found found' : List Str}
    (hcheck : checkContext "GrepFilesRequest" request.before request.after = none)
    (hpattern : findFilesMatching h levels request.path request.pattern [] = some (.done found'))
    (hfind : findFilesMatching h levels request.path request.findPattern [] =
      some (.done found)) :
    request.GrepsEach h ↔
      (Attempt.forEach (grepInto h request.path request.pattern request.before request.after) found'
        []).left = found.map fun p => ⟨p, request.greps h p⟩ := by
  constructor
  · rintro ⟨levels', response, foundAgain, hresponse, hfindAgain, hmatches⟩
    obtain rfl := findFilesMatching_unique hfindAgain hfind
    have hfiles := hresponse
    rw [onGrepFilesRequest] at hfiles
    simp only [hcheck] at hfiles
    obtain ⟨files, hfiles, -⟩ := Option.bind_eq_some_iff.mp hfiles
    obtain rfl := findFilesMatching_unique hfiles hpattern
    rw [onGrepFilesRequest_of_found hcheck hfiles] at hresponse
    exact (congrArg GrepFilesResponse.allMatches (Option.some.inj hresponse)).trans (hmatches rfl)
  · intro hleft
    exact ⟨levels, _, _, onGrepFilesRequest_of_found hcheck hpattern, hfind, fun _ => hleft⟩

/-- A search that is carried out makes nothing of a new response exactly when there is nothing to
show. -/
lemma greps_eq_new_iff {pattern : Regex} {p : Str} (hbefore : 0 ≤ request.before)
    (hroom : ¬request.before + 1 < 0) (hafter : 0 ≤ request.after)
    (hcompile : h.compile request.pattern = .ok pattern) :
    request.greps h p = {} ↔ pattern.Silent (h.lines p) request.after.toNatClampNeg := by
  rw [GrepFilesRequest.greps, grepFile_eq h {} p request.pattern hbefore (Int32.not_lt.mp hroom)
    hafter hcompile, Regex.silent_iff]
  constructor
  · intro hnew
    have hmatches := congrArg GrepFileResponse.matches hnew
    have hselected := congrArg GrepFileResponse.selectedLines hnew
    exact ⟨hmatches, hselected⟩
  · rintro ⟨hmatches, hselected⟩
    rw [hmatches, hselected]
    rfl

/-- A search that is not carried out makes nothing of a new response. -/
lemma greps_of_no_room {pattern : Regex} (hroom : request.before + 1 < 0)
    (hcompile : h.compile request.pattern = .ok pattern) (p : Str) : request.greps h p = {} := by
  rw [GrepFilesRequest.greps, grepFile, hcompile]
  simp only [if_pos hroom]

end Answer

section Coincides

variable {h : Host} {request : GrepFilesRequest} {pattern findPattern : Regex}
  {walked : List Str}

/-- The answer when no search is carried out. -/
lemma coincides_iff_of_no_room (hroom : request.before + 1 < 0)
    (hcompile : h.compile request.pattern = .ok pattern) :
    (Attempt.forEach (grepInto h request.path request.pattern request.before request.after)
        (walked.filter (h.fs.reports pattern.filter)) []).left =
      (walked.filter (h.fs.reports findPattern.filter)).map
        (fun p => ⟨p, request.greps h p⟩) ↔
    request.Coincides h pattern findPattern walked := by
  have hthrown : ∀ path allMatches,
      grepInto h request.path request.pattern request.before request.after path allMatches =
        ⟨allMatches ++ [⟨path, {}⟩], some (.exception (.literal "circular_buffer"))⟩ := by
    intro path allMatches
    rw [grepInto, grepFile, hcompile]
    simp only [if_pos hroom]
  have hinj : Function.Injective fun path => (⟨path, {}⟩ : GrepFilesResult) :=
    fun _ _ heq => congrArg GrepFilesResult.path heq
  rw [Attempt.left_forEach_of_thrown hthrown, List.nil_append, GrepFilesRequest.Coincides,
    if_pos hroom]
  simp only [greps_of_no_room hroom hcompile]
  exact hinj.list_map.eq_iff

/-- The answer when every search is carried out, and finds nothing in the directory. -/
lemma coincides_iff_of_room (hbefore : 0 ≤ request.before) (hroom : ¬request.before + 1 < 0)
    (hafter : 0 ≤ request.after) (hcompile : h.compile request.pattern = .ok pattern)
    (hempty : h.lines request.path = []) :
    (Attempt.forEach (grepInto h request.path request.pattern request.before request.after)
        (walked.filter (h.fs.reports pattern.filter)) []).left =
      (walked.filter (h.fs.reports findPattern.filter)).map
        (fun p => ⟨p, request.greps h p⟩) ↔
    request.Coincides h pattern findPattern walked := by
  have hnew : request.greps h request.path = {} :=
    (greps_eq_new_iff hbefore hroom hafter hcompile).mpr (Or.inl hempty)
  have hdone : ∀ path allMatches,
      grepInto h request.path request.pattern request.before request.after path allMatches =
        .done (allMatches ++ [⟨path, {}⟩]) := by
    intro path allMatches
    rw [← hnew, grepInto, GrepFilesRequest.greps, grepFile, hcompile]
    simp only [if_neg hroom]
    rfl
  rw [Attempt.forEach_of_done hdone, Attempt.done, List.nil_append, GrepFilesRequest.Coincides,
    if_neg hroom]
  constructor
  · intro heq q hq
    have hpaths := congrArg (List.map GrepFilesResult.path) heq
    simp only [List.map_map, Function.comp_def, List.map_id'] at hpaths
    rw [hpaths] at heq
    refine ⟨?_, fun hreports => ?_⟩
    · have hmem : q ∈ walked.filter (h.fs.reports pattern.filter) ↔
          q ∈ walked.filter (h.fs.reports findPattern.filter) := by rw [hpaths]
      rw [List.mem_filter, List.mem_filter, and_iff_right hq, and_iff_right hq] at hmem
      exact Bool.eq_iff_iff.mpr hmem
    · have hentry := List.map_inj_left.mp heq q (List.mem_filter.mpr ⟨hq, hreports⟩)
      have hgreps : request.greps h q = {} := (congrArg GrepFilesResult.singleMatches hentry).symm
      exact (greps_eq_new_iff hbefore hroom hafter hcompile).mp hgreps
  · intro hcoincides
    have hsame : walked.filter (h.fs.reports pattern.filter) =
        walked.filter (h.fs.reports findPattern.filter) :=
      List.filter_congr fun q hq => (hcoincides q hq).1
    rw [hsame]
    refine List.map_congr_left fun q hq => ?_
    obtain ⟨hq, hreports⟩ := List.mem_filter.mp hq
    rw [(greps_eq_new_iff hbefore hroom hafter hcompile).mpr ((hcoincides q hq).2 hreports)]

end Coincides

/-- `OnGrepFilesRequest` searches in each of the files that are found exactly when the patterns find
the same files, and there is nothing to show of them. -/
theorem grepsEach_iff_coincides {h : Host}
    (hreads : ∀ p, h.fs.status p = .ok .directoryFile → (h.fs.content p).getD [] = [])
    (request : GrepFilesRequest) (hdir : h.fs.status request.path = .ok .directoryFile)
    {levels : ℕ} {walked : Found}
    (hwalk : findFiles h.fs (fun _ _ => true) levels request.path [] = some walked)
    (hbefore : 0 ≤ request.before) (hafter : 0 ≤ request.after) {pattern findPattern : Regex}
    (hcompile : h.compile request.pattern = .ok pattern)
    (hcompile' : h.compile request.findPattern = .ok findPattern) :
    request.GrepsEach h ↔
      (walked.thrown = none → request.Coincides h pattern findPattern walked.left) := by
  have hcheck := (checkContext_eq_none_iff "GrepFilesRequest").mpr ⟨hbefore, hafter⟩
  have hpattern := findFilesMatching_of_walk hwalk hcompile
  have hfind := findFilesMatching_of_walk hwalk hcompile'
  obtain ⟨walked, thrown⟩ := walked
  cases thrown with
  | some ex =>
    have hresponse := onGrepFilesRequest_of_thrown hcheck hpattern
    exact iff_of_true ⟨levels, _, _, hresponse, hfind, fun hnone => (nomatch hnone)⟩
      fun hnone => (nomatch hnone)
  | none =>
    rw [grepsEach_iff_of_found hcheck hpattern hfind]
    refine Iff.trans ?_ (forall_prop_of_true rfl).symm
    by_cases hroom : request.before + 1 < 0
    · exact coincides_iff_of_no_room hroom hcompile
    · have hempty : h.lines request.path = [] := by
        rw [Host.lines, hreads _ hdir]
        rfl
      exact coincides_iff_of_room hbefore hroom hafter hcompile hempty

/-- The file that is found is not read. -/
theorem not_grepsEach_oneDirectory :
    ¬GrepFilesRequest.GrepsEach oneDirectory ⟨[100], [102], [97], 0, 0⟩ := by
  intro hgreps
  have hpattern : findFilesMatching oneDirectory 1 [100] [97] [] = some (.done []) := rfl
  have hfind : findFilesMatching oneDirectory 1 [100] [102] [] =
      some (.done [[100, 47, 102]]) := rfl
  cases (grepsEach_iff_of_found rfl hpattern hfind).mp hgreps

/-- A directory reads as an empty file. -/
lemma FileSystem.content_ofNodes (nodes : Str → Option Node) (p : Str)
    (hdir : (ofNodes nodes).status p = .ok .directoryFile) :
    ((ofNodes nodes).content p).getD [] = [] := by
  cases hnode : nodes p with
  | none => simp [ofNodes, hnode]
  | some node => cases node <;> simp_all [ofNodes]

/-- When nothing is to be shown of it, that makes no difference. -/
theorem grepsEach_oneDirectory :
    GrepFilesRequest.GrepsEach oneDirectory ⟨[100], [100], [102], 0, 0⟩ := by
  have hwalk : findFiles oneDirectory.fs (fun _ _ => true) 1 [100] [] =
      some (.done [[100, 47, 102]]) := rfl
  have hcompile : oneDirectory.compile [102] = .ok (.ofLetter 102) := rfl
  have hcompile' : oneDirectory.compile [100] = .ok (.ofLetter 100) := rfl
  refine (grepsEach_iff_coincides (FileSystem.content_ofNodes _) ⟨[100], [100], [102], 0, 0⟩ rfl
    hwalk (by decide) (by decide) hcompile hcompile').mpr fun _ q hq => ?_
  obtain rfl := List.mem_singleton.mp hq
  refine ⟨rfl, fun _ => Or.inr ⟨rfl, ?_⟩⟩
  rintro (_ | k) ⟨line, hline, hne⟩
  · obtain rfl := Option.some.inj hline
    exact hne rfl
  · cases hline

end OldPart
