import OldPart.Opc.HealthyTrees

/-!
# A search with a pattern

`FindFiles` with a pattern lets each directory pass its filter, to enter it, and what passes the
filter is added to `out`.  So the directories are found whether they match or not.
-/

namespace OldPart

/-- A pattern lets `FindFiles` enter every directory. -/
lemma Regex.filter_directory (pattern : Regex) (q : Str) : pattern.filter q true = true := rfl

/-! ## What is found -/

section Matches

variable (fs : FileSystem) (pattern : Regex) (dirPath : Str)

/-- What is added to `out` matches, and each regular file below that matches is added once. -/
def FindsMatches : Prop :=
  ∀ out, ∃ levels added,
    findFiles fs pattern.filter levels dirPath out = some (.done (out ++ added)) ∧
      (∀ q ∈ added, pattern.search q = true) ∧
      ∀ q, fs.Below dirPath q → fs.status q = .ok .regularFile → pattern.search q = true →
        added.count q = 1

/-- Each directory below matches. -/
def DirectoriesMatch : Prop :=
  ∀ q, fs.Below dirPath q → fs.status q = .ok .directoryFile → pattern.search q = true

variable {fs pattern dirPath} (hhealthy : fs.Healthy dirPath)
  (hdir : fs.status dirPath = .ok .directoryFile)
include hhealthy hdir

/-- A pattern finds the regular files that match, and all the directories. -/
lemma findFiles_pattern (out : List Str) :
    ∃ levels, findFiles fs pattern.filter levels dirPath out =
        some (.done (out ++ fs.walk pattern.filter levels dirPath)) ∧
      ∀ q, q ∈ fs.walk pattern.filter levels dirPath ↔ fs.Below dirPath q ∧
        (fs.status q = .ok .directoryFile ∨
          fs.status q = .ok .regularFile ∧ pattern.search q = true) := by
  obtain ⟨levels, hrun, hmem⟩ := findFiles_healthy hhealthy hdir out
  refine ⟨levels, hrun, fun q => (hmem q).trans ⟨fun henters => ?_, ?_⟩⟩
  · obtain ⟨hbelow, hreports⟩ := FileSystem.below_of_enters henters
    refine ⟨hbelow, ?_⟩
    cases healthy_of_below hhealthy hbelow with
    | directory hstatus => exact Or.inl hstatus
    | file hstatus =>
      rw [FileSystem.reports_eq hstatus] at hreports
      exact Or.inr ⟨hstatus, hreports⟩
  · rintro ⟨hbelow, hstatus | ⟨hstatus, hmatch⟩⟩
    · apply FileSystem.enters_of_below pattern.filter_directory hbelow
      rw [FileSystem.reports_eq hstatus]
      rfl
    · apply FileSystem.enters_of_below pattern.filter_directory hbelow
      rw [FileSystem.reports_eq hstatus]
      exact hmatch

/-- A directory that does not match is found too. -/
lemma directoriesMatch_of_findsMatches (hfinds : FindsMatches fs pattern dirPath) :
    DirectoriesMatch fs pattern dirPath := by
  intro q hbelow hstatus
  obtain ⟨levels, added, hrun, hmatches, -⟩ := hfinds []
  obtain ⟨levels', hrun', hmem⟩ := findFiles_pattern hhealthy hdir []
  obtain rfl := congrArg Attempt.left (findFiles_unique hrun hrun')
  exact hmatches q ((hmem q).mpr ⟨hbelow, Or.inl hstatus⟩)

/-- A search finds matches only, and each file once, exactly where the directories match. -/
theorem findsMatches_iff_directoriesMatch (hnamed : fs.Named) :
    FindsMatches fs pattern dirPath ↔ DirectoriesMatch fs pattern dirPath := by
  refine ⟨directoriesMatch_of_findsMatches hhealthy hdir, fun hdirs out => ?_⟩
  obtain ⟨levels, hrun, hmem⟩ := findFiles_pattern hhealthy hdir out
  refine ⟨levels, _, hrun, fun q hq => ?_, fun q hbelow hstatus hmatch => ?_⟩
  · obtain ⟨hbelow, hstatus | ⟨-, hmatch⟩⟩ := (hmem q).mp hq
    · exact hdirs q hbelow hstatus
    · exact hmatch
  · have hq := (hmem q).mpr ⟨hbelow, Or.inr ⟨hstatus, hmatch⟩⟩
    exact List.count_eq_one_of_mem (FileSystem.nodup_walk hnamed levels dirPath) hq

end Matches

/-! ## A directory in a directory -/

lemma FileSystem.named_ofNodes {nodes : Str → Option Node}
    (h : ∀ p entries, nodes p = some (.directory entries) →
      ∃ names : List Str, entries = names.map (joinPath p) ∧ names.Nodup ∧
        ∀ name ∈ names, IsName name) : (ofNodes nodes).Named := by
  intro p
  cases hnode : nodes p with
  | none => exact ⟨[], by simp [ofNodes, hnode], List.nodup_nil, fun _ hmem => nomatch hmem⟩
  | some node =>
    cases node with
    | file content =>
      exact ⟨[], by simp [ofNodes, hnode], List.nodup_nil, fun _ hmem => nomatch hmem⟩
    | directory entries =>
      obtain ⟨names, hentries, hnames⟩ := h p entries hnode
      exact ⟨names, by simp [ofNodes, hnode, hentries], hnames⟩

/-- The directory `d/e` in `d`, and the line `a` in the file `d/e/f`. -/
def nestedDirectory : Host := .ofNodes fun p =>
  if p = [100] then some (.directory [[100, 47, 101]])
  else if p = [100, 47, 101] then some (.directory [[100, 47, 101, 47, 102]])
  else if p = [100, 47, 101, 47, 102] then some (.file [97, 10])
  else none

lemma named_nestedDirectory : nestedDirectory.fs.Named := by
  apply FileSystem.named_ofNodes
  intro p entries hnode
  split at hnode
  · subst p
    obtain rfl := Node.directory.inj (Option.some.inj hnode)
    exact ⟨[[101]], rfl, List.nodup_singleton _, by decide⟩
  · split at hnode
    · subst p
      obtain rfl := Node.directory.inj (Option.some.inj hnode)
      exact ⟨[[102]], rfl, List.nodup_singleton _, by decide⟩
    · split at hnode
      · cases Option.some.inj hnode
      · cases hnode

lemma healthy_nestedDirectory : nestedDirectory.fs.Healthy [100] := by
  refine .directory rfl rfl fun q hq => ?_
  obtain rfl := List.mem_singleton.mp hq
  refine .directory rfl rfl fun r hr => ?_
  obtain rfl := List.mem_singleton.mp hr
  exact .file rfl

lemma below_nestedDirectory : nestedDirectory.fs.Below [100] [100, 47, 101] := by
  have hdir : nestedDirectory.fs.isDirectory [100] = .ok true := rfl
  refine .single ?_
  rw [FileSystem.entries_eq hdir]
  exact List.mem_singleton.mpr rfl

/-- A search for `f` finds the directory `d/e`. -/
theorem not_findsMatches_nestedDirectory :
    nestedDirectory.fs.Named ∧ nestedDirectory.fs.Healthy [100] ∧
      ¬FindsMatches nestedDirectory.fs (.ofLetter 102) [100] := by
  refine ⟨named_nestedDirectory, healthy_nestedDirectory, fun hfinds => ?_⟩
  have hdirs := directoriesMatch_of_findsMatches healthy_nestedDirectory rfl hfinds
  cases hdirs _ below_nestedDirectory rfl

/-- A search for `d` finds nothing that does not match. -/
theorem findsMatches_nestedDirectory :
    FindsMatches nestedDirectory.fs (.ofLetter 100) [100] := by
  refine (findsMatches_iff_directoriesMatch healthy_nestedDirectory rfl
    named_nestedDirectory).mpr fun q hbelow _ => ?_
  -- every path below `d` begins with `d`
  obtain ⟨rest, rfl⟩ := named_nestedDirectory.prefix_of_below hbelow
  rfl

end OldPart
