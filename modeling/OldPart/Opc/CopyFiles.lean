import Mathlib.Logic.Function.Basic
import OldPart.Opc.PatternSearch

/-!
# `CopyFiles`

Each path that `FindFiles` has found is given to `fs::copy_file` together with the directory into
which it is to be copied, not with the path of a file in that directory.  The directory is there, so
the first copy throws.
-/

namespace OldPart

/-- `fs::copy_file`: what it makes of a file system, or throws. -/
abbrev CopyFile := FileSystem → (file copy : Str) → Attempt FilesystemError FileSystem

/-- What Boost.Filesystem documents of `fs::copy_file`: there must be nothing under the path of the
copy, which then holds what the file does. -/
structure CopyFile.Documented (copyFile : CopyFile) : Prop where
  throws : ∀ fs file copy kind, fs.status copy = .ok kind → kind ≠ .fileNotFound →
    ∃ ex, (copyFile fs file copy).thrown = some ex
  creates : ∀ fs file copy content, fs.status file = .ok .regularFile →
    fs.content file = some content → fs.status copy = .ok .fileNotFound →
    ∃ after, copyFile fs file copy = .done after ∧ after.status copy = .ok .regularFile ∧
      after.content copy = some content

def copyFiles (copyFile : CopyFile) (fs : FileSystem) (levels : ℕ) (fromDir toDir : Str)
    (pattern : Regex) : Option (Attempt FilesystemError FileSystem) :=
  (findFiles fs pattern.filter levels fromDir []).map fun files =>
    match files.thrown with
    | some ex => ⟨fs, some ex⟩
    | none => Attempt.forEach (fun file fs => copyFile fs file toDir) files.left fs

/-- `fs::path::filename`. -/
def fileName (p : Str) : Str := (p.reverse.takeWhile (· != 47)).reverse

section Copies

variable (copyFile : CopyFile) (fs : FileSystem) (fromDir toDir : Str) (pattern : Regex)

/-- A regular file below a directory, and its path matches. -/
structure MatchesBelow (q : Str) : Prop where
  below : fs.Below fromDir q
  status : fs.status q = .ok .regularFile
  search : pattern.search q = true

/-- A tree in which nothing is wrong, and an empty directory outside of it, in which the files that
match can be told apart. -/
structure CopyTask : Prop where
  healthy : fs.Healthy fromDir
  fromDir_directory : fs.status fromDir = .ok .directoryFile
  toDir_directory : fs.status toDir = .ok .directoryFile
  toDir_empty : fs.directory toDir = ⟨[], none⟩
  toDir_outside : toDir ≠ fromDir ∧ ¬fs.Below fromDir toDir
  names : ∀ q q', MatchesBelow fs fromDir pattern q → MatchesBelow fs fromDir pattern q' →
    fileName q = fileName q' → q = q'

/-- `CopyFiles` returns, and each file that matches has a copy in the directory. -/
def CopiesMatches : Prop :=
  ∃ levels after, copyFiles copyFile fs levels fromDir toDir pattern = some (.done after) ∧
    ∀ q, MatchesBelow fs fromDir pattern q →
      after.status (joinPath toDir (fileName q)) = .ok .regularFile ∧
        after.content (joinPath toDir (fileName q)) = fs.content q

/-- There are only files that do not match. -/
def NothingMatches : Prop :=
  ∀ q ∈ (fs.directory fromDir).paths,
    fs.status q = .ok .regularFile ∧ pattern.search q = false

variable {copyFile fs fromDir toDir pattern}

/-- No file is copied to a directory that is there. -/
lemma thrown_forEach_copyFile (hcopy : copyFile.Documented)
    (hto : fs.status toDir = .ok .directoryFile) (file : Str) (files : List Str) :
    ∃ ex, (Attempt.forEach (fun file fs => copyFile fs file toDir) (file :: files) fs).thrown =
      some ex := by
  obtain ⟨ex, hthrown⟩ := hcopy.throws fs file toDir _ hto (by decide)
  refine ⟨ex, ?_⟩
  rw [Attempt.forEach, Attempt.andThen, hthrown]
  exact hthrown

/-- A search finds nothing exactly where there are only files that do not match. -/
lemma walk_eq_nil_iff (hdir : fs.status fromDir = .ok .directoryFile)
    (hhealthy : fs.Healthy fromDir) {found : List Str}
    (hmem : ∀ q, q ∈ found ↔ fs.Below fromDir q ∧ (fs.status q = .ok .directoryFile ∨
      fs.status q = .ok .regularFile ∧ pattern.search q = true)) :
    found = [] ↔ NothingMatches fs fromDir pattern := by
  have hentries := FileSystem.entries_eq (FileSystem.isDirectory_eq hdir)
  constructor
  · rintro rfl q hq
    have hbelow : fs.Below fromDir q := .single (hentries ▸ hq)
    have hnot := mt (hmem q).mpr List.not_mem_nil
    cases hhealthy.entry hdir hq with
    | directory hstatus => exact (hnot ⟨hbelow, Or.inl hstatus⟩).elim
    | file hstatus =>
      refine ⟨hstatus, ?_⟩
      by_contra hmatch
      exact hnot ⟨hbelow, Or.inr ⟨hstatus, Bool.not_eq_false _ ▸ hmatch⟩⟩
  · intro hnothing
    apply List.eq_nil_iff_forall_not_mem.mpr
    intro r hr
    obtain ⟨hbelow, hfound⟩ := (hmem r).mp hr
    obtain ⟨hstatus, hnot⟩ := hnothing r (hbelow.mem_of_regular fun q hq => (hnothing q hq).1)
    obtain hdirectory | ⟨-, hmatch⟩ := hfound
    · rw [hstatus] at hdirectory
      cases hdirectory
    · rw [hnot] at hmatch
      cases hmatch

/-- What `CopyFiles` leaves of a tree in which nothing is wrong. -/
lemma copyFiles_of_found {levels levels' : ℕ} {found : List Str}
    (hfound : findFiles fs pattern.filter levels fromDir [] = some (.done found))
    {left : Attempt FilesystemError FileSystem}
    (h : copyFiles copyFile fs levels' fromDir toDir pattern = some left) :
    left = Attempt.forEach (fun file fs => copyFile fs file toDir) found fs := by
  obtain ⟨files, hfiles, rfl⟩ := Option.map_eq_some_iff.mp h
  rw [findFiles_unique hfiles hfound]
  rfl

variable (hcopy : copyFile.Documented) (htask : CopyTask fs fromDir toDir pattern)
include htask

/-- Nothing is found where something can be copied. -/
lemma copiesMatches_of_nothingMatches (hnothing : NothingMatches fs fromDir pattern) :
    CopiesMatches copyFile fs fromDir toDir pattern := by
  obtain ⟨levels, hrun, hmem⟩ := findFiles_pattern htask.healthy htask.fromDir_directory []
  have hnil := (walk_eq_nil_iff htask.fromDir_directory htask.healthy hmem).mpr hnothing
  refine ⟨levels, fs, ?_, fun q hq => ?_⟩
  · rw [copyFiles, hrun, hnil]
    rfl
  · have hfound := (hmem q).mpr ⟨hq.below, Or.inr ⟨hq.status, hq.search⟩⟩
    rw [hnil] at hfound
    cases hfound

include hcopy

/-- What is found cannot be copied. -/
lemma nothingMatches_of_copiesMatches (hcopies : CopiesMatches copyFile fs fromDir toDir pattern) :
    NothingMatches fs fromDir pattern := by
  obtain ⟨levels, hrun, hmem⟩ := findFiles_pattern htask.healthy htask.fromDir_directory []
  apply (walk_eq_nil_iff htask.fromDir_directory htask.healthy hmem).mp
  obtain ⟨levels', after, hdone, -⟩ := hcopies
  have hloop := copyFiles_of_found hrun hdone
  rw [List.nil_append] at hloop
  cases hwalk : fs.walk pattern.filter levels fromDir with
  | nil => rfl
  | cons file files =>
    obtain ⟨ex, hthrown⟩ := thrown_forEach_copyFile hcopy htask.toDir_directory file files
    rw [← hwalk, ← hloop] at hthrown
    cases hthrown

/-- The files that match are copied exactly where nothing is found that could be. -/
theorem copiesMatches_iff_nothingMatches :
    CopiesMatches copyFile fs fromDir toDir pattern ↔ NothingMatches fs fromDir pattern :=
  ⟨nothingMatches_of_copiesMatches hcopy htask, copiesMatches_of_nothingMatches htask⟩

end Copies

/-! ## A file that is to be copied -/

/-- What `fs::copy_file` throws when there is something under the path of the copy. -/
def FilesystemError.fileExists : FilesystemError := ⟨17, by decide, .literal "File exists"⟩

/-- The copy of a file is in its directory. -/
def FileSystem.copyRegular : CopyFile := fun fs file copy =>
  match fs.status file, fs.content file, fs.status copy with
  | .ok .regularFile, some content, .ok .fileNotFound =>
      .done { fs with
        status := Function.update fs.status copy (.ok .regularFile)
        content := Function.update fs.content copy (some content)
        directory := fun p =>
          if joinPath p (fileName copy) = copy then
            { fs.directory p with paths := (fs.directory p).paths ++ [copy] }
          else fs.directory p }
  | _, _, _ => ⟨fs, some .fileExists⟩

lemma FileSystem.documented_copyRegular : FileSystem.copyRegular.Documented where
  throws fs file copy kind hstatus hne := by
    rw [copyRegular]
    split
    · rename_i hcopy
      rw [hstatus] at hcopy
      exact (hne (Except.ok.inj hcopy)).elim
    · exact ⟨.fileExists, rfl⟩
  creates fs file copy content hstatus hcontent hcopy := by
    rw [copyRegular, hstatus, hcontent, hcopy]
    exact ⟨_, rfl, Function.update_self .., Function.update_self ..⟩

/-- The line `a` in the file `d/f`, and the empty directory `t`. -/
def twoDirectories : Host := .ofNodes fun p =>
  if p = [100] then some (.directory [[100, 47, 102]])
  else if p = [100, 47, 102] then some (.file [97, 10])
  else if p = [116] then some (.directory [])
  else none

lemma healthy_twoDirectories : twoDirectories.fs.Healthy [100] := by
  refine .directory rfl rfl fun q hq => ?_
  obtain rfl := List.mem_singleton.mp hq
  exact .file rfl

lemma below_twoDirectories {q : Str} (h : twoDirectories.fs.Below [100] q) :
    q = [100, 47, 102] := by
  have hregular : ∀ r ∈ (twoDirectories.fs.directory [100]).paths,
      twoDirectories.fs.status r = .ok .regularFile := by
    intro r hr
    obtain rfl := List.mem_singleton.mp hr
    rfl
  exact List.mem_singleton.mp (h.mem_of_regular hregular)

lemma copyTask_twoDirectories (pattern : Regex) :
    CopyTask twoDirectories.fs [100] [116] pattern where
  healthy := healthy_twoDirectories
  fromDir_directory := rfl
  toDir_directory := rfl
  toDir_empty := rfl
  toDir_outside := ⟨by decide, fun hbelow => nomatch below_twoDirectories hbelow⟩
  names q q' hq hq' _ :=
    (below_twoDirectories hq.below).trans (below_twoDirectories hq'.below).symm

/-- The file `d/f` is not copied. -/
theorem not_copiesMatches_twoDirectories :
    FileSystem.copyRegular.Documented ∧
      CopyTask twoDirectories.fs [100] [116] (.ofLetter 102) ∧
        ¬CopiesMatches FileSystem.copyRegular twoDirectories.fs [100] [116] (.ofLetter 102) := by
  refine ⟨FileSystem.documented_copyRegular, copyTask_twoDirectories _, fun hcopies => ?_⟩
  have hnothing := nothingMatches_of_copiesMatches FileSystem.documented_copyRegular
    (copyTask_twoDirectories _) hcopies
  cases (hnothing _ (List.mem_singleton.mpr rfl)).2

/-- Nothing is copied that does not match. -/
theorem copiesMatches_twoDirectories :
    CopiesMatches FileSystem.copyRegular twoDirectories.fs [100] [116] (.ofLetter 103) := by
  refine (copiesMatches_iff_nothingMatches FileSystem.documented_copyRegular
    (copyTask_twoDirectories _)).mpr fun q hq => ?_
  obtain rfl := List.mem_singleton.mp hq
  exact ⟨rfl, rfl⟩

end OldPart
