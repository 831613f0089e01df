import OldPart.Lib.Attempt
import OldPart.Opc.GrepFile

/-!
# `FindFiles`

The walk through a directory and the directories below that the filter lets it enter.  It follows
links, so there may be no end to it: with a number of levels, it has a result when it does not go
deeper than that.
-/

namespace OldPart

/-- `Filter`. -/
abbrev PathFilter := Str → Bool → Bool

/-- What `FindFiles` leaves in `out`, and what it has thrown. -/
abbrev Found := Attempt FilesystemError (List Str)

section FindFiles

variable (fs : FileSystem) (filter : PathFilter)

/-- The loop of `FindFiles` over the entries of a directory, and what its iterator throws behind
the last.  `descend` is the call for a directory among them. -/
def findEntries (descend : Str → List Str → Option Found) (error : Option FilesystemError) :
    List Str → List Str → Option Found
  | [], out => some ⟨out, error⟩
  | pos :: rest, out =>
      match fs.isDirectory pos with
      | .error ex => some ⟨out, some ex⟩
      | .ok isDir =>
          if filter pos isDir then
            if isDir then
              (descend pos (out ++ [pos])).bind fun found =>
                match found.thrown with
                | some _ => some found
                | none => findEntries descend error rest found.left
            else findEntries descend error rest (out ++ [pos])
          else findEntries descend error rest out

/-- `FindFiles` with a filter. -/
def findFiles : (levels : ℕ) → (dirPath : Str) → (out : List Str) → Option Found
  | 0, _, _ => none
  | levels + 1, dirPath, out =>
      findEntries fs filter (findFiles levels) (fs.directory dirPath).error
        (fs.directory dirPath).paths out

end FindFiles

/-- The filter of `FindFiles` with a pattern. -/
def Regex.filter (pattern : Regex) : PathFilter := fun path isDir => isDir || pattern.search path

/-- `FindFiles` with a pattern that is not compiled yet. -/
def findFilesMatching (h : Host) (levels : ℕ) (dirPath pattern : Str) (out : List Str) :
    Option (Attempt Thrown (List Str)) :=
  match h.compile pattern with
  | .error what => some ⟨out, some (.exception what)⟩
  | .ok regex =>
      (findFiles h.fs regex.filter levels dirPath out).map (Attempt.mapThrown .filesystemError)

/-- With a valid pattern, what its filter leaves is found. -/
lemma findFilesMatching_of_ok {h : Host} {levels : ℕ} {dirPath pattern : Str}
    {out : List Str} {found : Found} {regex : Regex} (hcompile : h.compile pattern = .ok regex)
    (hfound : findFiles h.fs regex.filter levels dirPath out = some found) :
    findFilesMatching h levels dirPath pattern out =
      some (found.mapThrown Thrown.filesystemError) := by
  rw [findFilesMatching, hcompile]
  exact congrArg (Option.map (Attempt.mapThrown Thrown.filesystemError)) hfound

/-! ## One turn -/

section Turn

/-- One turn of the loop of `FindFiles`. -/
def findEntry (fs : FileSystem) (filter : PathFilter)
    (descend : Str → List Str → Option Found) (pos : Str) (out : List Str) : Option Found :=
  match fs.isDirectory pos with
  | .error ex => some ⟨out, some ex⟩
  | .ok isDir =>
      if filter pos isDir then
        if isDir then descend pos (out ++ [pos]) else some (.done (out ++ [pos]))
      else some (.done out)

variable {fs : FileSystem} {filter : PathFilter} {descend : Str → List Str → Option Found}
  {pos : Str} {out : List Str}

lemma findEntry_error {ex : FilesystemError} (h : fs.isDirectory pos = .error ex) :
    findEntry fs filter descend pos out = some ⟨out, some ex⟩ := by
  rw [findEntry, h]

/-- An entry that is not a directory. -/
lemma findEntry_file (h : fs.isDirectory pos = .ok false) :
    findEntry fs filter descend pos out =
      some (.done (if filter pos false then out ++ [pos] else out)) := by
  rw [findEntry, h]
  dsimp only
  split <;> rfl

/-- A directory that is not entered. -/
lemma findEntry_skip (h : fs.isDirectory pos = .ok true) (hskip : ¬filter pos true = true) :
    findEntry fs filter descend pos out = some (.done out) := by
  rw [findEntry, h]
  exact if_neg hskip

/-- A directory that is entered. -/
lemma findEntry_enter (h : fs.isDirectory pos = .ok true) (hkeep : filter pos true = true) :
    findEntry fs filter descend pos out = descend pos (out ++ [pos]) := by
  rw [findEntry, h]
  exact if_pos hkeep

/-- The loop ends with the turn that throws. -/
lemma findEntries_cons (error : Option FilesystemError) (rest : List Str) :
    findEntries fs filter descend error (pos :: rest) out =
      (findEntry fs filter descend pos out).bind fun found =>
        match found.thrown with
        | some _ => some found
        | none => findEntries fs filter descend error rest found.left := by
  rw [findEntries, findEntry]
  cases fs.isDirectory pos with
  | error ex => rfl
  | ok isDir =>
    dsimp only
    split
    · cases isDir with
      | false => rfl
      | true => rfl
    · rfl

end Turn

/-! ## More levels -/

section Levels

variable {fs : FileSystem} {filter : PathFilter}

section Mono

variable {descend descend' : Str → List Str → Option Found}
  (h : ∀ p out found, descend p out = some found → descend' p out = some found)
include h

lemma findEntry_mono {pos : Str} {out : List Str} {found : Found}
    (hfound : findEntry fs filter descend pos out = some found) :
    findEntry fs filter descend' pos out = some found := by
  cases hdir : fs.isDirectory pos with
  | error ex => rwa [findEntry_error hdir] at hfound ⊢
  | ok isDir =>
    cases isDir with
    | false => rwa [findEntry_file hdir] at hfound ⊢
    | true =>
      by_cases hkeep : filter pos true = true
      · rw [findEntry_enter hdir hkeep] at hfound ⊢
        exact h _ _ _ hfound
      · rwa [findEntry_skip hdir hkeep] at hfound ⊢

lemma findEntries_mono {error : Option FilesystemError} {paths out : List Str} {found : Found}
    (hfound : findEntries fs filter descend error paths out = some found) :
    findEntries fs filter descend' error paths out = some found := by
  induction paths generalizing out with
  | nil => exact hfound
  | cons pos rest ih =>
    rw [findEntries_cons] at hfound ⊢
    obtain ⟨inner, hinner, hrest⟩ := Option.bind_eq_some_iff.mp hfound
    refine Option.bind_eq_some_iff.mpr ⟨inner, findEntry_mono h hinner, ?_⟩
    cases hthrown : inner.thrown with
    | some ex => rwa [hthrown] at hrest
    | none =>
      rw [hthrown] at hrest
      exact ih hrest

end Mono

/-- A result does not depend on the number of levels. -/
lemma findFiles_mono {levels levels' : ℕ} (hle : levels ≤ levels') {dirPath : Str} {out : List Str}
    {found : Found} (h : findFiles fs filter levels dirPath out = some found) :
    findFiles fs filter levels' dirPath out = some found := by
  induction levels generalizing levels' dirPath out found with
  | zero => cases h
  | succ levels ih =>
    obtain ⟨levels', rfl⟩ : ∃ n, levels' = n + 1 := ⟨levels' - 1, by omega⟩
    exact findEntries_mono (fun p out found hfound => ih (by omega) hfound) h

lemma findFiles_unique {levels levels' : ℕ} {dirPath : Str} {out : List Str} {found found' : Found}
    (h : findFiles fs filter levels dirPath out = some found)
    (h' : findFiles fs filter levels' dirPath out = some found') : found = found' := by
  have hmax := findFiles_mono (Nat.le_max_left levels levels') h
  have hmax' := findFiles_mono (Nat.le_max_right levels levels') h'
  exact Option.some.inj (hmax.symm.trans hmax')

/-- Neither does it with a pattern. -/
lemma findFilesMatching_unique {h : Host} {levels levels' : ℕ} {dirPath pattern : Str}
    {out : List Str} {found found' : Attempt Thrown (List Str)}
    (hfound : findFilesMatching h levels dirPath pattern out = some found)
    (hfound' : findFilesMatching h levels' dirPath pattern out = some found') : found = found' := by
  rw [findFilesMatching] at hfound hfound'
  cases hcompile : h.compile pattern with
  | error what =>
    rw [hcompile] at hfound hfound'
    exact Option.some.inj (hfound.symm.trans hfound')
  | ok regex =>
    rw [hcompile] at hfound hfound'
    obtain ⟨plain, hplain, rfl⟩ := Option.map_eq_some_iff.mp hfound
    obtain ⟨plain', hplain', rfl⟩ := Option.map_eq_some_iff.mp hfound'
    rw [findFiles_unique hplain hplain']

/-! ## What a filter leaves of a walk -/

/-- A path that is reported where it is met. -/
def FileSystem.reports (fs : FileSystem) (filter : PathFilter) (q : Str) : Bool :=
  match fs.isDirectory q with
  | .ok isDir => filter q isDir
  | .error _ => false

section Reports

variable (hdirs : ∀ q, filter q true = true) {descend descend' : Str → List Str → Option Found}
  (hdescend : ∀ q out walked, descend q out = some walked → ∃ added,
    walked.left = out ++ added ∧ ∀ out', descend' q out' =
      some ⟨out' ++ added.filter (fs.reports filter), walked.thrown⟩)
include hdirs hdescend

/-- A filter that lets `FindFiles` enter every directory leaves a part of what a turn finds. -/
lemma findEntry_reports {pos : Str} {out : List Str} {walked : Found}
    (h : findEntry fs (fun _ _ => true) descend pos out = some walked) :
    ∃ added, walked.left = out ++ added ∧ ∀ out', findEntry fs filter descend' pos out' =
      some ⟨out' ++ added.filter (fs.reports filter), walked.thrown⟩ := by
  cases hdir : fs.isDirectory pos with
  | error ex =>
    rw [findEntry_error hdir] at h
    obtain rfl := Option.some.inj h
    refine ⟨[], (List.append_nil out).symm, fun out' => ?_⟩
    rw [findEntry_error hdir, List.filter_nil, List.append_nil]
  | ok isDir =>
    cases isDir with
    | false =>
      rw [findEntry_file hdir] at h
      obtain rfl := Option.some.inj h
      have hreports : fs.reports filter pos = filter pos false := by rw [FileSystem.reports, hdir]
      refine ⟨[pos], rfl, fun out' => ?_⟩
      rw [findEntry_file hdir]
      by_cases hkeep : filter pos false = true
      · rw [if_pos hkeep, List.filter_cons_of_pos (hreports.trans hkeep)]
        rfl
      · rw [if_neg hkeep, List.filter_cons_of_neg (by rwa [hreports]), List.filter_nil,
          List.append_nil]
        rfl
    | true =>
      have hreports : fs.reports filter pos = true := by
        rw [FileSystem.reports, hdir]
        exact hdirs pos
      rw [findEntry_enter hdir rfl] at h
      obtain ⟨below, hleft, hbelow⟩ := hdescend _ _ _ h
      refine ⟨pos :: below, by rw [hleft, List.append_assoc]; rfl, fun out' => ?_⟩
      rw [findEntry_enter hdir (hdirs pos), hbelow, List.filter_cons_of_pos hreports,
        List.append_assoc]
      rfl

/-- It leaves a part of what is there. -/
lemma findEntries_reports {error : Option FilesystemError} {paths out : List Str} {walked : Found}
    (h : findEntries fs (fun _ _ => true) descend error paths out = some walked) :
    ∃ added, walked.left = out ++ added ∧ ∀ out', findEntries fs filter descend' error paths out' =
      some ⟨out' ++ added.filter (fs.reports filter), walked.thrown⟩ := by
  induction paths generalizing out with
  | nil =>
    obtain rfl := Option.some.inj h
    exact ⟨[], (List.append_nil _).symm, fun out' => by rw [List.filter_nil, List.append_nil]; rfl⟩
  | cons pos rest ih =>
    rw [findEntries_cons] at h
    obtain ⟨inner, hinner, hbehind⟩ := Option.bind_eq_some_iff.mp h
    obtain ⟨added, hleft, hturn⟩ := findEntry_reports hdirs hdescend hinner
    cases hthrown : inner.thrown with
    | some ex =>
      -- the turn throws, and nothing behind it is met
      rw [hthrown] at hbehind
      obtain rfl := Option.some.inj hbehind
      refine ⟨added, hleft, fun out' => ?_⟩
      rw [findEntries_cons, hturn, Option.bind_some, hthrown]
    | none =>
      rw [hthrown] at hbehind
      obtain ⟨added', hleft', hrest⟩ := ih hbehind
      refine ⟨added ++ added', by rw [hleft', hleft, List.append_assoc], fun out' => ?_⟩
      rw [findEntries_cons, hturn, Option.bind_some, hthrown, List.filter_append,
        ← List.append_assoc]
      exact hrest _

omit hdescend in
lemma findFiles_reports {levels : ℕ} {dirPath : Str}
    {out : List Str} {walked : Found}
    (h : findFiles fs (fun _ _ => true) levels dirPath out = some walked) :
    ∃ added, walked.left = out ++ added ∧ ∀ out', findFiles fs filter levels dirPath out' =
      some ⟨out' ++ added.filter (fs.reports filter), walked.thrown⟩ := by
  induction levels generalizing dirPath out walked with
  | zero => cases h
  | succ levels ih => exact findEntries_reports hdirs (fun _ _ _ hinner => ih hinner) h

end Reports

end Levels

end OldPart
