import OldPart.Opc.FileHandler

/-!
# The handlers of the basic service

Each fills a response and leaves the rest to the exception it catches.  The response is sent by the
guard that has made it, whatever has happened.
-/

namespace OldPart

def FileSystem.getFileInfo (fs : FileSystem) (p : Str) : Except FilesystemError FileInfo := do
  let fStatus ← fs.status p
  let size ← fs.fileSize p
  let lastModifyTime ← fs.lastWriteTime p
  let isSymlink ← fs.isSymlink p
  let link2 ← if isSymlink then fs.readSymlink p else pure []
  return ⟨fStatus.value, p, link2, size, lastModifyTime⟩

/-- `GetFileInfo` and `push_back`. -/
def FileSystem.pushInfo (fs : FileSystem) (p : Str) (files : List FileInfo) :
    Attempt FilesystemError (List FileInfo) :=
  .push (fs.getFileInfo p) files

section Handlers

variable (h : Host)

/-- The `try` block of `OnListFilesRequest`. -/
def listFiles (fs : FileSystem) (p : Str) : Attempt FilesystemError (List FileInfo) :=
  (fs.pushInfo p []).andThen fun files =>
    match fs.isDirectory p with
    | .error ex => ⟨files, some ex⟩
    | .ok false => .done files
    | .ok true =>
        (Attempt.forEach fs.pushInfo (fs.directory p).paths files).andThen fun files =>
          ⟨files, (fs.directory p).error⟩

def onListFilesRequest (request : ListFilesRequest) : ListFilesResponse :=
  let files := (listFiles h.fs request.path).mapThrown Thrown.filesystemError
  { ResponseFields.caught {} files.thrown with files := files.left }

def onFindFilesRequest (levels : ℕ) (request : FindFilesRequest) : Option FindFilesResponse := do
  let found ← findFilesMatching h levels request.path request.pattern []
  let files : Attempt Thrown (List FileInfo) :=
    match found.thrown with
    | some ex => ⟨[], some ex⟩
    | none => (Attempt.forEach h.fs.pushInfo found.left []).mapThrown .filesystemError
  return { ResponseFields.caught {} files.thrown with files := files.left }

/-- The checks of `before` and `after`, by the name of the request. -/
def checkContext (request : String) (before after : Int32) : Option Thrown :=
  if before < 0 then
    some (.exception (.literal (request ++ "::before should greatequal 0")))
  else if after < 0 then
    some (.exception (.literal (request ++ "::after should greatequal 0")))
  else none

/-- No number of lines is negative. -/
lemma checkContext_eq_none_iff (name : String) {before after : Int32} :
    checkContext name before after = none ↔ 0 ≤ before ∧ 0 ≤ after := by
  rw [checkContext]
  by_cases hbefore : before < 0
  · rw [if_pos hbefore]
    refine ⟨fun hnone => (nomatch hnone), fun hnonneg => ?_⟩
    exact (Int32.not_le.mpr hbefore hnonneg.1).elim
  · rw [if_neg hbefore]
    by_cases hafter : after < 0
    · rw [if_pos hafter]
      refine ⟨fun hnone => (nomatch hnone), fun hnonneg => ?_⟩
      exact (Int32.not_le.mpr hafter hnonneg.2).elim
    · rw [if_neg hafter]
      exact ⟨fun _ => ⟨Int32.not_lt.mp hbefore, Int32.not_lt.mp hafter⟩, fun _ => rfl⟩

def onGrepFileRequest (request : GrepFileRequest) : GrepFileResponse :=
  let response : Attempt Thrown GrepFileResponse :=
    match checkContext "GrepFileRequest" request.before request.after with
    | some ex => ⟨{}, some ex⟩
    | none => grepFile h {} request.path request.pattern request.before request.after
  { response.left with
    toResponseFields := response.left.toResponseFields.caught response.thrown }

/-- `emplace_back`, and `GrepFile` into the new element for `path`.  The file that is read is that
under `p`. -/
def grepInto (p pattern : Str) (before after : Int32) (path : Str)
    (allMatches : List GrepFilesResult) : Attempt Thrown (List GrepFilesResult) :=
  let singleMatches := grepFile h {} p pattern before after
  ⟨allMatches ++ [⟨path, singleMatches.left⟩], singleMatches.thrown⟩

def onGrepFilesRequest (levels : ℕ) (request : GrepFilesRequest) : Option GrepFilesResponse :=
  match checkContext "GrepFilesRequest" request.before request.after with
  | some ex => some { ResponseFields.caught {} (some ex) with }
  | none => do
      -- the files are found with `pattern`, and what is read is `path`
      let found ← findFilesMatching h levels request.path request.pattern []
      let allMatches : Attempt Thrown (List GrepFilesResult) :=
        match found.thrown with
        | some ex => ⟨[], some ex⟩
        | none => Attempt.forEach
            (grepInto h request.path request.pattern request.before request.after) found.left []
      return { ResponseFields.caught {} allMatches.thrown with allMatches := allMatches.left }

/-! ## The answers for what is found -/

variable {h}

/-- The answer to a search in files that cannot be found. -/
lemma onGrepFilesRequest_of_thrown {levels : ℕ} {request : GrepFilesRequest} {found : List Str}
    {ex : Thrown} (hcheck : checkContext "GrepFilesRequest" request.before request.after = none)
    (hfound : findFilesMatching h levels request.path request.pattern [] = some ⟨found, some ex⟩) :
    onGrepFilesRequest h levels request = some { ResponseFields.caught {} (some ex) with } := by
  rw [onGrepFilesRequest]
  simp only [hcheck, hfound]
  rfl

/-- The answer to a search for files. -/
lemma onFindFilesRequest_of_found {levels : ℕ} {request : FindFilesRequest} {found : List Str}
    (hfound : findFilesMatching h levels request.path request.pattern [] = some (.done found)) :
    onFindFilesRequest h levels request =
      let files := (Attempt.forEach h.fs.pushInfo found []).mapThrown Thrown.filesystemError
      some { ResponseFields.caught {} files.thrown with files := files.left } := by
  rw [onFindFilesRequest, hfound]
  rfl

/-- The answer to a search in files. -/
lemma onGrepFilesRequest_of_found {levels : ℕ} {request : GrepFilesRequest} {found : List Str}
    (hcheck : checkContext "GrepFilesRequest" request.before request.after = none)
    (hfound : findFilesMatching h levels request.path request.pattern [] = some (.done found)) :
    onGrepFilesRequest h levels request =
      let allMatches := Attempt.forEach
        (grepInto h request.path request.pattern request.before request.after) found []
      some { ResponseFields.caught {} allMatches.thrown with allMatches := allMatches.left } := by
  rw [onGrepFilesRequest]
  simp only [hcheck, hfound]
  rfl

end Handlers

end OldPart
