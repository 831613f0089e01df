import OldPart.Opc.HealthyTrees

/-!
# What is reported of a path that cannot be opened

The macro around the handlers sees exceptions only.  An iterator throws one for a path it cannot
open and a stream does not, so a search in a file that is not there is answered like a search in an
empty one.  A file that is only listed is not opened at all.
-/

namespace OldPart

namespace FileSystem

variable (fs : FileSystem)

/-- There is nothing under the path, or what is there cannot be opened. -/
inductive Unreachable (p : Str) : Prop
  | missing (status : fs.status p = .ok .fileNotFound)
  | directory (status : fs.status p = .ok .directoryFile) (ex : FilesystemError)
      (listing : fs.directory p = ⟨[], some ex⟩)
  | file (status : fs.status p ≠ .ok .directoryFile) (content : fs.content p = none)

/-- What Boost.Filesystem documents of the calls that fail: nothing has no size, and only a
directory can be iterated. -/
structure Throws : Prop where
  fileSize : ∀ p, fs.status p = .ok .fileNotFound → ∃ ex, fs.fileSize p = .error ex
  directory : ∀ p, fs.status p ≠ .ok .directoryFile → ∃ ex, fs.directory p = ⟨[], some ex⟩

variable {fs}

/-- The iterator throws for what cannot be reached. -/
lemma Unreachable.directory_eq {p : Str} (h : fs.Unreachable p) (hthrows : fs.Throws) :
    ∃ ex, fs.directory p = ⟨[], some ex⟩ := by
  cases h with
  | missing hstatus =>
    refine hthrows.directory p fun hdir => ?_
    rw [hstatus] at hdir
    cases hdir
  | directory _ ex hlisting => exact ⟨ex, hlisting⟩
  | file hstatus => exact hthrows.directory p hstatus

/-- Nothing has no `FileInfo`. -/
lemma Throws.getFileInfo_missing (hthrows : fs.Throws) {p : Str}
    (h : fs.status p = .ok .fileNotFound) : ∃ ex, fs.getFileInfo p = .error ex := by
  obtain ⟨ex, hsize⟩ := hthrows.fileSize p h
  rw [getFileInfo, h, hsize]
  exact ⟨ex, rfl⟩

end FileSystem

/-- A request with a path. -/
inductive PathRequest where
  | list (request : ListFilesRequest)
  | find (request : FindFilesRequest)
  | grepFile (request : GrepFileRequest)
  | grepFiles (request : GrepFilesRequest)
deriving DecidableEq, Repr

namespace PathRequest

/-- The path. -/
def path : PathRequest → Str
  | list request => request.path
  | find request => request.path
  | grepFile request => request.path
  | grepFiles request => request.path

variable (h : Host)

/-- The `errCode` of the response. -/
def errCode (levels : ℕ) : PathRequest → Option Int32
  | list request => some (onListFilesRequest h request).errCode
  | find request => (onFindFilesRequest h levels request).map fun response => response.errCode
  | grepFile request => some (onGrepFileRequest h request).errCode
  | grepFiles request => (onGrepFilesRequest h levels request).map fun response => response.errCode

/-- A path that cannot be reached is answered with an error. -/
def Reported (request : PathRequest) : Prop :=
  h.fs.Unreachable request.path →
    ∃ levels code, request.errCode h levels = some code ∧ code ≠ 0

/-- A request that is refused before a line is read: a number of lines is negative, `before` is the
largest `int32_t`, or the pattern is not valid. -/
def Refused (request : GrepFileRequest) : Prop :=
  request.before < 0 ∨ request.after < 0 ∨ request.before + 1 < 0 ∨
    ∃ what, h.compile request.pattern = .error what

/-- What is listed is no file that cannot be opened and has a `FileInfo`.  A search in one file is
refused, or the file can be reached. -/
def Opens : PathRequest → Prop
  | list request =>
      h.fs.content request.path = none → h.fs.isDirectory request.path = .ok false →
        ∃ ex, h.fs.getFileInfo request.path = .error ex
  | find _ => True
  | grepFile request => Refused h request ∨ ¬h.fs.Unreachable request.path
  | grepFiles _ => True

end PathRequest

/-! ## Iterators -/

section Iterators

variable {h : Host} {p : Str} {ex : FilesystemError}

/-- The walk is over before it begins. -/
lemma findFilesMatching_unreachable (hdir : h.fs.directory p = ⟨[], some ex⟩) (pattern : Str) :
    ∃ thrown : Thrown, findFilesMatching h 1 p pattern [] = some ⟨[], some thrown⟩ := by
  rw [findFilesMatching]
  cases h.compile pattern with
  | error what => exact ⟨.exception what, rfl⟩
  | ok regex =>
    refine ⟨.filesystemError ex, ?_⟩
    simp only [findFiles, hdir]
    rfl

/-- A search for files is answered with an error. -/
lemma reported_find (hdir : h.fs.directory p = ⟨[], some ex⟩) (pattern : Str) :
    PathRequest.Reported h (.find ⟨p, pattern⟩) := by
  obtain ⟨thrown, hfound⟩ := findFilesMatching_unreachable hdir pattern
  refine fun _ => ⟨1, _, ?_, ResponseFields.errCode_caught_ne_zero {} thrown⟩
  rw [PathRequest.errCode, onFindFilesRequest, hfound]
  rfl

/-- So is a search in files. -/
lemma reported_grepFiles {request : GrepFilesRequest}
    (hdir : h.fs.directory request.path = ⟨[], some ex⟩) :
    PathRequest.Reported h (.grepFiles request) := by
  obtain ⟨thrown, hfound⟩ := findFilesMatching_unreachable hdir request.pattern
  cases hcheck : checkContext "GrepFilesRequest" request.before request.after with
  | some thrown' =>
    refine fun _ => ⟨1, _, ?_, ResponseFields.errCode_caught_ne_zero {} thrown'⟩
    simp only [PathRequest.errCode, onGrepFilesRequest, hcheck]
    rfl
  | none =>
    refine fun _ => ⟨1, _, ?_, ResponseFields.errCode_caught_ne_zero {} thrown⟩
    rw [PathRequest.errCode, onGrepFilesRequest_of_thrown hcheck hfound]
    rfl

/-- So is the listing of a directory. -/
lemma errCode_listFiles_unreachable (hisDir : h.fs.isDirectory p = .ok true)
    (hdir : h.fs.directory p = ⟨[], some ex⟩) : (onListFilesRequest h ⟨p⟩).errCode ≠ 0 := by
  cases hinfo : h.fs.getFileInfo p with
  | error ex' =>
    exact errCode_onListFilesRequest_ne_zero (congrArg Attempt.thrown (listFiles_of_error hinfo))
  | ok info =>
    have hrun : listFiles h.fs p = ⟨[info], some ex⟩ := by
      rw [listFiles, FileSystem.pushInfo, hinfo, hisDir, hdir]
      rfl
    exact errCode_onListFilesRequest_ne_zero (congrArg Attempt.thrown hrun)

end Iterators

/-! ## Files -/

section Files

variable {h : Host}

/-- A file that cannot be opened is listed like any other. -/
lemma reported_list_iff (hthrows : h.fs.Throws) (request : ListFilesRequest) :
    PathRequest.Reported h (.list request) ↔ PathRequest.Opens h (.list request) := by
  constructor
  · intro hreported hcontent hisDir
    have hstatus : h.fs.status request.path ≠ .ok .directoryFile := by
      intro hstatus
      rw [FileSystem.isDirectory_eq hstatus] at hisDir
      cases hisDir
    obtain ⟨levels, code, hcode, hne⟩ := hreported (.file hstatus hcontent)
    cases hinfo : h.fs.getFileInfo request.path with
    | error ex => exact ⟨ex, rfl⟩
    | ok info =>
      have hzero : (onListFilesRequest h request).errCode = 0 := by
        show (ResponseFields.caught {}
          ((listFiles h.fs request.path).thrown.map Thrown.filesystemError)).errCode = 0
        rw [listFiles_of_file hinfo hisDir]
        rfl
      exact (hne ((Option.some.inj hcode).symm.trans hzero)).elim
  · intro hopens hunreachable
    have hlisted : ∀ {ex}, h.fs.getFileInfo request.path = .error ex →
        (onListFilesRequest h request).errCode ≠ 0 := fun hinfo =>
      errCode_onListFilesRequest_ne_zero (congrArg Attempt.thrown (listFiles_of_error hinfo))
    refine ⟨0, _, rfl, ?_⟩
    cases hunreachable with
    | missing hstatus =>
      obtain ⟨ex, hinfo⟩ := hthrows.getFileInfo_missing hstatus
      exact hlisted hinfo
    | directory hstatus ex hlisting =>
      exact errCode_listFiles_unreachable (FileSystem.isDirectory_eq hstatus) hlisting
    | file hstatus hcontent =>
      cases hkind : h.fs.status request.path with
      | error ex =>
        have hinfo : h.fs.getFileInfo request.path = .error ex := by
          rw [FileSystem.getFileInfo, hkind]
          rfl
        exact hlisted hinfo
      | ok kind =>
        have hisDir : h.fs.isDirectory request.path = .ok false := by
          rw [FileSystem.isDirectory_eq hkind]
          exact congrArg Except.ok (beq_eq_false_iff_ne.mpr fun hdir => hstatus (hdir ▸ hkind))
        obtain ⟨ex, hinfo⟩ := hopens hcontent hisDir
        exact hlisted hinfo

/-- A search in one file throws exactly when the request is refused. -/
lemma errCode_onGrepFileRequest_ne_zero_iff (request : GrepFileRequest) :
    (onGrepFileRequest h request).errCode ≠ 0 ↔ PathRequest.Refused h request := by
  rw [onGrepFileRequest]
  cases hcheck : checkContext "GrepFileRequest" request.before request.after with
  | some thrown =>
    refine ⟨fun _ => ?_, fun _ => ResponseFields.errCode_caught_ne_zero {} thrown⟩
    by_contra hrefused
    obtain ⟨hbefore, hafter, -⟩ := not_or.mp hrefused |>.imp_right not_or.mp
    have hnone := (checkContext_eq_none_iff "GrepFileRequest").mpr
      ⟨Int32.not_lt.mp hbefore, Int32.not_lt.mp hafter⟩
    rw [hcheck] at hnone
    cases hnone
  | none =>
    obtain ⟨hbefore, hafter⟩ := (checkContext_eq_none_iff _).mp hcheck
    cases hcompile : h.compile request.pattern with
    | error what =>
      refine ⟨fun _ => Or.inr (Or.inr (Or.inr ⟨what, hcompile⟩)), fun _ => ?_⟩
      simp only [grepFile, hcompile]
      exact ResponseFields.errCode_caught_ne_zero {} _
    | ok pattern =>
      by_cases hroom : request.before + 1 < 0
      · refine ⟨fun _ => Or.inr (Or.inr (Or.inl hroom)), fun _ => ?_⟩
        simp only [grepFile, hcompile, if_pos hroom]
        exact ResponseFields.errCode_caught_ne_zero {} _
      · simp only [grepFile_eq h {} request.path request.pattern hbefore (Int32.not_lt.mp hroom)
          hafter hcompile]
        refine ⟨fun hne => (hne rfl).elim, ?_⟩
        rintro (hneg | hneg | hneg | ⟨what, hinvalid⟩)
        · exact (Int32.not_lt.mpr hbefore hneg).elim
        · exact (Int32.not_lt.mpr hafter hneg).elim
        · exact (hroom hneg).elim
        · rw [hcompile] at hinvalid
          cases hinvalid

end Files

/-- What cannot be reached is answered with an error unless it is a file that is listed, or read for
a request that is not refused. -/
theorem reported_iff_opens {h : Host} (hthrows : h.fs.Throws) (request : PathRequest) :
    request.Reported h ↔ request.Opens h := by
  cases request with
  | list request => exact reported_list_iff hthrows request
  | find request =>
    refine ⟨fun _ => trivial, fun _ hunreachable => ?_⟩
    obtain ⟨ex, hdir⟩ := hunreachable.directory_eq hthrows
    exact reported_find hdir request.pattern hunreachable
  | grepFiles request =>
    refine ⟨fun _ => trivial, fun _ hunreachable => ?_⟩
    obtain ⟨ex, hdir⟩ := hunreachable.directory_eq hthrows
    exact reported_grepFiles hdir hunreachable
  | grepFile request =>
    constructor
    · intro hreported
      by_cases hunreachable : h.fs.Unreachable request.path
      · obtain ⟨levels, code, hcode, hne⟩ := hreported hunreachable
        obtain rfl := Option.some.inj hcode
        exact Or.inl ((errCode_onGrepFileRequest_ne_zero_iff request).mp hne)
      · exact Or.inr hunreachable
    · intro hopens hunreachable
      have hrefused := hopens.resolve_right (not_not_intro hunreachable)
      exact ⟨0, _, rfl, (errCode_onGrepFileRequest_ne_zero_iff request).mpr hrefused⟩

lemma FileSystem.throws_ofNodes (nodes : Str → Option Node) : (ofNodes nodes).Throws where
  fileSize p h := by
    cases hnode : nodes p with
    | none => simp [ofNodes, hnode]
    | some node => cases node <;> simp_all [ofNodes]
  directory p h := by
    cases hnode : nodes p with
    | none => simp [ofNodes, hnode]
    | some node => cases node <;> simp_all [ofNodes]

/-- A search in a file that is not there has nothing to report. -/
theorem not_reported_oneLine :
    oneLine.fs.Throws ∧ ¬PathRequest.Reported oneLine (.grepFile ⟨[103], [97], 0, 0⟩) := by
  refine ⟨FileSystem.throws_ofNodes _, fun hreported => ?_⟩
  obtain ⟨levels, code, hcode, hne⟩ := hreported (.missing rfl)
  exact hne (Option.some.inj hcode).symm

/-- A file that is not there is not listed. -/
theorem reported_oneLine : PathRequest.Reported oneLine (.list ⟨[103]⟩) :=
  (reported_iff_opens (FileSystem.throws_ofNodes _) (.list ⟨[103]⟩)).mpr fun _ _ =>
    ⟨.notFound, rfl⟩

end OldPart
