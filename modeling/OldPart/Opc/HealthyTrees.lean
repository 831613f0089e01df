import OldPart.Opc.GrepContext
import OldPart.Opc.OPCBasic
import OldPart.Opc.Walk

/-!
# Listing and finding where nothing is wrong

`GetFileInfo` asks for the size of everything it is given, and a directory has none.  So the first
directory that is listed or found turns the answer into an error.
-/

namespace OldPart

namespace FileSystem

variable (fs : FileSystem)

/-- What Boost.Filesystem documents of the calls in `GetFileInfo`: what exists has a time and is a
link or not, a link can be read, and what exists has a size exactly when it is a regular file. -/
structure Lawful : Prop where
  fileSize_regular : ∀ p, fs.status p = .ok .regularFile → ∃ n, fs.fileSize p = .ok n
  fileSize_other : ∀ p kind, fs.status p = .ok kind → kind ≠ .regularFile →
    ∃ ex, fs.fileSize p = .error ex
  lastWriteTime : ∀ p kind, fs.status p = .ok kind → kind ≠ .fileNotFound →
    ∃ t, fs.lastWriteTime p = .ok t
  isSymlink : ∀ p kind, fs.status p = .ok kind → ∃ b, fs.isSymlink p = .ok b
  readSymlink : ∀ p, fs.isSymlink p = .ok true → ∃ q, fs.readSymlink p = .ok q

/-- A finite tree of regular files and directories that can be read. -/
inductive Healthy : Str → Prop
  | file {p : Str} (status : fs.status p = .ok .regularFile) : Healthy p
  | directory {p : Str} (status : fs.status p = .ok .directoryFile)
      (listed : (fs.directory p).error = none) (entries : ∀ q ∈ (fs.directory p).paths, Healthy q) :
      Healthy p

variable {fs}

/-- What is in a directory in which nothing is wrong. -/
lemma Healthy.entry {p q : Str} (h : fs.Healthy p) (hdir : fs.status p = .ok .directoryFile)
    (hq : q ∈ (fs.directory p).paths) : fs.Healthy q := by
  cases h with
  | file hfile =>
    rw [hfile] at hdir
    cases hdir
  | directory _ _ hentries => exact hentries q hq

/-- `FindFiles` comes to its end. -/
lemma Healthy.passable {p : Str} (h : fs.Healthy p) : fs.Passable p := by
  induction h with
  | file hfile => exact .other (isDirectory_eq hfile)
  | directory hdir hlisted _ ih => exact .directory (isDirectory_eq hdir) hlisted ih

/-- A regular file has a `FileInfo`. -/
lemma Lawful.getFileInfo_regular (hlaw : fs.Lawful) {p : Str}
    (h : fs.status p = .ok .regularFile) : ∃ info, fs.getFileInfo p = .ok info := by
  obtain ⟨size, hsize⟩ := hlaw.fileSize_regular p h
  obtain ⟨t, htime⟩ := hlaw.lastWriteTime p _ h (by decide)
  obtain ⟨b, hlink⟩ := hlaw.isSymlink p _ h
  rw [getFileInfo, h, hsize, htime, hlink]
  cases b with
  | false => exact ⟨_, rfl⟩
  | true =>
    obtain ⟨q, hq⟩ := hlaw.readSymlink p hlink
    rw [hq]
    exact ⟨_, rfl⟩

/-- Nothing else has one. -/
lemma Lawful.getFileInfo_other (hlaw : fs.Lawful) {p : Str} {kind : FileKind}
    (h : fs.status p = .ok kind) (hne : kind ≠ .regularFile) :
    ∃ ex, fs.getFileInfo p = .error ex := by
  obtain ⟨ex, hsize⟩ := hlaw.fileSize_other p kind h hne
  rw [getFileInfo, h, hsize]
  exact ⟨ex, rfl⟩

end FileSystem

/-! ## Finding -/

section Find

variable {fs : FileSystem} {filter : PathFilter}

/-- Where nothing is wrong `FindFiles` adds everything that it may enter. -/
lemma findFiles_healthy {p : Str} (hhealthy : fs.Healthy p)
    (hdir : fs.status p = .ok .directoryFile) (out : List Str) :
    ∃ levels, findFiles fs filter levels p out =
        some (.done (out ++ fs.walk filter levels p)) ∧
      ∀ r, r ∈ fs.walk filter levels p ↔ Relation.TransGen (fs.Enters filter) p r :=
  findFiles_passable hhealthy.passable (FileSystem.isDirectory_eq hdir) out

/-- What is below a directory in which nothing is wrong. -/
lemma healthy_of_below {p r : Str} (hhealthy : fs.Healthy p) (h : fs.Below p r) :
    fs.Healthy r := by
  have hstep : ∀ {a b : Str}, fs.Healthy a → b ∈ fs.entries a → fs.Healthy b := by
    intro a b ha hb
    obtain ⟨hdir, hmem⟩ := FileSystem.mem_entries hb
    cases ha with
    | file hfile =>
      rw [FileSystem.isDirectory_eq hfile] at hdir
      cases hdir
    | directory _ _ hentries => exact hentries b hmem
  induction h with
  | single hb => exact hstep hhealthy hb
  | tail _ hb ih => exact hstep ih hb

end Find

/-! ## The answers -/

/-- A request to list or to find. -/
inductive FilesRequest where
  | list (request : ListFilesRequest)
  | find (request : FindFilesRequest)
deriving DecidableEq, Repr

namespace FilesRequest

variable (h : Host)

/-- The request is for a tree in which nothing is wrong; what is searched is a directory, for a
valid pattern. -/
def Asks : FilesRequest → Prop
  | list request => h.fs.Healthy request.path
  | find request => h.fs.Healthy request.path ∧
      h.fs.status request.path = .ok .directoryFile ∧ ∃ regex, h.compile request.pattern = .ok regex

/-- The answer has `errCode` 0, and a `FileInfo` for the path and for each of its entries, or for
each path that `FindFiles` reports. -/
def Succeeds : FilesRequest → Prop
  | list request =>
      (onListFilesRequest h request).errCode = 0 ∧
        List.Forall₂ (fun q info => h.fs.getFileInfo q = .ok info)
          (request.path :: h.fs.entries request.path) (onListFilesRequest h request).files
  | find request =>
      ∃ levels response found, onFindFilesRequest h levels request = some response ∧
        findFilesMatching h levels request.path request.pattern [] = some (.done found) ∧
        response.errCode = 0 ∧
        List.Forall₂ (fun q info => h.fs.getFileInfo q = .ok info) found response.files

/-- What is listed is a regular file, and the directory that is searched has no directories in
it. -/
def AvoidsDirectories : FilesRequest → Prop
  | list request => h.fs.status request.path = .ok .regularFile
  | find request => ∀ q ∈ (h.fs.directory request.path).paths, h.fs.status q = .ok .regularFile

end FilesRequest

section Answers

/-- Without a `FileInfo` for the path nothing is listed. -/
lemma listFiles_of_error {fs : FileSystem} {p : Str} {ex : FilesystemError}
    (hinfo : fs.getFileInfo p = .error ex) : listFiles fs p = ⟨[], some ex⟩ := by
  rw [listFiles, FileSystem.pushInfo, hinfo]
  rfl

/-- What is not a directory is listed alone. -/
lemma listFiles_of_file {fs : FileSystem} {p : Str} {info : FileInfo}
    (hinfo : fs.getFileInfo p = .ok info) (hisDir : fs.isDirectory p = .ok false) :
    listFiles fs p = .done [info] := by
  rw [listFiles, FileSystem.pushInfo, hinfo, hisDir]
  rfl

/-- What is thrown while something is listed is reported. -/
lemma errCode_onListFilesRequest_ne_zero {h : Host} {p : Str} {ex : FilesystemError}
    (hthrown : (listFiles h.fs p).thrown = some ex) : (onListFilesRequest h ⟨p⟩).errCode ≠ 0 := by
  show (ResponseFields.caught {} ((listFiles h.fs p).thrown.map Thrown.filesystemError)).errCode ≠ 0
  rw [hthrown]
  exact ResponseFields.errCode_caught_ne_zero {} (.filesystemError ex)

variable {h : Host} (hlaw : h.fs.Lawful)
include hlaw

/-- A regular file is listed. -/
lemma listFiles_file {p : Str} (hfile : h.fs.status p = .ok .regularFile) :
    FilesRequest.Succeeds h (.list ⟨p⟩) := by
  obtain ⟨info, hinfo⟩ := hlaw.getFileInfo_regular hfile
  have hisDir : h.fs.isDirectory p = .ok false := FileSystem.isDirectory_eq hfile
  have hrun : listFiles h.fs p = .done [info] := listFiles_of_file hinfo hisDir
  rw [FilesRequest.Succeeds, onListFilesRequest, FileSystem.entries, hisDir]
  simp only [hrun]
  exact ⟨rfl, List.Forall₂.cons hinfo List.Forall₂.nil⟩

/-- A directory is not listed. -/
lemma errCode_listFiles_directory {p : Str} (hdir : h.fs.status p = .ok .directoryFile) :
    (onListFilesRequest h ⟨p⟩).errCode ≠ 0 := by
  obtain ⟨ex, hinfo⟩ := hlaw.getFileInfo_other hdir (by decide)
  exact errCode_onListFilesRequest_ne_zero (congrArg Attempt.thrown (listFiles_of_error hinfo))

/-- What `FindFiles` reports is answered with one `FileInfo` for each path, when these are regular
files. -/
lemma onFindFilesRequest_regular {levels : ℕ} {request : FindFilesRequest} {found : List Str}
    (hfound : findFilesMatching h levels request.path request.pattern [] = some (.done found))
    (hregular : ∀ q ∈ found, h.fs.status q = .ok .regularFile) :
    ∃ files, onFindFilesRequest h levels request = some { files := files } ∧
      List.Forall₂ (fun q info => h.fs.getFileInfo q = .ok info) found files := by
  obtain ⟨files, hrun, hfiles⟩ :=
    Attempt.forEach_push_of_ok (fun q hq => hlaw.getFileInfo_regular (hregular q hq)) []
  refine ⟨files, ?_, hfiles⟩
  have hpush : Attempt.forEach h.fs.pushInfo found [] = .done files := hrun
  rw [onFindFilesRequest_of_found hfound, hpush]
  rfl

/-- A directory among what `FindFiles` reports is answered with an error. -/
lemma errCode_onFindFilesRequest_directory {levels : ℕ} {request : FindFilesRequest}
    {found : List Str}
    (hfound : findFilesMatching h levels request.path request.pattern [] = some (.done found))
    {q : Str} (hq : q ∈ found) (hdir : h.fs.status q = .ok .directoryFile)
    {response : FindFilesResponse}
    (hresponse : onFindFilesRequest h levels request = some response) :
    response.errCode ≠ 0 := by
  obtain ⟨ex, hinfo⟩ := hlaw.getFileInfo_other hdir (by decide)
  obtain ⟨ex', hthrown⟩ := Attempt.forEach_push_of_error hq hinfo []
  have hpush : (Attempt.forEach h.fs.pushInfo found []).thrown = some ex' := hthrown
  rw [onFindFilesRequest_of_found hfound] at hresponse
  obtain rfl := Option.some.inj hresponse
  show (ResponseFields.caught {} ((Attempt.forEach h.fs.pushInfo found []).mapThrown
    Thrown.filesystemError).thrown).errCode ≠ 0
  rw [Attempt.thrown_mapThrown, hpush]
  exact ResponseFields.errCode_caught_ne_zero {} (.filesystemError ex')

/-- A directory without directories is searched. -/
lemma findFiles_succeeds {request : FindFilesRequest}
    (hasks : FilesRequest.Asks h (.find request))
    (havoids : FilesRequest.AvoidsDirectories h (.find request)) :
    FilesRequest.Succeeds h (.find request) := by
  obtain ⟨hhealthy, hdir, regex, hcompile⟩ := hasks
  obtain ⟨levels, hrun, hmem⟩ := findFiles_healthy hhealthy hdir []
  have hfound := findFilesMatching_of_ok hcompile hrun
  have hregular : ∀ q ∈ h.fs.walk regex.filter levels request.path,
      h.fs.status q = .ok .regularFile := by
    intro q hq
    obtain ⟨hbelow, -⟩ := FileSystem.below_of_enters ((hmem q).mp hq)
    exact havoids q (hbelow.mem_of_regular havoids)
  obtain ⟨files, hresponse, hfiles⟩ := onFindFilesRequest_regular hlaw hfound hregular
  exact ⟨levels, _, _, hresponse, hfound, rfl, hfiles⟩

/-- A directory with a directory in it is not. -/
lemma findFiles_avoidsDirectories {request : FindFilesRequest}
    (hasks : FilesRequest.Asks h (.find request))
    (hsucceeds : FilesRequest.Succeeds h (.find request)) :
    FilesRequest.AvoidsDirectories h (.find request) := by
  obtain ⟨hhealthy, hdir, regex, hcompile⟩ := hasks
  obtain ⟨levels, response, found, hresponse, hfound, hok, -⟩ := hsucceeds
  obtain ⟨levels', hrun, hmem⟩ := findFiles_healthy hhealthy hdir []
  have hwalk := findFilesMatching_of_ok hcompile hrun
  obtain rfl := congrArg Attempt.left (findFilesMatching_unique hfound hwalk)
  intro q hq
  have hentry := hhealthy.entry hdir hq
  cases hentry with
  | file hregular => exact hregular
  | directory hstatus =>
    have henters : h.fs.Enters regex.filter request.path q :=
      ⟨FileSystem.entries_eq (FileSystem.isDirectory_eq hdir) ▸ hq, FileSystem.reports_eq hstatus⟩
    have hq := (hmem q).mpr (.single henters)
    exact (errCode_onFindFilesRequest_directory hlaw hfound hq hstatus hresponse hok).elim

/-- Listing and finding succeed exactly where no directory needs a size. -/
theorem succeeds_iff_avoidsDirectories (request : FilesRequest) (hasks : request.Asks h) :
    request.Succeeds h ↔ request.AvoidsDirectories h := by
  cases request with
  | find request => exact ⟨findFiles_avoidsDirectories hlaw hasks, findFiles_succeeds hlaw hasks⟩
  | list request =>
    refine ⟨fun hsucceeds => ?_, listFiles_file hlaw⟩
    have hhealthy : h.fs.Healthy request.path := hasks
    cases hhealthy with
    | file hfile => exact hfile
    | directory hdir => exact (errCode_listFiles_directory hlaw hdir hsucceeds.1).elim

end Answers

/-! ## A directory with a file in it -/

lemma FileSystem.lawful_ofNodes (nodes : Str → Option Node) : (ofNodes nodes).Lawful where
  fileSize_regular p h := by
    cases hnode : nodes p with
    | none => simp [ofNodes, hnode] at h
    | some node => cases node <;> simp_all [ofNodes]
  fileSize_other p kind h hne := by
    cases hnode : nodes p with
    | none => simp [ofNodes, hnode]
    | some node => cases node <;> simp_all [ofNodes]
  lastWriteTime p kind h hne := by
    cases hnode : nodes p with
    | none => simp_all [ofNodes]
    | some node => exact ⟨0, by simp [ofNodes, hnode]⟩
  isSymlink _ _ _ := ⟨false, rfl⟩
  readSymlink _ h := by cases h

/-- The directory `d`, and the line `a` in the file `d/f`. -/
def oneDirectory : Host := .ofNodes fun p =>
  if p = [100] then some (.directory [[100, 47, 102]])
  else if p = [100, 47, 102] then some (.file [97, 10])
  else none

lemma healthy_oneDirectory : oneDirectory.fs.Healthy [100] := by
  refine .directory rfl rfl fun q hq => ?_
  obtain rfl := List.mem_singleton.mp hq
  exact .file rfl

/-- A directory is not listed. -/
theorem not_succeeds_oneDirectory :
    oneDirectory.fs.Lawful ∧ FilesRequest.Asks oneDirectory (.list ⟨[100]⟩) ∧
      ¬FilesRequest.Succeeds oneDirectory (.list ⟨[100]⟩) := by
  have hlaw : oneDirectory.fs.Lawful := FileSystem.lawful_ofNodes _
  exact ⟨hlaw, healthy_oneDirectory, fun h => errCode_listFiles_directory hlaw rfl h.1⟩

/-- Its file is found. -/
theorem succeeds_oneDirectory :
    FilesRequest.Succeeds oneDirectory (.find ⟨[100], [102]⟩) := by
  refine (succeeds_iff_avoidsDirectories (FileSystem.lawful_ofNodes _) (.find ⟨[100], [102]⟩)
    ⟨healthy_oneDirectory, rfl, .ofLetter 102, rfl⟩).mpr fun q hq => ?_
  obtain rfl := List.mem_singleton.mp hq
  rfl

end OldPart
