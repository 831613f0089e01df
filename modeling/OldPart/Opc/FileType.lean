import OldPart.Lib.Table
import OldPart.Opc.HealthyTrees
import OldPart.Proto.Buffer

/-!
# The type of a file that is reported

`GetFileInfo` casts a `fs::file_type` to a `FileType::type`, which has other enumerators.  Their
names come of the macros of `OEnum.h`.
-/

namespace OldPart

/-! ## `OEnum.h` -/

/-- A sequence of names and values, as the macros take it. -/
abbrev OEnum := List (Str × Int32)

namespace OEnum

/-- `OENUM_IMPL_TO_STRING`. -/
def toString (seq : OEnum) (enumName : String) (v : Int32) : Str :=
  let gEnum2String : Table Int32 Str := Table.empty.insertAll (seq.map fun x => (x.2, x.1))
  match gEnum2String v with
  | some name => name
  | none => Str.literal ("Unknow value for " ++ enumName)

end OEnum

/-! ## `FileType` -/

namespace FileType

/-- `FILE_TYPE_VALUES`. -/
def values : OEnum := [
  (Str.literal "None", 0x0),
  (Str.literal "NotFound", -1),
  (Str.literal "File", 0x1),
  (Str.literal "Directory", 0x2),
  (Str.literal "SymbolLink", 0x3),
  (Str.literal "Block", 0x4),
  (Str.literal "Character", 0x5),
  (Str.literal "Fifo", 0x6),
  (Str.literal "Socket", 0x7),
  (Str.literal "Unknown", 0x8)]

def toString (v : Int32) : Str := values.toString "FileType" v

end FileType

/-! ## What is reported -/

/-- What has a `FileInfo`, and the type in it. -/
lemma FileSystem.getFileInfo_eq_ok {fs : FileSystem} {p : Str} {info : FileInfo}
    (h : fs.getFileInfo p = .ok info) :
    info.name = p ∧ ∃ kind, fs.status p = .ok kind ∧ info.ftype = kind.value := by
  obtain ⟨kind, hstatus, h⟩ := exists_of_bind_eq_ok h
  obtain ⟨size, -, h⟩ := exists_of_bind_eq_ok h
  obtain ⟨lastModifyTime, -, h⟩ := exists_of_bind_eq_ok h
  obtain ⟨isSymlink, -, h⟩ := exists_of_bind_eq_ok h
  cases isSymlink with
  | false =>
    obtain rfl := Except.ok.inj h
    exact ⟨rfl, kind, hstatus, rfl⟩
  | true =>
    obtain ⟨link2, -, h⟩ := exists_of_bind_eq_ok h
    obtain rfl := Except.ok.inj h
    exact ⟨rfl, kind, hstatus, rfl⟩

namespace FilesRequest

variable (h : Host)

/-- The answer has the `FileInfo` in it. -/
def Reports (info : FileInfo) : FilesRequest → Prop
  | list request => info ∈ (onListFilesRequest h request).files
  | find request => ∃ levels response, onFindFilesRequest h levels request = some response ∧
      info ∈ response.files

variable {h} {info : FileInfo}

/-- What is listed has come from `GetFileInfo`. -/
lemma getFileInfo_of_mem_listFiles {fs : FileSystem} {p : Str}
    (hinfo : info ∈ (listFiles fs p).left) : ∃ q, fs.getFileInfo q = .ok info := by
  cases hfirst : fs.getFileInfo p with
  | error ex =>
    rw [listFiles_of_error hfirst] at hinfo
    exact absurd hinfo List.not_mem_nil
  | ok first =>
    have hpush : fs.pushInfo p [] = .done [first] := by
      rw [FileSystem.pushInfo, hfirst]
      rfl
    rw [listFiles, hpush, Attempt.andThen_done] at hinfo
    split at hinfo
    · obtain rfl := List.mem_singleton.mp hinfo
      exact ⟨p, hfirst⟩
    · obtain rfl := List.mem_singleton.mp hinfo
      exact ⟨p, hfirst⟩
    · rw [Attempt.left_andThen_of_keeps] at hinfo
      rcases Attempt.mem_left_forEach_push hinfo with hmem | ⟨q, -, hq⟩
      · obtain rfl := List.mem_singleton.mp hmem
        exact ⟨p, hfirst⟩
      · exact ⟨q, hq⟩

/-- So has what is found. -/
lemma getFileInfo_of_reports {request : FilesRequest} (hinfo : request.Reports h info) :
    ∃ q, h.fs.getFileInfo q = .ok info := by
  cases request with
  | list request => exact getFileInfo_of_mem_listFiles hinfo
  | find request =>
    obtain ⟨levels, response, hresponse, hinfo⟩ := hinfo
    obtain ⟨found, hfound, hresponse⟩ := Option.bind_eq_some_iff.mp hresponse
    obtain rfl := Option.some.inj hresponse
    dsimp only at hinfo
    split at hinfo
    · exact absurd hinfo List.not_mem_nil
    · rw [Attempt.mapThrown] at hinfo
      rcases Attempt.mem_left_forEach_push hinfo with hmem | ⟨q, -, hq⟩
      · exact absurd hmem List.not_mem_nil
      · exact ⟨q, hq⟩

/-- Whatever the tree is and whatever fails in it, each `FileInfo` in an answer is that of a regular
file, and its type reads `Directory`. -/
theorem reported_as_directory (hlaw : h.fs.Lawful) {request : FilesRequest}
    (hinfo : request.Reports h info) :
    h.fs.status info.name = .ok .regularFile ∧
      FileType.toString info.ftype = Str.literal "Directory" := by
  obtain ⟨q, hq⟩ := getFileInfo_of_reports hinfo
  obtain ⟨rfl, kind, hstatus, htype⟩ := FileSystem.getFileInfo_eq_ok hq
  by_cases hkind : kind = .regularFile
  · rw [htype, hstatus, hkind]
    exact ⟨rfl, by decide +kernel⟩
  · obtain ⟨ex, herror⟩ := hlaw.getFileInfo_other hstatus hkind
    rw [hq] at herror
    cases herror

/-- The file that is found in a directory. -/
theorem reported_as_directory_oneDirectory : ∃ info,
    Reports oneDirectory info (.find ⟨[100], [102]⟩) ∧ info.name = [100, 47, 102] ∧
      oneDirectory.fs.status info.name = .ok .regularFile ∧
        FileType.toString info.ftype = Str.literal "Directory" := by
  have hfiles : (onFindFilesRequest oneDirectory 2 ⟨[100], [102]⟩).map (fun r => r.files) =
      some [⟨2, [100, 47, 102], [], 2, 0⟩] := by decide +kernel
  obtain ⟨response, hresponse, hfiles⟩ := Option.map_eq_some_iff.mp hfiles
  have hreports : Reports oneDirectory ⟨2, [100, 47, 102], [], 2, 0⟩ (.find ⟨[100], [102]⟩) :=
    ⟨2, response, hresponse, hfiles ▸ List.mem_singleton_self _⟩
  exact ⟨_, hreports, rfl, reported_as_directory (FileSystem.lawful_ofNodes _) hreports⟩

end FilesRequest

end OldPart
