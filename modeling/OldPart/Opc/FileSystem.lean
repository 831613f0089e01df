import Mathlib.Data.List.Basic

/-!
# The file system

Boost.Filesystem and `std::fstream`, as the state of a file system answers their calls.  The state
is a parameter, and stays what it is while a request is handled.
-/

namespace OldPart

/-- `std::string`, and the path of one. -/
abbrev Str := List UInt8

/-- A string literal. -/
def Str.literal (s : String) : Str := s.toUTF8.data.toList

/-- `fs::filesystem_error`: the value of its code, which is that of an error, and `what()`. -/
structure FilesystemError where
  code : Int32
  code_ne_zero : code ≠ 0
  what : Str

/-- `fs::file_type`. -/
inductive FileKind where
  | statusError
  | fileNotFound
  | regularFile
  | directoryFile
  | symlinkFile
  | blockFile
  | characterFile
  | fifoFile
  | socketFile
  | reparseFile
  | typeUnknown
deriving DecidableEq, Repr

/-- Its value, as `FileType::type` takes it. -/
def FileKind.value : FileKind → Int32
  | statusError => 0
  | fileNotFound => 1
  | regularFile => 2
  | directoryFile => 3
  | symlinkFile => 4
  | blockFile => 5
  | characterFile => 6
  | fifoFile => 7
  | socketFile => 8
  | reparseFile => 9
  | typeUnknown => 10

/-- What a `fs::directory_iterator` goes over, until the end or an error. -/
structure Listing where
  paths : List Str
  error : Option FilesystemError

/-- The answers to the calls that can be made for a path.  `status` follows links and
`isSymlink` does not, and neither throws because there is nothing.  `content` is what a
`std::fstream` opened with `std::ios::binary|std::ios::in` can read, if it is open. -/
structure FileSystem where
  status : Str → Except FilesystemError FileKind
  fileSize : Str → Except FilesystemError UInt64
  lastWriteTime : Str → Except FilesystemError Int64
  isSymlink : Str → Except FilesystemError Bool
  readSymlink : Str → Except FilesystemError Str
  directory : Str → Listing
  content : Str → Option (List UInt8)

/-- `fs::is_directory`. -/
def FileSystem.isDirectory (fs : FileSystem) (p : Str) : Except FilesystemError Bool := do
  let kind ← fs.status p
  return kind == .directoryFile

/-- What the handlers catch. -/
inductive Thrown where
  | filesystemError (ex : FilesystemError)
  | exception (what : Str)

end OldPart
