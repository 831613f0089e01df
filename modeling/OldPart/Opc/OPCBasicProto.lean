import OldPart.Opc.FileSystem

/-!
# Requests and responses of the basic service

The protos of `OPCBasicProto.h` that the handlers read and fill.  A new response, or an element of
one that `emplace_back` makes, holds zeros and empty strings and vectors.
-/

namespace OldPart

/-- `OMESSAGE_RESPONSE_FIELDS`. -/
structure ResponseFields where
  errCode : Int32 := 0
  errMsg : Str := []
deriving DecidableEq, Repr

/-- `CATCH_RESPONSE`, for what the statements before it have thrown. -/
def ResponseFields.caught (r : ResponseFields) : Option Thrown → ResponseFields
  | none => r
  | some (.filesystemError ex) => ⟨ex.code, ex.what⟩
  | some (.exception what) => ⟨-1, what⟩

/-- What is caught is an error. -/
lemma ResponseFields.errCode_caught_ne_zero (r : ResponseFields) (thrown : Thrown) :
    (r.caught (some thrown)).errCode ≠ 0 := by
  cases thrown with
  | filesystemError ex => exact ex.code_ne_zero
  | exception what =>
    show (-1 : Int32) ≠ 0
    decide

/-- `FileInfo`.  `ftype` is the value of an enumerator. -/
structure FileInfo where
  ftype : Int32
  name : Str
  link2 : Str
  size : UInt64
  lastModifyTime : Int64
deriving DecidableEq, Repr

structure ListFilesRequest where
  path : Str
deriving DecidableEq, Repr

structure ListFilesResponse extends ResponseFields where
  files : List FileInfo := []
deriving DecidableEq, Repr

structure FindFilesRequest where
  path : Str
  pattern : Str
deriving DecidableEq, Repr

structure FindFilesResponse extends ResponseFields where
  files : List FileInfo := []
deriving DecidableEq, Repr

structure CatFileRequest where
  path : Str
  begin : Int32
  «end» : Int32
deriving DecidableEq, Repr

structure GrepFileRequest where
  path : Str
  pattern : Str
  before : Int32
  after : Int32
deriving DecidableEq, Repr

structure GrepMatchRange where
  «from» : Int32
  «to» : Int32
deriving DecidableEq, Repr

structure GrepLineResult where
  lineNo : Int32
  subMatches : List GrepMatchRange
deriving DecidableEq, Repr

structure SelectedGrepLine where
  lineNo : Int32
  matchIndex : Int32
  line : Str
deriving DecidableEq, Repr

structure GrepFileResponse extends ResponseFields where
  «matches» : List GrepLineResult := []
  selectedLines : List SelectedGrepLine := []
deriving DecidableEq, Repr

structure GrepFilesRequest where
  path : Str
  findPattern : Str
  pattern : Str
  before : Int32
  after : Int32
deriving DecidableEq, Repr

structure GrepFilesResult where
  path : Str
  singleMatches : GrepFileResponse
deriving DecidableEq, Repr

structure GrepFilesResponse extends ResponseFields where
  allMatches : List GrepFilesResult := []
deriving DecidableEq, Repr

end OldPart
