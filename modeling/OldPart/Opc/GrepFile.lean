import OldPart.Lib.Attempt
import OldPart.Lib.Ring
import OldPart.Opc.OPCBasicProto

/-!
# `OPCBasic::GrepFile`

The loop over the lines of a file, with the buffer of lines that may still turn out to be in front
of a match.
-/

namespace OldPart

/-- `re::sregex`: whether `re::regex_search` finds it in a text, and the ranges of a line that
`re::sregex_token_iterator` goes over. -/
structure Regex where
  search : Str → Bool
  ranges : Str → List (ℕ × ℕ)

/-- The file system, and `re::sregex::compile`, which throws an exception with a `what()` when
the pattern is not valid. -/
structure Host where
  fs : FileSystem
  compile : Str → Except Str Regex

/-- The lines `std::getline` reads one after the other, behind what it has read of one. -/
def getLines : (line : Str) → List UInt8 → List Str
  | line, [] => if line = [] then [] else [line]
  | line, c :: cs => if c = 10 then line :: getLines [] cs else getLines (line ++ [c]) cs

structure GrepTrace where
  lineNo : Int32 := -1
  matched : Bool := false
  line : Str := []
deriving DecidableEq, Repr

/-- `GrepTrace()`. -/
def GrepTrace.new : GrepTrace := {}

/-- A match range, in `int32_t`. -/
def GrepMatchRange.ofRange (range : ℕ × ℕ) : GrepMatchRange := ⟨.ofNat range.1, .ofNat range.2⟩

/-- A line is selected. -/
def GrepFileResponse.select (pResponse : GrepFileResponse) (matchIndex : Int32)
    (topTrace : GrepTrace) : GrepFileResponse :=
  { pResponse with
    selectedLines := pResponse.selectedLines ++ [⟨topTrace.lineNo, matchIndex, topTrace.line⟩] }

/-- The variables of the loop. -/
structure GrepState where
  lineNo : Int32
  matchIndex : Int32
  afterCount : Int32
  beforeBuffer : Ring GrepTrace
  pResponse : GrepFileResponse

namespace GrepState

/-- A line that matches is selected with everything that is in the buffer. -/
def matched (after : Int32) (ranges : List (ℕ × ℕ)) (lineNo : Int32) (w : GrepState) :
    GrepState :=
  let beforeBuffer := w.beforeBuffer.modifyBack fun t => { t with matched := true }
  let pResponse : GrepFileResponse :=
    { w.pResponse with
      «matches» := w.pResponse.matches ++ [⟨lineNo, ranges.map GrepMatchRange.ofRange⟩] }
  let matchIndex := w.matchIndex + 1
  { w with
    matchIndex := matchIndex
    pResponse := beforeBuffer.elems.foldl (fun r topTrace => r.select matchIndex topTrace) pResponse
    beforeBuffer := beforeBuffer.popAll
    afterCount := after }

/-- A line behind a match is selected. -/
def behind (w : GrepState) : GrepState :=
  { w with
    afterCount := w.afterCount - 1
    pResponse := w.beforeBuffer.elems.head?.elim w.pResponse (w.pResponse.select w.matchIndex)
    beforeBuffer := w.beforeBuffer.popFront }

/-- One turn of the loop. -/
def turn (pattern : Regex) (after : Int32) (w : GrepState) (line : Str) : GrepState :=
  let lineNo := w.lineNo
  let w := { w with
    lineNo := lineNo + 1
    beforeBuffer := w.beforeBuffer.modifyBack fun t => { t with lineNo := lineNo, line := line } }
  let ranges := pattern.ranges line
  let w :=
    if ranges ≠ [] then w.matched after ranges lineNo
    else if w.afterCount > 0 then w.behind
    else w
  { w with beforeBuffer := w.beforeBuffer.pushBack .new }

/-- The variables before the loop. -/
def start (before after : Int32) (pResponse : GrepFileResponse) : GrepState where
  lineNo := 1
  matchIndex := -1
  afterCount := after
  beforeBuffer := (Ring.empty (before + 1).toNatClampNeg).pushBack .new
  pResponse := pResponse

end GrepState

def grepFile (h : Host) (pResponse : GrepFileResponse) (p spattern : Str) (before after : Int32) :
    Attempt Thrown GrepFileResponse :=
  -- a stream that is not open has no lines
  let inFile := (h.fs.content p).getD []
  match h.compile spattern with
  | .error what => ⟨pResponse, some (.exception what)⟩
  | .ok pattern =>
      -- a capacity that is negative as `int32_t` is too large as `size_type`
      if before + 1 < 0 then ⟨pResponse, some (.exception (.literal "circular_buffer"))⟩
      else .done
        ((getLines [] inFile).foldl (GrepState.turn pattern after)
          (.start before after pResponse)).pResponse

end OldPart
