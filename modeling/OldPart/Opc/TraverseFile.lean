import OldPart.Opc.GrepContext
import OldPart.Opc.ReplaceVisit

/-!
# `TraverseFile` and `FindAndReplace`

A file is rewritten line by line into a temporary one, which then takes its place.  Each of the
calls may fail: a stream keeps that to itself, `remove` and `rename` throw.  Nothing looks at the
stream that is written before the file is removed, and nothing is left of the file when what comes
behind `remove` fails.
-/

namespace OldPart

/-- `Visit`.  It changes a line and itself, or throws, or does not come back. -/
abbrev Visitor (σ : Type*) := σ → Str → Option (Except Thrown (Str × σ))

/-- What is under `filePath` and under the path of the temporary file. -/
structure FilePair where
  file : Option Str
  temp : Option Str
deriving DecidableEq, Repr

/-- How the calls turn out: whether the streams are open, whether the writes succeed, counted from
the first, and what `remove` and `rename` throw. -/
structure FileCalls where
  isOpen : Bool
  openTemp : Bool
  write : ℕ → Bool
  remove : Option FilesystemError
  rename : Option FilesystemError

/-- Nothing fails. -/
def FileCalls.succeed : FileCalls := ⟨true, true, fun _ => true, none, none⟩

/-- `fs::ofstream`: what has been written, whether nothing has failed, and the number of writes. -/
structure OFStream where
  written : Str
  good : Bool
  writes : ℕ
deriving DecidableEq, Repr

/-- `operator<<`.  What is written without a failure is in the file at once, and behind a failure
nothing is written. -/
def OFStream.put (write : ℕ → Bool) (fileOut : OFStream) (bytes : Str) : OFStream :=
  let good := fileOut.good && write fileOut.writes
  { written := if good then fileOut.written ++ bytes else fileOut.written
    good := good
    writes := fileOut.writes + 1 }

section Traverse

variable {σ : Type*} (visit : Visitor σ) (calls : FileCalls)

/-- The loop of `TraverseFile` over the lines, and what the visitor throws. -/
def traverseLines : List Str → σ → OFStream → Option (OFStream × Option Thrown)
  | [], _, fileOut => some (fileOut, none)
  | strLine :: rest, v, fileOut =>
      (visit v strLine).bind fun
        | .error ex => some (fileOut, some ex)
        | .ok (strLine, v) =>
            traverseLines rest v ((fileOut.put calls.write strLine).put calls.write [10])

/-- `remove(filePath)` and `rename(pathTemp, filePath)`. -/
def removeAndRename (files : FilePair) : Attempt Thrown FilePair :=
  match calls.remove with
  | some ex => ⟨files, some (.filesystemError ex)⟩
  | none =>
      match calls.rename, files.temp with
      | some ex, _ => ⟨{ files with file := none }, some (.filesystemError ex)⟩
      | none, none => ⟨{ files with file := none }, some (.filesystemError .notFound)⟩
      | none, some t => .done ⟨some t, none⟩

def traverseFile (v : σ) (filePath : Str) (files : FilePair) : Option (Attempt Thrown FilePair) :=
  match if calls.isOpen then files.file else none with
  | none => some ⟨files, some (.exception (.literal "can not open file " ++ filePath))⟩
  | some content =>
      (traverseLines visit calls (getLines [] content) v ⟨[], calls.openTemp, 0⟩).map
        fun (fileOut, thrown) =>
          -- a stream that is not open leaves what there was
          let files := if calls.openTemp then { files with temp := some fileOut.written } else files
          match thrown with
          | some ex => ⟨files, some ex⟩
          | none => removeAndRename calls files

end Traverse

/-- `SReplaceVisit`, with a number of turns for the loop in each line. -/
def replaceVisitor (strFrom strTo : Str) (turns : ℕ) : Visitor Unit := fun _ strLine =>
  (sReplaceVisit strFrom strTo turns strLine).map fun strLine => .ok (strLine, ())

/-- `FindAndReplace` with two strings. -/
def findAndReplace (calls : FileCalls) (turns : ℕ) (filePath strFrom strTo : Str)
    (files : FilePair) : Option (Attempt Thrown FilePair) :=
  traverseFile (replaceVisitor strFrom strTo turns) calls () filePath files

/-! ## The lines of a file, and back -/

/-- Each line with its end, as the loop writes them. -/
def joinLines (lines : List Str) : Str := lines.flatMap fun line => line ++ [10]

/-- Every line of the content has an end. -/
abbrev Terminated (content : Str) : Prop := content = [] ∨ content.getLast? = some 10

lemma terminated_append_cons (line cs : Str) : Terminated (line ++ 10 :: cs) ↔ Terminated cs := by
  cases cs with
  | nil => simp [Terminated]
  | cons c cs => simp [Terminated, List.getLast?_cons]

/-- Rewriting every line of a content that it does not make a difference to cut into lines first
is rewriting the content, with the end of the last line where that has none. -/
lemma joinLines_map_getLines {f : Str → Str} (hnil : f [] = [])
    (hcut : ∀ s rest, f (s ++ 10 :: rest) = f s ++ 10 :: f rest) {line : Str}
    (hline : (10 : UInt8) ∉ line) (cs : Str) :
    joinLines ((getLines line cs).map f) =
      f (line ++ cs) ++ if Terminated (line ++ cs) then [] else [10] := by
  induction cs generalizing line with
  | nil =>
    rw [getLines, List.append_nil]
    by_cases hempty : line = []
    · rw [if_pos hempty, hempty, hnil, if_pos (Or.inl rfl)]
      rfl
    · have hnot : ¬Terminated line := by
        rintro (h | h)
        · exact hempty h
        · exact hline (List.mem_of_getLast? h)
      rw [if_neg hempty, if_neg hnot]
      exact List.append_nil _
  | cons c cs ih =>
    rw [getLines]
    by_cases hend : c = 10
    · rw [if_pos hend, hend, List.map_cons, hcut, List.append_assoc, List.cons_append,
        if_congr (terminated_append_cons line cs) rfl rfl]
      show f line ++ [10] ++ joinLines _ = _
      rw [ih List.not_mem_nil, List.nil_append, List.append_assoc]
      rfl
    · have hnext : (10 : UInt8) ∉ line ++ [c] := by
        rw [List.mem_append, List.mem_singleton]
        exact fun h => h.elim hline (Ne.symm hend)
      rw [if_neg hend, ih hnext, List.append_assoc, List.singleton_append]

end OldPart
