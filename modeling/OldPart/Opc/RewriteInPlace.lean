import OldPart.Opc.TraverseFile

/-!
# Files that are rewritten in place

What the calls of `TraverseFile` leave behind, for every way in which they may fail, and what
`FindAndReplace` leaves when none does.
-/

namespace OldPart

/-! ## The temporary file -/

/-- The writes in front of the first that fails, from the `k`-th on. -/
def keptWrites (write : ℕ → Bool) : (k : ℕ) → List Str → List Str
  | _, [] => []
  | k, bytes :: rest => if write k then bytes :: keptWrites write (k + 1) rest else []

/-- The writes of the loop, two for each line. -/
def lineWrites (lines : List Str) : List Str := lines.flatMap fun line => [line, [10]]

section Temp

variable {write : ℕ → Bool}

/-- A stream that has failed stays as it is. -/
lemma written_put_of_bad {fileOut : OFStream} (hbad : fileOut.good = false) (writes : List Str) :
    (writes.foldl (OFStream.put write) fileOut).written = fileOut.written := by
  induction writes generalizing fileOut with
  | nil => rfl
  | cons bytes rest ih =>
    have hnext : (fileOut.put write bytes).good = false := by
      rw [OFStream.put, hbad, Bool.false_and]
    rw [List.foldl_cons, ih hnext, OFStream.put, hbad]
    rfl

/-- One that has not takes the writes in front of the first that fails. -/
lemma written_put (written : Str) (k : ℕ) (writes : List Str) :
    (writes.foldl (OFStream.put write) ⟨written, true, k⟩).written =
      written ++ (keptWrites write k writes).flatten := by
  induction writes generalizing written k with
  | nil => exact (List.append_nil _).symm
  | cons bytes rest ih =>
    rw [List.foldl_cons, OFStream.put, keptWrites, Bool.true_and]
    by_cases hok : write k = true
    · rw [if_pos hok, if_pos hok, hok, ih, List.flatten_cons, List.append_assoc]
    · rw [if_neg hok, if_neg hok, List.flatten_nil, List.append_nil]
      exact written_put_of_bad (Bool.not_eq_true _ ▸ hok) rest

/-- What has been written is complete exactly when no write has failed: behind the one that fails,
the end of a line is missing. -/
lemma flatten_keptWrites_iff (k : ℕ) (lines : List Str) :
    (keptWrites write k (lineWrites lines)).flatten = joinLines lines ↔
      ∀ i < 2 * lines.length, write (k + i) = true := by
  induction lines generalizing k with
  | nil => simp [lineWrites, keptWrites, joinLines]
  | cons line lines ih =>
    have hwrites : lineWrites (line :: lines) = line :: [10] :: lineWrites lines := rfl
    have hjoin : joinLines (line :: lines) = line ++ (10 :: joinLines lines) := by
      show line ++ [10] ++ joinLines lines = _
      rw [List.append_assoc]
      rfl
    rw [hwrites, hjoin, keptWrites, keptWrites, List.length_cons]
    by_cases hline : write k = true
    · rw [if_pos hline, List.flatten_cons, List.append_cancel_left_eq]
      by_cases hend : write (k + 1) = true
      · rw [if_pos hend, List.flatten_cons, List.singleton_append, List.cons_eq_cons,
          and_iff_right rfl, ih]
        constructor
        · intro h i hi
          match i with
          | 0 => exact hline
          | 1 => exact hend
          | i + 2 =>
            rw [Nat.add_comm i 2, ← Nat.add_assoc]
            exact h i (by omega)
        · intro h i hi
          rw [Nat.add_assoc, Nat.add_assoc, ← Nat.add_assoc 1 1 i]
          exact h (1 + 1 + i) (by omega)
      · rw [if_neg hend]
        exact ⟨fun h => (List.cons_ne_nil _ _ h.symm).elim, fun h => (hend (h 1 (by omega))).elim⟩
    · rw [if_neg hline]
      refine ⟨fun h => ?_, fun h => (hline (h 0 (by omega))).elim⟩
      exact (List.append_ne_nil_of_right_ne_nil line (List.cons_ne_nil _ _) h.symm).elim

end Temp

/-! ## The loop -/

section Loop

variable {σ : Type*} (visit : Visitor σ) (calls : FileCalls)

/-- What a visitor makes of some lines, or throws. -/
def visitLines : List Str → σ → Option (Except Thrown (List Str))
  | [], _ => some (.ok [])
  | strLine :: rest, v =>
      (visit v strLine).bind fun
        | .error ex => some (.error ex)
        | .ok (strLine, v) => (visitLines rest v).map fun lines => lines.map (strLine :: ·)

/-- The loop stops where the visitor throws or does not come back, and otherwise writes what it
makes of the lines. -/
lemma traverseLines_eq (lines : List Str) (v : σ) (fileOut : OFStream) :
    match visitLines visit lines v with
    | none => traverseLines visit calls lines v fileOut = none
    | some (.error ex) =>
        ∃ fileOut', traverseLines visit calls lines v fileOut = some (fileOut', some ex)
    | some (.ok visited) => traverseLines visit calls lines v fileOut =
        some ((lineWrites visited).foldl (OFStream.put calls.write) fileOut, none) := by
  induction lines generalizing v fileOut with
  | nil => rfl
  | cons strLine rest ih =>
    rw [visitLines, traverseLines]
    cases hvisit : visit v strLine with
    | none => rfl
    | some result =>
      obtain ex | ⟨strLine', v'⟩ := result
      · exact ⟨fileOut, rfl⟩
      · have hrest := ih v' ((fileOut.put calls.write strLine').put calls.write [10])
        rw [Option.bind_some]
        dsimp only
        cases hlines : visitLines visit rest v' with
        | none =>
          rw [hlines] at hrest
          exact hrest
        | some result =>
          rw [hlines] at hrest
          obtain ex | visited := result
          · exact hrest
          · exact hrest

/-- What is under the path of the temporary file behind the loop. -/
def FileCalls.tempText (temp : Option Str) (visited : List Str) : Option Str :=
  if calls.openTemp then some (keptWrites calls.write 0 (lineWrites visited)).flatten else temp

variable {visit calls} {v : σ} {content : Str} {temp : Option Str}

/-- Behind the loop, the temporary file takes the place of the file. -/
lemma traverseFile_of_ok {visited : List Str} (hopen : calls.isOpen = true)
    (hvisited : visitLines visit (getLines [] content) v = some (.ok visited)) (filePath : Str) :
    traverseFile visit calls v filePath ⟨some content, temp⟩ =
      some (removeAndRename calls ⟨some content, calls.tempText temp visited⟩) := by
  have hloop := traverseLines_eq visit calls (getLines [] content) v ⟨[], calls.openTemp, 0⟩
  rw [hvisited] at hloop
  rw [traverseFile, hopen, if_pos rfl]
  dsimp only
  rw [hloop, Option.map_some, FileCalls.tempText]
  cases hout : calls.openTemp with
  | false => rfl
  | true =>
    rw [written_put, List.nil_append]
    rfl

/-- A visitor that throws leaves the file. -/
lemma traverseFile_of_error {ex : Thrown} (hopen : calls.isOpen = true)
    (hthrows : visitLines visit (getLines [] content) v = some (.error ex)) (filePath : Str) :
    ∃ temp', traverseFile visit calls v filePath ⟨some content, temp⟩ =
      some ⟨⟨some content, temp'⟩, some ex⟩ := by
  have hloop := traverseLines_eq visit calls (getLines [] content) v ⟨[], calls.openTemp, 0⟩
  rw [hthrows] at hloop
  obtain ⟨fileOut', hloop⟩ := hloop
  rw [traverseFile, hopen, if_pos rfl]
  dsimp only
  rw [hloop, Option.map_some]
  cases calls.openTemp with
  | false => exact ⟨_, rfl⟩
  | true => exact ⟨_, rfl⟩

/-- A visitor that does not come back keeps the file open. -/
lemma traverseFile_of_none (hopen : calls.isOpen = true)
    (hstays : visitLines visit (getLines [] content) v = none) (filePath : Str) :
    traverseFile visit calls v filePath ⟨some content, temp⟩ = none := by
  have hloop := traverseLines_eq visit calls (getLines [] content) v ⟨[], calls.openTemp, 0⟩
  rw [hstays] at hloop
  rw [traverseFile, hopen, if_pos rfl]
  dsimp only
  rw [hloop, Option.map_none]

end Loop

/-! ## Failures -/

section Failures

variable {σ : Type*} (visit : Visitor σ) (v : σ) (calls : FileCalls) (content : Str)
  (temp : Option Str)

/-- A file holds the whole of the original or of the rewritten content. -/
def Intact (file : Option Str) : Prop :=
  file = some content ∨ ∃ visited, visitLines visit (getLines [] content) v = some (.ok visited) ∧
    file = some (joinLines visited)

/-- The calls stop before the file is removed, or nothing behind that fails.  A temporary file that
is not complete does no harm where it spells one of the contents all the same. -/
inductive Harmless : Prop
  | notOpen (hopen : calls.isOpen = false)
  | visitorThrows {ex : Thrown}
      (hthrows : visitLines visit (getLines [] content) v = some (.error ex))
  | notRemoved {ex : FilesystemError} (hremove : calls.remove = some ex)
  | written {visited : List Str}
      (hvisited : visitLines visit (getLines [] content) v = some (.ok visited))
      (hrename : calls.rename = none) (hopen : calls.openTemp = true)
      (hwrites : ∀ i < 2 * visited.length, calls.write i = true)
  | spelled {visited : List Str}
      (hvisited : visitLines visit (getLines [] content) v = some (.ok visited))
      (hrename : calls.rename = none) (hopen : calls.openTemp = true)
      (hkept : (keptWrites calls.write 0 (lineWrites visited)).flatten = content)
  | stale {visited : List Str}
      (hvisited : visitLines visit (getLines [] content) v = some (.ok visited))
      (hrename : calls.rename = none) (hopen : calls.openTemp = false)
      (htemp : temp = some content ∨ temp = some (joinLines visited))

variable {visit v calls content temp}

/-- When the file is removed, the temporary one has to be whole, and to be renamed. -/
lemma intact_iff_of_removed {visited : List Str}
    (hvisited : visitLines visit (getLines [] content) v = some (.ok visited))
    (hremove : calls.remove = none) (t : Option Str) :
    Intact visit v content (removeAndRename calls ⟨some content, t⟩).left.file ↔
      calls.rename = none ∧ (t = some content ∨ t = some (joinLines visited)) := by
  have hintact : ∀ file, Intact visit v content file ↔
      file = some content ∨ file = some (joinLines visited) := by
    intro file
    rw [Intact, hvisited]
    refine or_congr_right ⟨?_, fun h => ⟨visited, rfl, h⟩⟩
    rintro ⟨visited', hsame, hfile⟩
    obtain rfl := Except.ok.inj (Option.some.inj hsame)
    exact hfile
  rw [hintact, removeAndRename, hremove]
  cases calls.rename with
  | some ex => simp
  | none =>
    cases t with
    | none => simp
    | some t => simp [Attempt.done]

/-- So it is for the failures that are harmless. -/
lemma harmless_iff_of_removed {visited : List Str} (hopen : calls.isOpen = true)
    (hvisited : visitLines visit (getLines [] content) v = some (.ok visited))
    (hremove : calls.remove = none) :
    Harmless visit v calls content temp ↔ calls.rename = none ∧
      (calls.tempText temp visited = some content ∨
        calls.tempText temp visited = some (joinLines visited)) := by
  have hsame : ∀ {visited' : List Str},
      visitLines visit (getLines [] content) v = some (.ok visited') → visited' = visited :=
    fun h => Except.ok.inj (Option.some.inj (h.symm.trans hvisited))
  rw [FileCalls.tempText]
  constructor
  · intro h
    cases h with
    | notOpen hshut => rw [hopen] at hshut; cases hshut
    | visitorThrows hthrows => rw [hvisited] at hthrows; cases hthrows
    | notRemoved hthrown => rw [hremove] at hthrown; cases hthrown
    | written hlines hrename hout hwrites =>
      obtain rfl := hsame hlines
      refine ⟨hrename, Or.inr ?_⟩
      rw [if_pos hout, (flatten_keptWrites_iff 0 _).mpr]
      intro i hi
      rw [Nat.zero_add]
      exact hwrites i hi
    | spelled hlines hrename hout hkept =>
      obtain rfl := hsame hlines
      refine ⟨hrename, Or.inl ?_⟩
      rw [if_pos hout, hkept]
    | stale hlines hrename hout htemp =>
      obtain rfl := hsame hlines
      rw [if_neg (Bool.not_eq_true _ ▸ hout)]
      exact ⟨hrename, htemp⟩
  · rintro ⟨hrename, htext⟩
    cases hout : calls.openTemp with
    | false =>
      rw [if_neg (Bool.not_eq_true _ ▸ hout)] at htext
      exact .stale hvisited hrename hout htext
    | true =>
      rw [if_pos hout] at htext
      obtain horiginal | hrewritten := htext
      · exact .spelled hvisited hrename hout (Option.some.inj horiginal)
      · refine .written hvisited hrename hout fun i hi => ?_
        have hok := (flatten_keptWrites_iff 0 visited).mp (Option.some.inj hrewritten) i hi
        rwa [Nat.zero_add] at hok

/-- The file is whole exactly when the failures are harmless. -/
theorem traverseFile_intact_iff {filePath : Str} {after : Attempt Thrown FilePair}
    (hrun : traverseFile visit calls v filePath ⟨some content, temp⟩ = some after) :
    Intact visit v content after.left.file ↔ Harmless visit v calls content temp := by
  cases hopen : calls.isOpen with
  | false =>
    rw [traverseFile, hopen, if_neg Bool.false_ne_true] at hrun
    obtain rfl := Option.some.inj hrun
    exact ⟨fun _ => .notOpen hopen, fun _ => Or.inl rfl⟩
  | true =>
    cases hlines : visitLines visit (getLines [] content) v with
    | none =>
      rw [traverseFile_of_none hopen hlines] at hrun
      cases hrun
    | some result =>
      obtain ex | visited := result
      · obtain ⟨temp', herror⟩ := traverseFile_of_error hopen hlines filePath
        obtain rfl := Option.some.inj (herror.symm.trans hrun)
        exact ⟨fun _ => .visitorThrows hlines, fun _ => Or.inl rfl⟩
      · obtain rfl := Option.some.inj ((traverseFile_of_ok hopen hlines filePath).symm.trans hrun)
        cases hremove : calls.remove with
        | some ex =>
          rw [removeAndRename, hremove]
          exact ⟨fun _ => .notRemoved hremove, fun _ => Or.inl rfl⟩
        | none =>
          rw [intact_iff_of_removed hlines hremove, harmless_iff_of_removed hopen hlines hremove]

/-- A visitor that changes nothing. -/
def keepLine : Visitor Unit := fun _ strLine => some (.ok (strLine, ()))

/-- A file that cannot be removed stays, whatever else fails. -/
theorem traverseFile_intact_notRemoved :
    ∃ after, traverseFile keepLine ⟨true, false, fun _ => false, some .notFound, none⟩ () [102]
        ⟨some [97, 10], none⟩ = some after ∧
      Intact keepLine () [97, 10] after.left.file := by
  have hrun : traverseFile keepLine ⟨true, false, fun _ => false, some .notFound, none⟩ () [102]
      ⟨some [97, 10], none⟩ = some ⟨⟨some [97, 10], none⟩, some (.filesystemError .notFound)⟩ := rfl
  exact ⟨_, hrun, (traverseFile_intact_iff hrun).mpr (.notRemoved rfl)⟩

/-- When `rename` fails, there is no file. -/
theorem not_traverseFile_intact_notRenamed :
    ∃ after, traverseFile keepLine ⟨true, true, fun _ => true, none, some .notFound⟩ () [102]
        ⟨some [97, 10], none⟩ = some after ∧
      ¬Intact keepLine () [97, 10] after.left.file := by
  refine ⟨_, rfl, ?_⟩
  rintro (h | ⟨visited, -, h⟩)
  · cases h
  · cases h

end Failures

/-! ## Nothing fails -/

section Replace

variable {strFrom : Str} (strTo : Str)

/-- What `SReplaceVisit` makes of some lines. -/
lemma visitLines_replaceVisitor (hfrom : strFrom ≠ []) {turns : ℕ} {lines : List Str}
    (hturns : ∀ line ∈ lines, line.length < turns) :
    visitLines (replaceVisitor strFrom strTo turns) lines () =
      some (.ok (lines.map (Text.replaceAll strFrom strTo))) := by
  induction lines with
  | nil => rfl
  | cons line lines ih =>
    rw [visitLines, replaceVisitor, sReplaceVisit_eq strTo hfrom (hturns line List.mem_cons_self)]
    show (visitLines (replaceVisitor strFrom strTo turns) lines ()).map _ = _
    rw [ih fun line hline => hturns line (List.mem_cons_of_mem _ hline)]
    rfl

/-- It makes the same of them with any number of turns that is enough. -/
lemma visitLines_replaceVisitor_unique (hfrom : strFrom ≠ []) {turns : ℕ} {lines : List Str}
    {result : Except Thrown (List Str)}
    (h : visitLines (replaceVisitor strFrom strTo turns) lines () = some result) :
    result = .ok (lines.map (Text.replaceAll strFrom strTo)) := by
  induction lines generalizing result with
  | nil => exact (Option.some.inj h).symm
  | cons line lines ih =>
    rw [visitLines, replaceVisitor] at h
    cases hline : sReplaceVisit strFrom strTo turns line with
    | none => rw [hline] at h; cases h
    | some line' =>
      rw [hline] at h
      obtain ⟨rest, hrest, rfl⟩ := Option.map_eq_some_iff.mp h
      rw [ih hrest, sReplaceVisit_unique hfrom hline]
      rfl

/-- What `FindAndReplace` leaves is the content with every occurrence exchanged, and with the end of
the last line where that has none. -/
lemma joinLines_replaceAll (hfrom : strFrom ≠ []) (hline : (10 : UInt8) ∉ strFrom) (content : Str) :
    joinLines ((getLines [] content).map (Text.replaceAll strFrom strTo)) =
      Text.replaceAll strFrom strTo content ++ if Terminated content then [] else [10] :=
  joinLines_map_getLines (Text.replaceAll_nil strTo) (Text.replaceAll_append_cons strTo hfrom hline)
    List.not_mem_nil content

lemma tempText_succeed (temp : Option Str) (visited : List Str) :
    FileCalls.succeed.tempText temp visited = some (joinLines visited) :=
  congrArg some ((flatten_keptWrites_iff 0 visited).mpr fun _ _ => rfl)

section Succeed

variable (hfrom : strFrom ≠ []) (hline : (10 : UInt8) ∉ strFrom) (filePath content : Str)
  (temp : Option Str)
include hfrom hline

lemma findAndReplace_of_visited {turns : ℕ}
    (hvisited : visitLines (replaceVisitor strFrom strTo turns) (getLines [] content) () =
      some (.ok ((getLines [] content).map (Text.replaceAll strFrom strTo)))) :
    findAndReplace .succeed turns filePath strFrom strTo ⟨some content, temp⟩ =
      some (.done ⟨some (Text.replaceAll strFrom strTo content ++
        if Terminated content then [] else [10]), none⟩) := by
  rw [findAndReplace, traverseFile_of_ok rfl hvisited, tempText_succeed,
    joinLines_replaceAll strTo hfrom hline]
  rfl

/-- With enough turns for each line it returns. -/
lemma findAndReplace_returns :
    ∃ turns, findAndReplace .succeed turns filePath strFrom strTo ⟨some content, temp⟩ =
      some (.done ⟨some (Text.replaceAll strFrom strTo content ++
        if Terminated content then [] else [10]), none⟩) := by
  have hturns : ∀ line ∈ getLines [] content,
      line.length < (getLines [] content).flatten.length + 1 := fun line hmem =>
    Nat.lt_succ_of_le (List.sublist_flatten_of_mem hmem).length_le
  exact ⟨_, findAndReplace_of_visited strTo hfrom hline filePath content temp
    (visitLines_replaceVisitor strTo hfrom hturns)⟩

/-- And it leaves the same with any number of turns. -/
lemma file_findAndReplace {turns : ℕ} {after : FilePair}
    (hrun : findAndReplace .succeed turns filePath strFrom strTo ⟨some content, temp⟩ =
      some (.done after)) :
    after.file = some (Text.replaceAll strFrom strTo content ++
      if Terminated content then [] else [10]) := by
  cases hvisited : visitLines (replaceVisitor strFrom strTo turns) (getLines [] content) () with
  | none =>
    rw [findAndReplace, traverseFile_of_none rfl hvisited] at hrun
    cases hrun
  | some result =>
    obtain rfl := visitLines_replaceVisitor_unique strTo hfrom hvisited
    have hleaves := findAndReplace_of_visited strTo hfrom hline filePath content temp hvisited
    have hsame := congrArg Attempt.left (Option.some.inj (hleaves.symm.trans hrun))
    exact (congrArg FilePair.file hsame).symm

/-- A file whose last line has no end gets longer. -/
lemma not_file_findAndReplace {turns : ℕ} {after : FilePair} (hend : ¬Terminated content)
    (hrun : findAndReplace .succeed turns filePath strFrom strTo ⟨some content, temp⟩ =
      some (.done after)) :
    after.file ≠ some (Text.replaceAll strFrom strTo content) := by
  intro hfile
  rw [file_findAndReplace strTo hfrom hline filePath content temp hrun, if_neg hend] at hfile
  have hlength := congrArg List.length (Option.some.inj hfile)
  rw [List.length_append, List.length_singleton] at hlength
  omega

/-- When nothing fails, `FindAndReplace` exchanges the occurrences and nothing else exactly when the
last line of the file has an end. -/
theorem findAndReplace_exact_iff :
    (∃ turns after, findAndReplace .succeed turns filePath strFrom strTo ⟨some content, temp⟩ =
        some (.done after) ∧ after.file = some (Text.replaceAll strFrom strTo content)) ↔
      Terminated content := by
  constructor
  · rintro ⟨turns, after, hrun, hfile⟩
    by_contra hend
    exact not_file_findAndReplace strTo hfrom hline filePath content temp hend hrun hfile
  · intro hend
    obtain ⟨turns, hrun⟩ := findAndReplace_returns strTo hfrom hline filePath content temp
    refine ⟨turns, _, hrun, ?_⟩
    rw [if_pos hend, List.append_nil]

end Succeed

/-- The lines `c`, `baa` and `c`, with `aa` for `a`. -/
theorem findAndReplace_exact_threeLines :
    ∃ turns after, findAndReplace .succeed turns [102] [97] [97, 97]
        ⟨some [99, 10, 98, 97, 97, 10, 99, 10], none⟩ = some (.done after) ∧
      after.file = some (Text.replaceAll [97] [97, 97] [99, 10, 98, 97, 97, 10, 99, 10]) :=
  (findAndReplace_exact_iff [97, 97] (by decide) (by decide) [102]
    [99, 10, 98, 97, 97, 10, 99, 10] none).mpr (by decide)

/-- A file of one `a` gets longer when `b` is exchanged for `c`. -/
theorem not_findAndReplace_exact_unterminated :
    ¬∃ turns after, findAndReplace .succeed turns [102] [98] [99] ⟨some [97], none⟩ =
      some (.done after) ∧ after.file = some (Text.replaceAll [98] [99] [97]) := by
  rintro ⟨turns, after, hrun, hfile⟩
  exact not_file_findAndReplace [99] (by decide) (by decide) [102] [97] none (by decide) hrun hfile

end Replace

end OldPart
