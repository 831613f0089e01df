import Mathlib.Data.Fintype.Powerset
import Mathlib.Data.Fintype.Order
import OldPart.Opc.PatternSearch

/-!
# A walk through links

`FindFiles` follows links and does not keep a record of where it has been.  A directory to which two
paths lead is walked through once under each, and one that is reached from itself without end.
-/

namespace OldPart

namespace FileSystem

variable (fs : FileSystem)

/-- A directory to which `FindFiles` comes from the entries of another.  It does not go on behind an
entry that it does not come to the end of. -/
inductive ReachedIn : List Str → Str → Prop
  | here {r : Str} {rest : List Str} (isDir : fs.isDirectory r = .ok true) : ReachedIn (r :: rest) r
  | inside {r q : Str} {rest : List Str} (isDir : fs.isDirectory r = .ok true)
      (h : ReachedIn (fs.directory r).paths q) : ReachedIn (r :: rest) q
  | behind {r q : Str} {rest : List Str} (passed : Passable fs r) (h : ReachedIn rest q) :
      ReachedIn (r :: rest) q

/-- A path leads to a directory through which the walk goes. -/
def Reached (p q : Str) : Prop := q = p ∨ fs.ReachedIn (fs.directory p).paths q

variable {fs}

lemma passable_iff {p : Str} (hdir : fs.isDirectory p = .ok true) :
    fs.Passable p ↔
      (fs.directory p).error = none ∧ ∀ q ∈ (fs.directory p).paths, fs.Passable q := by
  constructor
  · intro h
    cases h with
    | other hother =>
      rw [hdir] at hother
      cases hother
    | directory _ hlisted hentries => exact ⟨hlisted, hentries⟩
  · rintro ⟨hlisted, hentries⟩
    exact .directory hdir hlisted hentries

@[simp] lemma not_reachedIn_nil {q : Str} : ¬fs.ReachedIn [] q := fun h => nomatch h

lemma reachedIn_cons {r q : Str} {rest : List Str} :
    fs.ReachedIn (r :: rest) q ↔
      fs.isDirectory r = .ok true ∧ fs.Reached r q ∨ fs.Passable r ∧ fs.ReachedIn rest q := by
  constructor
  · intro h
    cases h with
    | here hdir => exact Or.inl ⟨hdir, Or.inl rfl⟩
    | inside hdir h => exact Or.inl ⟨hdir, Or.inr h⟩
    | behind hpassed h => exact Or.inr ⟨hpassed, h⟩
  · rintro (⟨hdir, rfl | h⟩ | ⟨hpassed, h⟩)
    · exact .here hdir
    · exact .inside hdir h
    · exact .behind hpassed h

/-- What is reached from a directory that is reached. -/
lemma ReachedIn.trans {paths : List Str} {r q : Str} (h : fs.ReachedIn paths r)
    (hq : fs.Reached r q) : fs.ReachedIn paths q := by
  induction h with
  | here hdir => exact reachedIn_cons.mpr (Or.inl ⟨hdir, hq⟩)
  | inside hdir _ ih => exact .inside hdir (ih hq)
  | behind hpassed _ ih => exact .behind hpassed (ih hq)

lemma Named.length_lt_reachedIn (hnamed : fs.Named) {paths : List Str} {q : Str} {n : ℕ}
    (h : fs.ReachedIn paths q) (hpaths : ∀ r ∈ paths, n < r.length) : n < q.length := by
  induction h with
  | here => exact hpaths _ List.mem_cons_self
  | @inside r q rest hdir _ ih =>
    apply ih
    intro x hx
    have hbelow : fs.Below r x := .single (entries_eq hdir ▸ hx)
    exact (hpaths r List.mem_cons_self).trans (hnamed.length_lt hbelow)
  | behind _ _ ih => exact ih fun r hr => hpaths r (List.mem_cons_of_mem _ hr)

/-- A directory is not reached from its own entries under its own path. -/
lemma Named.ne_of_reachedIn (hnamed : fs.Named) {p q : Str}
    (h : fs.ReachedIn (fs.directory p).paths q) : q ≠ p := by
  have hpaths : ∀ r ∈ (fs.directory p).paths, p.length < r.length := by
    intro r hr
    obtain ⟨name, hname, rfl⟩ := hnamed.exists_name hr
    exact length_lt_joinPath hname p
  rintro rfl
  exact lt_irrefl _ (hnamed.length_lt_reachedIn h hpaths)

end FileSystem

/-! ## Where a walk has been -/

section Reaches

variable {fs : FileSystem} {filter : PathFilter}

/-- The directories that have been found behind `out` are those that are reached, and nothing has
been thrown if everything has been passed. -/
def Found.Reaches (fs : FileSystem) (out : List Str) (reached : Str → Prop) (passed : Prop)
    (found : Found) : Prop :=
  ∃ added, found.left = out ++ added ∧
    (∀ q, q ∈ added ∧ fs.isDirectory q = .ok true ↔ reached q) ∧ (found.thrown = none ↔ passed)

variable {descend : Str → List Str → Option Found} (hdirs : ∀ q, filter q true = true)
  (hdescend : ∀ q out found, descend q out = some found →
    found.Reaches fs out (fs.ReachedIn (fs.directory q).paths)
      ((fs.directory q).error = none ∧ ∀ r ∈ (fs.directory q).paths, fs.Passable r))
include hdirs hdescend

lemma findEntry_reaches {pos : Str} {out : List Str} {found : Found}
    (h : findEntry fs filter descend pos out = some found) :
    found.Reaches fs out (fun q => fs.isDirectory pos = .ok true ∧ fs.Reached pos q)
      (fs.Passable pos) := by
  cases hdir : fs.isDirectory pos with
  | error ex =>
    rw [findEntry_error hdir] at h
    obtain rfl := Option.some.inj h
    refine ⟨[], (List.append_nil out).symm, fun q => ?_, fun hnone => (nomatch hnone),
      fun hpassed => ?_⟩
    · simp
    · cases hpassed with
      | other hother =>
        rw [hdir] at hother
        cases hother
      | directory hisDir =>
        rw [hdir] at hisDir
        cases hisDir
  | ok isDir =>
    cases isDir with
    | false =>
      rw [findEntry_file hdir] at h
      have hdone : ∃ added, found = .done (out ++ added) ∧ ∀ q ∈ added, q = pos := by
        obtain rfl := Option.some.inj h
        split
        · exact ⟨[pos], rfl, fun q hq => List.mem_singleton.mp hq⟩
        · exact ⟨[], by rw [List.append_nil], fun q hq => nomatch hq⟩
      obtain ⟨added, rfl, honly⟩ := hdone
      refine ⟨added, rfl, fun q => ⟨?_, ?_⟩, fun _ => .other hdir, fun _ => rfl⟩
      · rintro ⟨hq, hqdir⟩
        rw [honly q hq, hdir] at hqdir
        cases hqdir
      · rintro ⟨hposdir, -⟩
        cases hposdir
    | true =>
      rw [findEntry_enter hdir (hdirs pos)] at h
      obtain ⟨added, hleft, hreached, hthrown⟩ := hdescend _ _ _ h
      refine ⟨pos :: added, ?_, fun q => ?_, hthrown.trans (FileSystem.passable_iff hdir).symm⟩
      · rw [hleft, List.append_assoc]
        rfl
      · show q ∈ pos :: added ∧ _ ↔ _ ∧ (q = pos ∨ fs.ReachedIn (fs.directory pos).paths q)
        rw [List.mem_cons, ← hreached q]
        constructor
        · rintro ⟨rfl | hq, hqdir⟩
          · exact ⟨rfl, Or.inl rfl⟩
          · exact ⟨rfl, Or.inr ⟨hq, hqdir⟩⟩
        · rintro ⟨-, rfl | ⟨hq, hqdir⟩⟩
          · exact ⟨Or.inl rfl, hdir⟩
          · exact ⟨Or.inr hq, hqdir⟩

lemma findEntries_reaches {error : Option FilesystemError} {paths out : List Str} {found : Found}
    (h : findEntries fs filter descend error paths out = some found) :
    found.Reaches fs out (fs.ReachedIn paths) (error = none ∧ ∀ r ∈ paths, fs.Passable r) := by
  induction paths generalizing out with
  | nil =>
    obtain rfl := Option.some.inj h
    refine ⟨[], (List.append_nil out).symm, fun q => ?_, by simp⟩
    simp
  | cons pos rest ih =>
    rw [findEntries_cons] at h
    obtain ⟨inner, hinner, hrest⟩ := Option.bind_eq_some_iff.mp h
    obtain ⟨added, hleft, hreached, hpassed⟩ := findEntry_reaches hdirs hdescend hinner
    dsimp only at hreached
    cases hthrown : inner.thrown with
    | some ex =>
      rw [hthrown] at hrest
      obtain rfl := Option.some.inj hrest
      have hnot : ¬fs.Passable pos := by
        rw [← hpassed, hthrown]
        exact Option.some_ne_none ex
      refine ⟨added, hleft, fun q => ?_, ?_⟩
      · rw [hreached, FileSystem.reachedIn_cons]
        simp [hnot]
      · rw [hpassed, List.forall_mem_cons]
        simp [hnot]
    | none =>
      rw [hthrown] at hrest
      obtain ⟨added', hleft', hreached', hpassed'⟩ := ih hrest
      have hpos : fs.Passable pos := hpassed.mp hthrown
      refine ⟨added ++ added', ?_, fun q => ?_, ?_⟩
      · rw [hleft', hleft, List.append_assoc]
      · rw [FileSystem.reachedIn_cons, ← hreached, ← hreached', List.mem_append, or_and_right]
        simp [hpos]
      · rw [hpassed', List.forall_mem_cons]
        simp [hpos]

omit hdescend in
/-- `FindFiles` finds the directories that are reached. -/
lemma findFiles_reaches {levels : ℕ} {p : Str} {out : List Str} {found : Found}
    (h : findFiles fs filter levels p out = some found) :
    found.Reaches fs out (fs.ReachedIn (fs.directory p).paths)
      ((fs.directory p).error = none ∧ ∀ r ∈ (fs.directory p).paths, fs.Passable r) := by
  induction levels generalizing p out found with
  | zero => cases h
  | succ levels ih => exact findEntries_reaches hdirs (fun _ _ _ hinner => ih hinner) h

end Reaches

/-! ## Where a walk ends -/

section Ends

variable {fs : FileSystem} {filter : PathFilter} (hdirs : ∀ q, filter q true = true)
include hdirs

/-- The loop ends if each call of `FindFiles` does. -/
lemma findEntries_ends {error : Option FilesystemError} {paths : List Str}
    (hcalls : ∀ r, fs.ReachedIn paths r →
      ∀ out, ∃ levels found, findFiles fs filter levels r out = some found) (out : List Str) :
    ∃ levels found,
      findEntries fs filter (findFiles fs filter levels) error paths out = some found := by
  induction paths generalizing out with
  | nil => exact ⟨0, _, rfl⟩
  | cons pos rest ih =>
    have hentry : ∃ levels inner,
        findEntry fs filter (findFiles fs filter levels) pos out = some inner := by
      cases hdir : fs.isDirectory pos with
      | error ex => exact ⟨0, _, findEntry_error hdir⟩
      | ok isDir =>
        cases isDir with
        | false => exact ⟨0, _, findEntry_file hdir⟩
        | true =>
          obtain ⟨levels, inner, hinner⟩ := hcalls pos (.here hdir) (out ++ [pos])
          exact ⟨levels, inner, (findEntry_enter hdir (hdirs pos)).trans hinner⟩
    obtain ⟨levels, inner, hinner⟩ := hentry
    cases hthrown : inner.thrown with
    | some ex =>
      refine ⟨levels, inner, ?_⟩
      rw [findEntries_cons, hinner, Option.bind_some, hthrown]
    | none =>
      obtain ⟨-, -, -, hpassed⟩ :=
        findEntry_reaches hdirs (fun _ _ _ hrun => findFiles_reaches hdirs hrun) hinner
      obtain ⟨levels', found, hrest⟩ :=
        ih (fun r hr => hcalls r (.behind (hpassed.mp hthrown) hr)) inner.left
      have hinner' :=
        findEntry_mono (fun _ _ _ => findFiles_mono (le_max_left levels levels')) hinner
      refine ⟨max levels levels', found, ?_⟩
      rw [findEntries_cons, hinner', Option.bind_some, hthrown]
      exact findEntries_mono (fun _ _ _ => findFiles_mono (le_max_right levels levels')) hrest

/-- A walk ends that comes to no directory twice: each call is for one that has not been seen on the
way, and there are only so many. -/
lemma findFiles_ends {D : Type*} [Finite D] (hnamed : fs.Named) {real : Str → D} (seen : Set D)
    {p : Str} (hfresh : ∀ q, fs.Reached p q → real q ∉ seen)
    (hinj : ∀ q q', fs.Reached p q → fs.Reached p q' → real q = real q' → q = q')
    (out : List Str) : ∃ levels found, findFiles fs filter levels p out = some found := by
  induction seen using WellFoundedGT.induction generalizing p out with
  | ind seen ih =>
    have hself : fs.Reached p p := Or.inl rfl
    have hcalls : ∀ r, fs.ReachedIn (fs.directory p).paths r →
        ∀ out, ∃ levels found, findFiles fs filter levels r out = some found := by
      intro r hr out
      have hreached : ∀ q, fs.Reached r q → fs.Reached p q := fun q hq => Or.inr (hr.trans hq)
      apply ih (insert (real p) seen) (Set.ssubset_insert (hfresh p hself))
      · intro q hq hmem
        obtain heq | hseen := Set.mem_insert_iff.mp hmem
        · exact hnamed.ne_of_reachedIn (hr.trans hq) (hinj q p (hreached q hq) hself heq)
        · exact hfresh q (hreached q hq) hseen
      · exact fun q q' hq hq' => hinj q q' (hreached q hq) (hreached q' hq')
    obtain ⟨levels, found, hrun⟩ := findEntries_ends hdirs hcalls out
    exact ⟨levels + 1, found, hrun⟩

end Ends

/-! ## What a walk visits -/

section Visits

variable {D : Type*} (real : Str → D) (fs : FileSystem) (pattern : Regex) (dirPath : Str)

/-- The paths for which `FindFiles` is called: its own, and that of each directory that is behind
`out` in what has been found. -/
def visited (out : List Str) (found : Found) : List Str :=
  dirPath :: (found.left.drop out.length).filter (fs.reports fun _ isDir => isDir)

/-- `FindFiles` comes back, and has been called for no directory twice.  `real` is the directory to
which a path leads, through links or not. -/
def WalksOnce : Prop :=
  ∀ out, ∃ levels found, findFiles fs pattern.filter levels dirPath out = some found ∧
    ((visited fs dirPath out found).map real).Nodup

/-- No two paths lead to the same directory, of those that the walk reaches. -/
def ReachedOnce : Prop :=
  ∀ p q, fs.Reached dirPath p → fs.Reached dirPath q → real p = real q → p = q

variable {real fs pattern dirPath} {levels : ℕ} {out : List Str} {found : Found}

/-- The directories that are found are those that are reached from the entries. -/
lemma mem_directories (h : findFiles fs pattern.filter levels dirPath out = some found) {q : Str} :
    q ∈ (found.left.drop out.length).filter (fs.reports fun _ isDir => isDir) ↔
      fs.ReachedIn (fs.directory dirPath).paths q := by
  obtain ⟨added, hleft, hreached, -⟩ := findFiles_reaches pattern.filter_directory h
  have hisDir : fs.reports (fun _ isDir => isDir) q = true ↔ fs.isDirectory q = .ok true := by
    rw [FileSystem.reports]
    cases fs.isDirectory q with
    | error ex => simp
    | ok isDir => exact ⟨congrArg Except.ok, Except.ok.inj⟩
  rw [hleft, List.drop_left, List.mem_filter, hisDir, hreached]

/-- `FindFiles` is called for what is reached. -/
lemma mem_visited (h : findFiles fs pattern.filter levels dirPath out = some found) {q : Str} :
    q ∈ visited fs dirPath out found ↔ fs.Reached dirPath q := by
  rw [visited, List.mem_cons, mem_directories h]
  exact Iff.rfl

/-- It is called once under each path. -/
lemma nodup_visited (hnamed : fs.Named)
    (h : findFiles fs pattern.filter levels dirPath out = some found) :
    (visited fs dirPath out found).Nodup := by
  refine List.nodup_cons.mpr ⟨fun hmem => ?_, List.Nodup.filter _ ?_⟩
  · exact hnamed.ne_of_reachedIn ((mem_directories h).mp hmem) rfl
  · obtain ⟨added, hleft, hprefix, -⟩ := findFiles_adds h
    rw [hleft, List.drop_left]
    exact hprefix.sublist.nodup (FileSystem.nodup_walk hnamed levels dirPath)

/-- What is reached under two paths is visited under both. -/
lemma reachedOnce_of_walksOnce (hwalks : WalksOnce real fs pattern dirPath) :
    ReachedOnce real fs dirPath := by
  intro p q hp hq heq
  obtain ⟨levels, found, hrun, hnodup⟩ := hwalks []
  exact List.inj_on_of_nodup_map hnodup ((mem_visited hrun).mpr hp) ((mem_visited hrun).mpr hq) heq

/-- The walk ends, and visits each directory once, exactly where no directory is reached under two
paths. -/
theorem walksOnce_iff_reachedOnce [Finite D] (hnamed : fs.Named) :
    WalksOnce real fs pattern dirPath ↔ ReachedOnce real fs dirPath := by
  refine ⟨reachedOnce_of_walksOnce, fun honce out => ?_⟩
  have hfresh : ∀ q, fs.Reached dirPath q → real q ∉ (∅ : Set D) := fun _ _ => Set.notMem_empty _
  obtain ⟨levels, found, hrun⟩ :=
    findFiles_ends pattern.filter_directory hnamed ∅ hfresh honce out
  refine ⟨levels, found, hrun, (nodup_visited hnamed hrun).map_on fun p hp q hq heq => ?_⟩
  exact honce p q ((mem_visited hrun).mp hp) ((mem_visited hrun).mp hq) heq

end Visits

/-! ## Links -/

/-- The path is `d`, or goes on from there through `d` only. -/
def loops : Str → Bool
  | [100] => true
  | 100 :: 47 :: rest => loops rest
  | _ => false

/-- The directory `d`, and in it the link `d/d` to `.`. -/
def linkedDirectory : FileSystem :=
  { FileSystem.ofNodes fun p => if loops p then some (.directory [joinPath p [100]]) else none with
    isSymlink := fun p => .ok (loops p && p != [100])
    readSymlink := fun _ => .ok [46] }

/-- The directory `d`, in it the directory `d/a` without entries, and the link `d/b` to `a`. -/
def sharedDirectory : FileSystem :=
  { FileSystem.ofNodes fun p =>
      if p = [100] then some (.directory [[100, 47, 97], [100, 47, 98]])
      else if p = [100, 47, 97] ∨ p = [100, 47, 98] then some (.directory [])
      else none with
    isSymlink := fun p => .ok (p == [100, 47, 98])
    readSymlink := fun _ => .ok [97] }

lemma getLast?_of_loops {p : Str} (h : loops p = true) : p.getLast? = some 100 := by
  fun_induction loops p with
  | case1 => rfl
  | case2 rest ih =>
    have hrest : rest ≠ [] := by
      rintro rfl
      cases h
    rw [List.getLast?_cons_of_ne_nil (List.cons_ne_nil 47 rest), List.getLast?_cons_of_ne_nil hrest]
    exact ih h
  | case3 => cases h

lemma joinPath_of_loops {p : Str} (h : loops p = true) : joinPath p [100] = p ++ [47, 100] := by
  have hne : p ≠ [] := by
    rintro rfl
    cases h
  have hlast : p.getLast? ≠ some 47 := by
    rw [getLast?_of_loops h]
    decide
  rw [joinPath, entryPrefix, if_neg (not_or.mpr ⟨hne, hlast⟩), List.append_assoc]
  rfl

/-- The link leads on. -/
lemma loops_joinPath {p : Str} (h : loops p = true) : loops (joinPath p [100]) = true := by
  rw [joinPath_of_loops h]
  fun_induction loops p with
  | case1 => rfl
  | case2 rest ih => exact ih h
  | case3 => cases h

lemma named_linkedDirectory : linkedDirectory.Named := by
  refine FileSystem.named_ofNodes fun p entries hnode => ?_
  split at hnode
  · obtain rfl := Node.directory.inj (Option.some.inj hnode)
    exact ⟨[[100]], rfl, List.nodup_singleton _, by decide⟩
  · cases hnode

/-- There is no number of levels that is enough for a link to an enclosing directory. -/
lemma findFiles_linkedDirectory (pattern : Regex) {levels : ℕ} {p : Str} (h : loops p = true)
    (out : List Str) : findFiles linkedDirectory pattern.filter levels p out = none := by
  induction levels generalizing p out with
  | zero => rfl
  | succ levels ih =>
    have hnext := loops_joinPath h
    have hlisting : linkedDirectory.directory p = ⟨[joinPath p [100]], none⟩ := by
      simp only [linkedDirectory, FileSystem.ofNodes, if_pos h]
    have hdir : linkedDirectory.isDirectory (joinPath p [100]) = .ok true := by
      have hstatus : linkedDirectory.status (joinPath p [100]) = .ok .directoryFile := by
        simp only [linkedDirectory, FileSystem.ofNodes, if_pos hnext]
      exact FileSystem.isDirectory_eq hstatus
    rw [findFiles, hlisting, findEntries, hdir]
    simp only [pattern.filter_directory, if_true, ih hnext]
    rfl

lemma named_sharedDirectory : sharedDirectory.Named := by
  refine FileSystem.named_ofNodes fun p entries hnode => ?_
  split at hnode
  · subst p
    obtain rfl := Node.directory.inj (Option.some.inj hnode)
    exact ⟨[[97], [98]], rfl, by decide, by decide⟩
  · split at hnode
    · obtain rfl := Node.directory.inj (Option.some.inj hnode)
      exact ⟨[], rfl, List.nodup_nil, fun _ hmem => nomatch hmem⟩
    · cases hnode

/-- Neither a link to an enclosing directory nor one to another directory is walked through once:
with the first, where nothing limits the links in a path, the walk does not end, and with the second
it comes to that directory again. -/
theorem not_walksOnce_links :
    linkedDirectory.Named ∧ ¬WalksOnce (fun _ => ()) linkedDirectory (.ofLetter 100) [100] ∧
      sharedDirectory.Named ∧
        ¬WalksOnce (fun p => p == [100]) sharedDirectory (.ofLetter 100) [100] := by
  refine ⟨named_linkedDirectory, fun hwalks => ?_, named_sharedDirectory, fun hwalks => ?_⟩
  · obtain ⟨levels, found, hrun, -⟩ := hwalks []
    rw [findFiles_linkedDirectory _ rfl] at hrun
    cases hrun
  · have hpassed : sharedDirectory.Passable [100, 47, 97] :=
      .directory rfl rfl fun q hq => (List.not_mem_nil hq).elim
    have hfirst : sharedDirectory.Reached [100] [100, 47, 97] := Or.inr (.here rfl)
    have hsecond : sharedDirectory.Reached [100] [100, 47, 98] :=
      Or.inr (.behind hpassed (.here rfl))
    have heq := reachedOnce_of_walksOnce hwalks _ _ hfirst hsecond rfl
    cases heq

/-- A tree without links is walked through once. -/
theorem walksOnce_nestedDirectory :
    WalksOnce (fun p => p == [100]) nestedDirectory.fs (.ofLetter 102) [100] := by
  refine (walksOnce_iff_reachedOnce named_nestedDirectory).mpr ?_
  have hreached : ∀ q, nestedDirectory.fs.Reached [100] q → q = [100] ∨ q = [100, 47, 101] := by
    intro q hq
    refine hq.imp_right fun hin => ?_
    have hin : nestedDirectory.fs.ReachedIn [[100, 47, 101]] q := hin
    obtain ⟨-, rfl | hbelow⟩ | ⟨-, hnil⟩ := FileSystem.reachedIn_cons.mp hin
    · rfl
    · have hbelow : nestedDirectory.fs.ReachedIn [[100, 47, 101, 47, 102]] q := hbelow
      obtain ⟨hfile, -⟩ | ⟨-, hnil⟩ := FileSystem.reachedIn_cons.mp hbelow
      · cases hfile
      · cases hnil
    · cases hnil
  intro p q hp hq heq
  obtain rfl | rfl := hreached p hp
  · obtain rfl | rfl := hreached q hq
    · rfl
    · cases heq
  · obtain rfl | rfl := hreached q hq
    · cases heq
    · rfl

end OldPart
