import OldPart.Lib.Traversal
import OldPart.Opc.FileHandler

/-!
# The walk as a list

What `FindFiles` adds to `out`, in its order.  An iterator puts the names of the entries behind the
path of the directory, so a path that is added tells the way down to it, and no other way leads to
the same path.
-/

namespace OldPart

/-! ## Paths -/

/-- What the paths of the entries of a directory begin with. -/
def entryPrefix (p : Str) : Str := if p = [] ∨ p.getLast? = some 47 then p else p ++ [47]

/-- `fs::path::operator/`, for a name. -/
def joinPath (p name : Str) : Str := entryPrefix p ++ name

/-- The name of an entry. -/
structure IsName (name : Str) : Prop where
  ne_nil : name ≠ []
  not_mem : (47 : UInt8) ∉ name

instance (name : Str) : Decidable (IsName name) :=
  decidable_of_iff (name ≠ [] ∧ (47 : UInt8) ∉ name)
    ⟨fun h => ⟨h.1, h.2⟩, fun h => ⟨h.ne_nil, h.not_mem⟩⟩

/-- The first name behind the path of a directory. -/
def nameBelow (p r : Str) : Str := (r.drop (entryPrefix p).length).takeWhile (· != 47)

lemma prefix_entryPrefix (p : Str) : p <+: entryPrefix p := by
  rw [entryPrefix]
  split
  · exact List.prefix_rfl
  · exact List.prefix_append p [47]

section Names

variable {name : Str} (hname : IsName name)
include hname

/-- A path that ends with a name has no separator at its end. -/
lemma entryPrefix_joinPath (p : Str) : entryPrefix (joinPath p name) = joinPath p name ++ [47] := by
  have hlast : (joinPath p name).getLast? ≠ some 47 := by
    rw [joinPath, List.getLast?_append_of_ne_nil _ hname.ne_nil]
    intro hlast
    exact hname.not_mem (List.mem_of_getLast? hlast)
  have hne : joinPath p name ≠ [] := List.append_ne_nil_of_right_ne_nil _ hname.ne_nil
  rw [entryPrefix, if_neg (not_or.mpr ⟨hne, hlast⟩)]

lemma length_lt_joinPath (p : Str) : p.length < (joinPath p name).length := by
  have hpos := List.length_pos_of_ne_nil hname.ne_nil
  have hle := (prefix_entryPrefix p).length_le
  rw [joinPath, List.length_append]
  omega

/-- The name of an entry stands behind the path of the directory, there and in what is below. -/
lemma nameBelow_joinPath (p below : Str) :
    nameBelow p (joinPath p name) = name ∧
      nameBelow p (joinPath p name ++ [47] ++ below) = name := by
  have hall : ∀ c ∈ name, (c != 47) = true := fun c hc =>
    bne_iff_ne.mpr fun heq => hname.not_mem (heq ▸ hc)
  constructor
  · rw [nameBelow, joinPath, List.drop_left]
    rw [← List.append_nil name, List.takeWhile_append_of_pos hall]
    rfl
  · rw [nameBelow, joinPath, List.append_assoc, List.append_assoc, List.drop_left,
      List.takeWhile_append_of_pos hall]
    exact List.append_nil name

end Names

namespace FileSystem

variable (fs : FileSystem)

/-- What Boost.Filesystem documents of an iterator: it goes over each name in the directory once,
behind the path of the directory. -/
def Named : Prop :=
  ∀ p, ∃ names : List Str, (fs.directory p).paths = names.map (joinPath p) ∧ names.Nodup ∧
    ∀ name ∈ names, IsName name

/-- The entries of a directory. -/
def entries (p : Str) : List Str :=
  match fs.isDirectory p with
  | .ok true => (fs.directory p).paths
  | _ => []

/-- A path is met below another, on the way through directories. -/
def Below : Str → Str → Prop := Relation.TransGen fun p q => q ∈ fs.entries p

/-- What `FindFiles` comes to the end of, without an exception. -/
inductive Passable : Str → Prop
  | other {p : Str} (isDir : fs.isDirectory p = .ok false) : Passable p
  | directory {p : Str} (isDir : fs.isDirectory p = .ok true)
      (listed : (fs.directory p).error = none)
      (entries : ∀ q ∈ (fs.directory p).paths, Passable q) : Passable p

variable {fs}

lemma isDirectory_eq {p : Str} {kind : FileKind} (h : fs.status p = .ok kind) :
    fs.isDirectory p = .ok (kind == .directoryFile) := by
  rw [isDirectory, h]
  rfl

lemma mem_entries {p q : Str} (h : q ∈ fs.entries p) :
    fs.isDirectory p = .ok true ∧ q ∈ (fs.directory p).paths := by
  rw [entries] at h
  split at h
  · exact ⟨by assumption, h⟩
  · cases h

lemma entries_eq {p : Str} (h : fs.isDirectory p = .ok true) :
    fs.entries p = (fs.directory p).paths := by
  rw [entries, h]

/-- Only a directory has something below it. -/
lemma Below.isDirectory_eq {p r : Str} (h : fs.Below p r) : fs.isDirectory p = .ok true := by
  obtain ⟨q, hq, -⟩ := Relation.TransGen.head'_iff.mp h
  exact (mem_entries hq).1

/-- Nothing is below the entries of a directory that are all regular files. -/
lemma Below.mem_of_regular {p r : Str} (h : fs.Below p r)
    (hregular : ∀ q ∈ (fs.directory p).paths, fs.status q = .ok .regularFile) :
    r ∈ (fs.directory p).paths := by
  obtain ⟨q, hq, hrest⟩ := Relation.TransGen.head'_iff.mp h
  have hmem := (mem_entries hq).2
  obtain rfl | hfurther := Relation.reflTransGen_iff_eq_or_transGen.mp hrest
  · exact hmem
  · have hdir : fs.isDirectory q = .ok true := Below.isDirectory_eq hfurther
    rw [FileSystem.isDirectory_eq (hregular q hmem)] at hdir
    cases hdir

section Named

variable (hnamed : fs.Named)
include hnamed

/-- The path of an entry is that of the directory with a name. -/
lemma Named.exists_name {p q : Str} (h : q ∈ (fs.directory p).paths) :
    ∃ name, IsName name ∧ q = joinPath p name := by
  obtain ⟨names, hpaths, -, hnames⟩ := hnamed p
  rw [hpaths] at h
  obtain ⟨name, hname, rfl⟩ := List.mem_map.mp h
  exact ⟨name, hnames name hname, rfl⟩

lemma Named.length_lt {p r : Str} (h : fs.Below p r) : p.length < r.length := by
  have hstep : ∀ {a b : Str}, b ∈ fs.entries a → a.length < b.length := by
    intro a b hb
    obtain ⟨name, hname, rfl⟩ := hnamed.exists_name (mem_entries hb).2
    exact length_lt_joinPath hname a
  induction h with
  | single hb => exact hstep hb
  | tail _ hb ih => exact Nat.lt_trans ih (hstep hb)

/-- What is below a directory begins with its path. -/
lemma Named.prefix_of_below {p r : Str} (h : fs.Below p r) : entryPrefix p <+: r := by
  have hstep : ∀ {a b : Str}, b ∈ fs.entries a → entryPrefix a <+: b := by
    intro a b hb
    obtain ⟨name, -, rfl⟩ := hnamed.exists_name (mem_entries hb).2
    exact List.prefix_append _ name
  induction h with
  | single hb => exact hstep hb
  | @tail b c _ hb ih => exact ih.trans ((prefix_entryPrefix b).trans (hstep hb))

/-- An entry, and what is below it, have its name behind the path of the directory. -/
lemma Named.nameBelow_eq {p name r : Str} (hname : IsName name)
    (h : r = joinPath p name ∨ fs.Below (joinPath p name) r) : nameBelow p r = name := by
  obtain rfl | hbelow := h
  · exact (nameBelow_joinPath hname p []).1
  · have hprefix := hnamed.prefix_of_below hbelow
    rw [entryPrefix_joinPath hname] at hprefix
    obtain ⟨rest, rfl⟩ := hprefix
    exact (nameBelow_joinPath hname p rest).2

/-- Two entries of a directory have nothing in common. -/
lemma Named.eq_of_within {p q r a : Str} (hq : q ∈ (fs.directory p).paths)
    (hr : r ∈ (fs.directory p).paths) (hqa : Traversal.Within fs.entries q a)
    (hra : Traversal.Within fs.entries r a) : q = r := by
  obtain ⟨name, hname, rfl⟩ := hnamed.exists_name hq
  obtain ⟨name', hname', rfl⟩ := hnamed.exists_name hr
  have hbelow := hnamed.nameBelow_eq hname (Relation.reflTransGen_iff_eq_or_transGen.mp hqa)
  have hbelow' := hnamed.nameBelow_eq hname' (Relation.reflTransGen_iff_eq_or_transGen.mp hra)
  rw [← hbelow, hbelow']

lemma Named.nodup_paths (p : Str) : (fs.directory p).paths.Nodup := by
  obtain ⟨names, hpaths, hnodup, -⟩ := hnamed p
  rw [hpaths]
  exact hnodup.map (List.append_right_injective (entryPrefix p))

/-- What is below a directory is a tree. -/
lemma Named.isTree : Traversal.IsTree fs.entries where
  nodup p := by
    rw [entries]
    split
    · exact hnamed.nodup_paths p
    · exact List.nodup_nil
  not_below_self p hbelow := Nat.lt_irrefl _ (hnamed.length_lt hbelow)
  eq_of_within hq hr := hnamed.eq_of_within (mem_entries hq).2 (mem_entries hr).2

end Named

/-! ## The list -/

section Walk

variable (fs) (filter : PathFilter)

/-- An entry, with what is below it if it is a directory. -/
def walkEntry (below : Str → List Str) (q : Str) : List Str :=
  match fs.isDirectory q with
  | .error _ => []
  | .ok isDir => if filter q isDir then if isDir then q :: below q else [q] else []

/-- The paths that are met below a directory, to a number of levels. -/
def walk : (levels : ℕ) → (p : Str) → List Str
  | 0, _ => []
  | levels + 1, p => (fs.directory p).paths.flatMap (fs.walkEntry filter (walk levels))

/-- An entry that is reported. -/
def Enters (p q : Str) : Prop := q ∈ fs.entries p ∧ fs.reports filter q = true

variable {fs filter}

lemma reports_eq {q : Str} {kind : FileKind} (h : fs.status q = .ok kind) :
    fs.reports filter q = filter q (kind == .directoryFile) := by
  rw [reports, isDirectory_eq h]

/-- An entry brings itself and what is below it, if it is reported. -/
lemma mem_walkEntry {below : Str → List Str} {q r : Str} :
    r ∈ fs.walkEntry filter below q ↔
      fs.reports filter q = true ∧ (r = q ∨ fs.isDirectory q = .ok true ∧ r ∈ below q) := by
  rw [walkEntry, reports]
  cases hdir : fs.isDirectory q with
  | error ex => simp
  | ok isDir =>
    dsimp only
    split
    · rename_i hkeep
      cases isDir <;> simp [hkeep]
    · rename_i hskip
      simp [hskip]

/-- An entry that is no directory has nothing below it. -/
lemma walkEntry_eq_branch {below : Str → List Str} {levels : ℕ}
    (h : ∀ q, fs.isDirectory q = .ok true →
      below q = Traversal.preorder fs.entries (fs.reports filter) levels q) :
    fs.walkEntry filter below = Traversal.branch (fs.reports filter)
      (Traversal.preorder fs.entries (fs.reports filter) levels) := by
  funext q
  rw [walkEntry, Traversal.branch, reports]
  cases hdir : fs.isDirectory q with
  | error ex => rfl
  | ok isDir =>
    cases isDir with
    | true =>
      rw [h q hdir]
      rfl
    | false =>
      have hnone : fs.entries q = [] := by rw [entries, hdir]
      rw [Traversal.preorder_of_childless hnone]
      rfl

/-- The walk through a directory is the traversal of what is below it. -/
lemma walk_eq_preorder {p : Str} (hdir : fs.isDirectory p = .ok true) (levels : ℕ) :
    fs.walk filter levels p = Traversal.preorder fs.entries (fs.reports filter) levels p := by
  induction levels generalizing p with
  | zero => rfl
  | succ levels ih =>
    rw [walk, Traversal.preorder, entries_eq hdir, walkEntry_eq_branch fun _ hqdir => ih hqdir]

/-- What is met below a directory is reported, and so are the directories on the way. -/
lemma mem_walk {levels : ℕ} {p r : Str} (hdir : fs.isDirectory p = .ok true)
    (h : r ∈ fs.walk filter levels p) : Relation.TransGen (fs.Enters filter) p r := by
  rw [walk_eq_preorder hdir] at h
  exact Traversal.keeps_of_mem h

lemma below_of_enters {p r : Str} (h : Relation.TransGen (fs.Enters filter) p r) :
    fs.Below p r ∧ fs.reports filter r = true := by
  refine ⟨Traversal.below_of_keeps h, ?_⟩
  obtain ⟨_, -, henters⟩ := Relation.TransGen.tail'_iff.mp h
  exact henters.2

/-- A filter that lets `FindFiles` enter every directory hides nothing but what it does not
report. -/
lemma enters_of_below (hdirs : ∀ q, filter q true = true) {p r : Str} (h : fs.Below p r)
    (hreports : fs.reports filter r = true) : Relation.TransGen (fs.Enters filter) p r := by
  induction h using Relation.TransGen.head_induction_on with
  | single hentry => exact .single ⟨hentry, hreports⟩
  | @head p q hentry hbelow ih =>
    have hreports : fs.reports filter q = true := by
      have hdir : fs.isDirectory q = .ok true := Below.isDirectory_eq hbelow
      rw [reports, hdir]
      exact hdirs q
    exact .head ⟨hentry, hreports⟩ ih

/-- No path is met twice. -/
lemma nodup_walk (hnamed : fs.Named) (levels : ℕ) (p : Str) : (fs.walk filter levels p).Nodup := by
  have htree := hnamed.isTree
  cases levels with
  | zero => exact List.nodup_nil
  | succ levels =>
    rw [walk, walkEntry_eq_branch fun _ hdir => walk_eq_preorder hdir levels]
    refine List.nodup_flatMap.mpr ⟨fun q _ => ?_, ?_⟩
    · exact htree.nodup_branch (htree.nodup_preorder levels) q
    refine (hnamed.nodup_paths p).imp_of_mem fun {q r} hq hr hne a haq har => hne ?_
    exact hnamed.eq_of_within hq hr (Traversal.within_of_mem_branch haq)
      (Traversal.within_of_mem_branch har)

end Walk

end FileSystem

/-! ## What `FindFiles` adds -/

section Adds

variable {fs : FileSystem} {filter : PathFilter}

/-- What has been found begins with `out`, and goes on with the beginning of a list, or with all of
it if nothing has been thrown. -/
def Found.Adds (out whole : List Str) (found : Found) : Prop :=
  ∃ added, found.left = out ++ added ∧ added <+: whole ∧ (found.thrown = none → added = whole)

lemma Found.adds_nil (out whole : List Str) (ex : FilesystemError) :
    Found.Adds out whole ⟨out, some ex⟩ :=
  ⟨[], (List.append_nil out).symm, List.nil_prefix, fun hnone => nomatch hnone⟩

variable {descend : Str → List Str → Option Found} {below : Str → List Str}
  (hdescend : ∀ q out found, descend q out = some found → Found.Adds out (below q) found)
include hdescend

lemma findEntry_adds {q : Str} {out : List Str} {found : Found}
    (h : findEntry fs filter descend q out = some found) :
    Found.Adds out (fs.walkEntry filter below q) found := by
  rw [FileSystem.walkEntry]
  cases hdir : fs.isDirectory q with
  | error ex =>
    rw [findEntry_error hdir] at h
    obtain rfl := Option.some.inj h
    exact Found.adds_nil out [] ex
  | ok isDir =>
    dsimp only
    cases isDir with
    | false =>
      rw [findEntry_file hdir] at h
      obtain rfl := Option.some.inj h
      split
      · exact ⟨[q], rfl, List.prefix_rfl, fun _ => rfl⟩
      · exact ⟨[], (List.append_nil out).symm, List.nil_prefix, fun _ => rfl⟩
    | true =>
      by_cases hkeep : filter q true = true
      · rw [findEntry_enter hdir hkeep] at h
        obtain ⟨added, hleft, hprefix, hall⟩ := hdescend _ _ _ h
        rw [if_pos hkeep]
        refine ⟨q :: added, ?_, List.cons_prefix_cons.mpr ⟨rfl, hprefix⟩, fun hnone => ?_⟩
        · rw [hleft, List.append_assoc]
          rfl
        · rw [hall hnone]
          rfl
      · rw [findEntry_skip hdir hkeep] at h
        obtain rfl := Option.some.inj h
        rw [if_neg hkeep]
        exact ⟨[], (List.append_nil out).symm, List.nil_prefix, fun _ => rfl⟩

lemma findEntries_adds {error : Option FilesystemError} {paths out : List Str} {found : Found}
    (h : findEntries fs filter descend error paths out = some found) :
    Found.Adds out (paths.flatMap (fs.walkEntry filter below)) found := by
  induction paths generalizing out with
  | nil =>
    obtain rfl := Option.some.inj h
    exact ⟨[], (List.append_nil out).symm, List.nil_prefix, fun _ => rfl⟩
  | cons q rest ih =>
    rw [findEntries_cons] at h
    obtain ⟨inner, hinner, hrest⟩ := Option.bind_eq_some_iff.mp h
    obtain ⟨added, hleft, hprefix, hall⟩ := findEntry_adds hdescend hinner
    rw [List.flatMap_cons]
    cases hthrown : inner.thrown with
    | some ex =>
      rw [hthrown] at hrest
      obtain rfl := Option.some.inj hrest
      refine ⟨added, hleft, hprefix.trans (List.prefix_append _ _), fun hnone => ?_⟩
      rw [hthrown] at hnone
      cases hnone
    | none =>
      rw [hthrown] at hrest
      obtain ⟨added', hleft', hprefix', hall'⟩ := ih hrest
      refine ⟨added ++ added', ?_, ?_, fun hnone => ?_⟩
      · rw [hleft', hleft, List.append_assoc]
      · rw [hall hthrown]
        exact (List.prefix_append_right_inj _).mpr hprefix'
      · rw [hall hthrown, hall' hnone]

omit hdescend in
/-- `FindFiles` adds the beginning of the walk, and all of it if it does not throw. -/
lemma findFiles_adds {levels : ℕ} {p : Str} {out : List Str} {found : Found}
    (h : findFiles fs filter levels p out = some found) :
    Found.Adds out (fs.walk filter levels p) found := by
  induction levels generalizing p out found with
  | zero => cases h
  | succ levels ih => exact findEntries_adds (fun _ _ _ hinner => ih hinner) h

end Adds

/-! ## A walk that is complete -/

section Complete

variable {fs : FileSystem} {filter : PathFilter}

/-- The loop calls `FindFiles` for each directory among the entries, unless it throws. -/
lemma exists_descend_of_done {descend : Str → List Str → Option Found}
    {error : Option FilesystemError} {paths out left : List Str}
    (h : findEntries fs filter descend error paths out = some (.done left)) {q : Str}
    (hq : q ∈ paths) (hdir : fs.isDirectory q = .ok true) (hkeep : filter q true = true) :
    ∃ out' left', descend q out' = some (.done left') := by
  induction paths generalizing out with
  | nil => cases hq
  | cons pos rest ih =>
    rw [findEntries_cons] at h
    obtain ⟨⟨left', thrown⟩, hinner, hrest⟩ := Option.bind_eq_some_iff.mp h
    cases thrown with
    | some ex => cases hrest
    | none =>
      obtain rfl | hq := List.mem_cons.mp hq
      · rw [findEntry_enter hdir hkeep] at hinner
        exact ⟨_, left', hinner⟩
      · exact ih hrest hq

/-- A walk that does not throw meets everything it may enter. -/
lemma mem_walk_of_done {p r : Str} (hr : Relation.TransGen (fs.Enters filter) p r) {levels : ℕ}
    {out left : List Str} (h : findFiles fs filter levels p out = some (.done left)) :
    r ∈ fs.walk filter levels p := by
  induction hr using Relation.TransGen.head_induction_on generalizing levels out left with
  | @single p henters =>
    cases levels with
    | zero => cases h
    | succ levels =>
      have hq := (FileSystem.mem_entries henters.1).2
      exact List.mem_flatMap.mpr ⟨r, hq, FileSystem.mem_walkEntry.mpr ⟨henters.2, Or.inl rfl⟩⟩
  | @head p q henters hbelow ih =>
    cases levels with
    | zero => cases h
    | succ levels =>
      have hq := (FileSystem.mem_entries henters.1).2
      have hdir := (FileSystem.below_of_enters hbelow).1.isDirectory_eq
      have hkeep : filter q true = true := by
        have hreports := henters.2
        rwa [FileSystem.reports, hdir] at hreports
      obtain ⟨_, _, hinner⟩ := exists_descend_of_done h hq hdir hkeep
      refine List.mem_flatMap.mpr ⟨q, hq, FileSystem.mem_walkEntry.mpr ⟨henters.2, ?_⟩⟩
      exact Or.inr ⟨hdir, ih hinner⟩

/-- The loop over entries that are passed, from what is known of the directories among them. -/
lemma findEntries_of_passable {paths : List Str}
    (hpaths : ∀ q ∈ paths, fs.isDirectory q = .ok false ∨ fs.isDirectory q = .ok true ∧
      ∀ out, ∃ levels left, findFiles fs filter levels q out = some (.done left))
    (out : List Str) :
    ∃ levels left,
      findEntries fs filter (findFiles fs filter levels) none paths out = some (.done left) := by
  induction paths generalizing out with
  | nil => exact ⟨0, out, rfl⟩
  | cons pos rest ih =>
    have hturn : ∃ levels left,
        findEntry fs filter (findFiles fs filter levels) pos out = some (.done left) := by
      obtain hfile | ⟨hdir, hdescend⟩ := hpaths pos List.mem_cons_self
      · exact ⟨0, _, findEntry_file hfile⟩
      · by_cases hkeep : filter pos true = true
        · obtain ⟨levels, left, hinner⟩ := hdescend (out ++ [pos])
          exact ⟨levels, left, (findEntry_enter hdir hkeep).trans hinner⟩
        · exact ⟨0, out, findEntry_skip hdir hkeep⟩
    obtain ⟨levels₁, inner, hinner⟩ := hturn
    obtain ⟨levels₂, left, hrest⟩ := ih (fun q hq => hpaths q (List.mem_cons_of_mem _ hq)) inner
    have hinner' :=
      findEntry_mono (fun _ _ _ => findFiles_mono (Nat.le_max_left levels₁ levels₂)) hinner
    refine ⟨max levels₁ levels₂, left, ?_⟩
    rw [findEntries_cons, hinner']
    exact findEntries_mono (fun _ _ _ => findFiles_mono (Nat.le_max_right levels₁ levels₂)) hrest

/-- `FindFiles` returns from a directory that is passed. -/
lemma findFiles_of_passable {p : Str} (h : fs.Passable p) (hdir : fs.isDirectory p = .ok true)
    (out : List Str) : ∃ levels left, findFiles fs filter levels p out = some (.done left) := by
  induction h generalizing out with
  | other hother =>
    rw [hother] at hdir
    cases hdir
  | @directory p _ hlisted hentries ih =>
    have hpaths : ∀ q ∈ (fs.directory p).paths, fs.isDirectory q = .ok false ∨
        fs.isDirectory q = .ok true ∧
          ∀ out, ∃ levels left, findFiles fs filter levels q out = some (.done left) := by
      intro q hq
      cases hentries q hq with
      | other hother => exact Or.inl hother
      | directory hisDir => exact Or.inr ⟨hisDir, ih q hq hisDir⟩
    obtain ⟨levels, left, hrun⟩ := findEntries_of_passable hpaths out
    refine ⟨levels + 1, left, ?_⟩
    rw [findFiles, hlisted, hrun]

/-- `FindFiles` adds everything that it may enter, in a directory that is passed. -/
lemma findFiles_passable {p : Str} (hpassed : fs.Passable p) (hdir : fs.isDirectory p = .ok true)
    (out : List Str) :
    ∃ levels, findFiles fs filter levels p out =
        some (.done (out ++ fs.walk filter levels p)) ∧
      ∀ r, r ∈ fs.walk filter levels p ↔ Relation.TransGen (fs.Enters filter) p r := by
  obtain ⟨levels, left, hrun⟩ := findFiles_of_passable hpassed hdir out
  obtain ⟨added, rfl, -, hall⟩ := findFiles_adds hrun
  obtain rfl := hall rfl
  exact ⟨levels, hrun, fun r => ⟨FileSystem.mem_walk hdir, fun hr => mem_walk_of_done hr hrun⟩⟩

end Complete

end OldPart
