import OldPart.Opc.PatternSearch

/-!
# A walk with a filter

What the filter does not let pass is not added to `out`, and hides what is below it.  The rest comes
in preorder.
-/

namespace OldPart

/-- `FindFiles` keeps `out`, and adds what is below a directory and passes the filter, with every
directory on the way: the list of it in preorder, of which there is one. -/
theorem findFiles_inPreorder {fs : FileSystem} {dirPath : Str} (hnamed : fs.Named)
    (hpassed : fs.Passable dirPath) (hdir : fs.isDirectory dirPath = .ok true) (filter : PathFilter)
    (out : List Str) :
    ∃ levels added, findFiles fs filter levels dirPath out = some (.done (out ++ added)) ∧
      ∀ found, Traversal.InPreorder fs.entries (fs.reports filter) dirPath found ↔
        found = added := by
  obtain ⟨levels, hrun, hmem⟩ := findFiles_passable hpassed hdir out
  have hwalk : fs.walk filter levels dirPath =
      Traversal.preorder fs.entries (fs.reports filter) levels dirPath :=
    FileSystem.walk_eq_preorder hdir levels
  have hadded : Traversal.InPreorder fs.entries (fs.reports filter) dirPath
      (fs.walk filter levels dirPath) := by
    rw [hwalk]
    apply hnamed.isTree.inPreorder
    intro r hr
    rw [← hwalk]
    exact (hmem r).mpr hr
  refine ⟨levels, _, hrun, fun found => ?_⟩
  constructor
  · intro hfound
    exact hfound.unique hadded
  · rintro rfl
    exact hadded

/-! ## A directory that is hidden -/

/-- The directory `d` with the directory `d/a` and in it the file `d/a/f`, the file `d/b`, and the
directory `d/c` with the file `d/c/g`. -/
def siblingDirectories : FileSystem := .ofNodes fun p =>
  if p = [100] then some (.directory [[100, 47, 97], [100, 47, 98], [100, 47, 99]])
  else if p = [100, 47, 97] then some (.directory [[100, 47, 97, 47, 102]])
  else if p = [100, 47, 99] then some (.directory [[100, 47, 99, 47, 103]])
  else if p = [100, 47, 97, 47, 102] ∨ p = [100, 47, 98] ∨ p = [100, 47, 99, 47, 103] then
    some (.file [])
  else none

lemma named_siblingDirectories : siblingDirectories.Named := by
  apply FileSystem.named_ofNodes
  intro p entries hnode
  split at hnode
  · subst p
    obtain rfl := Node.directory.inj (Option.some.inj hnode)
    exact ⟨[[97], [98], [99]], rfl, by decide, by decide⟩
  · split at hnode
    · subst p
      obtain rfl := Node.directory.inj (Option.some.inj hnode)
      exact ⟨[[102]], rfl, by decide, by decide⟩
    · split at hnode
      · subst p
        obtain rfl := Node.directory.inj (Option.some.inj hnode)
        exact ⟨[[103]], rfl, by decide, by decide⟩
      · split at hnode
        · cases Option.some.inj hnode
        · cases hnode

lemma passable_siblingDirectories : siblingDirectories.Passable [100] := by
  have hfile : ∀ p, siblingDirectories.status p = .ok .regularFile →
      siblingDirectories.Passable p := fun p hstatus => .other (FileSystem.isDirectory_eq hstatus)
  refine .directory rfl rfl (List.forall_mem_cons.mpr ⟨?_, List.forall_mem_cons.mpr ⟨?_, ?_⟩⟩)
  · exact .directory rfl rfl (List.forall_mem_singleton.mpr (hfile _ rfl))
  · exact hfile _ rfl
  · refine List.forall_mem_singleton.mpr ?_
    exact .directory rfl rfl (List.forall_mem_singleton.mpr (hfile _ rfl))

/-- With a filter that does not let `d/a` pass, `d/a/f` is not found either.  `d/b` comes before
`d/c`, and that before `d/c/g`. -/
theorem findFiles_siblingDirectories :
    findFiles siblingDirectories (fun p _ => p != [100, 47, 97]) 3 [100] [[120]] =
        some (.done [[120], [100, 47, 98], [100, 47, 99], [100, 47, 99, 47, 103]]) ∧
      Traversal.InPreorder siblingDirectories.entries
        (siblingDirectories.reports fun p _ => p != [100, 47, 97]) [100]
        [[100, 47, 98], [100, 47, 99], [100, 47, 99, 47, 103]] := by
  have hrun : findFiles siblingDirectories (fun p _ => p != [100, 47, 97]) 3 [100] [[120]] =
      some (.done [[120], [100, 47, 98], [100, 47, 99], [100, 47, 99, 47, 103]]) := rfl
  obtain ⟨levels, added, hadds, hone⟩ := findFiles_inPreorder named_siblingDirectories
    passable_siblingDirectories rfl (fun p _ => p != [100, 47, 97]) [[120]]
  have hleft := congrArg Attempt.left (findFiles_unique hrun hadds)
  exact ⟨hrun, (hone _).mpr (List.cons.inj hleft).2⟩

end OldPart
