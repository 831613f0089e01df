import OldPart.Lib.Replace
import OldPart.Opc.FileSystem

/-!
# `SReplaceVisit`

The loop that exchanges a string in a line.  It looks for the next occurrence behind the string it
has put in, and so ends when there is something to look for; the empty string is found again and
again.
-/

namespace OldPart

/-- The loop of `SReplaceVisit::operator()`.  `npos` is `none`, and so is the result of a loop that
has not ended in so many turns. -/
def replaceTurns (strFrom strTo : Str) : (turns : ℕ) → (nIndex : Option ℕ) → Str → Option Str
  | _, none, strLine => some strLine
  | 0, some _, _ => none
  | turns + 1, some nIndex, strLine =>
      let strLine := Text.replace strLine nIndex strFrom.length strTo
      replaceTurns strFrom strTo turns (Text.find strLine strFrom (nIndex + strTo.length)) strLine

/-- `SReplaceVisit::operator()`. -/
def sReplaceVisit (strFrom strTo : Str) (turns : ℕ) (strLine : Str) : Option Str :=
  replaceTurns strFrom strTo turns (Text.find strLine strFrom 0) strLine

/-! ## A string to look for -/

section Nonempty

variable {strFrom : Str} (strTo : Str)

/-- What is in front of `nIndex` has been exchanged, and what is behind it is the rest of the line,
which gets shorter with every turn. -/
lemma replaceTurns_eq (hfrom : strFrom ≠ []) {turns : ℕ} (front : Str) {rest : Str}
    (hturns : rest.length < turns) :
    replaceTurns strFrom strTo turns (Text.find (front ++ rest) strFrom front.length)
        (front ++ rest) =
      some (front ++ Text.replaceAll strFrom strTo rest) := by
  have hpos : 0 < strFrom.length := List.length_pos_iff.mpr hfrom
  induction turns generalizing front rest with
  | zero => exact absurd hturns (Nat.not_lt_zero _)
  | succ turns ih =>
    rw [Text.find_append]
    cases hfind : Text.find rest strFrom 0 with
    | none =>
      rw [Text.replaceAll_of_absent strTo hfind]
      rfl
    | some i =>
      have hle := Text.le_length_of_find hfind
      have hlength :
          (front ++ (rest.take i ++ strTo)).length = front.length + i + strTo.length := by
        rw [List.length_append, List.length_append, List.length_take, Nat.min_eq_left (by omega),
          Nat.add_assoc]
      have hnext : Text.replace (front ++ rest) (front.length + i) strFrom.length strTo =
          front ++ (rest.take i ++ strTo) ++ rest.drop (i + strFrom.length) := by
        rw [Text.replace, List.take_append, List.take_of_length_le (by omega),
          Nat.add_sub_cancel_left, Nat.add_assoc, List.drop_append,
          List.drop_of_length_le (by omega), Nat.add_sub_cancel_left, List.nil_append,
          List.append_assoc front]
      have hshorter : (rest.drop (i + strFrom.length)).length < turns := by
        rw [List.length_drop]
        omega
      rw [Option.map_some, replaceTurns, hnext]
      show replaceTurns strFrom strTo turns
        (Text.find _ strFrom (front.length + i + strTo.length)) _ = _
      rw [← hlength, ih _ hshorter, Text.replaceAll_of_first strTo hfind hfrom, List.append_assoc]

/-- Every occurrence in the line is exchanged, and what is put in is not looked through. -/
lemma sReplaceVisit_eq (hfrom : strFrom ≠ []) {turns : ℕ} {strLine : Str}
    (hturns : strLine.length < turns) :
    sReplaceVisit strFrom strTo turns strLine = some (Text.replaceAll strFrom strTo strLine) :=
  replaceTurns_eq strTo hfrom [] hturns

end Nonempty

lemma replaceTurns_mono {strFrom strTo : Str} {turns turns' : ℕ} (hle : turns ≤ turns')
    {nIndex : Option ℕ} {strLine strLine' : Str}
    (h : replaceTurns strFrom strTo turns nIndex strLine = some strLine') :
    replaceTurns strFrom strTo turns' nIndex strLine = some strLine' := by
  induction turns generalizing turns' nIndex strLine with
  | zero =>
    cases nIndex with
    | none => cases turns' <;> exact h
    | some nIndex => cases h
  | succ turns ih =>
    cases nIndex with
    | none => cases turns' <;> exact h
    | some nIndex =>
      obtain ⟨turns', rfl⟩ : ∃ n, turns' = n + 1 := ⟨turns' - 1, by omega⟩
      exact ih (Nat.le_of_succ_le_succ hle) h

/-- What the loop makes of a line does not depend on the number of turns. -/
lemma sReplaceVisit_unique {strFrom strTo strLine strLine' : Str} (hfrom : strFrom ≠ [])
    {turns : ℕ} (h : sReplaceVisit strFrom strTo turns strLine = some strLine') :
    strLine' = Text.replaceAll strFrom strTo strLine := by
  have hmax := replaceTurns_mono (Nat.le_max_left turns (strLine.length + 1)) h
  have hend : strLine.length < max turns (strLine.length + 1) := by omega
  exact Option.some.inj (hmax.symm.trans (sReplaceVisit_eq strTo hfrom hend))

/-- The loop ends with a line exactly if every occurrence has been exchanged in it, from left to
right and each behind the one before it. -/
theorem sReplaceVisit_eq_some_iff {strFrom : Str} (hfrom : strFrom ≠ [])
    (strTo strLine strLine' : Str) :
    (∃ turns, sReplaceVisit strFrom strTo turns strLine = some strLine') ↔
      strLine' = Text.replaceAll strFrom strTo strLine := by
  constructor
  · rintro ⟨turns, hrun⟩
    exact sReplaceVisit_unique hfrom hrun
  · rintro rfl
    exact ⟨strLine.length + 1, sReplaceVisit_eq strTo hfrom (Nat.lt_succ_self _)⟩

/-- In `aaaaa` two `aa` become `baa`.  Those that have been put in stay, also the one in front of
the last `a`. -/
theorem sReplaceVisit_aaaaa :
    ∃ turns, sReplaceVisit [97, 97] [98, 97, 97] turns [97, 97, 97, 97, 97] =
      some [98, 97, 97, 98, 97, 97, 97] :=
  (sReplaceVisit_eq_some_iff (List.cons_ne_nil _ _) _ _ _).mpr (by decide)

/-! ## The empty string -/

/-- The empty string is found behind what has been put in, however often that was. -/
lemma replaceTurns_nil (strTo : Str) (turns : ℕ) {nIndex : ℕ} {strLine : Str}
    (hindex : nIndex ≤ strLine.length) :
    replaceTurns [] strTo turns (some nIndex) strLine = none := by
  induction turns generalizing nIndex strLine with
  | zero => rfl
  | succ turns ih =>
    have hnext : nIndex + strTo.length ≤ (Text.replace strLine nIndex 0 strTo).length := by
      rw [Text.replace, List.length_append, List.length_append, List.length_take,
        Nat.min_eq_left hindex]
      exact Nat.le_add_right _ _
    rw [replaceTurns, List.length_nil]
    show replaceTurns [] strTo turns (Text.find _ [] (nIndex + strTo.length)) _ = none
    rw [Text.find_nil hnext]
    exact ih hnext

lemma sReplaceVisit_nil (strTo : Str) (turns : ℕ) (strLine : Str) :
    sReplaceVisit [] strTo turns strLine = none := by
  rw [sReplaceVisit, Text.find_nil (Nat.zero_le _)]
  exact replaceTurns_nil strTo turns (Nat.zero_le _)

/-- The loop ends exactly when there is something to look for. -/
theorem sReplaceVisit_ends_iff (strFrom strTo strLine : Str) :
    (∃ turns strLine', sReplaceVisit strFrom strTo turns strLine = some strLine') ↔
      strFrom ≠ [] := by
  constructor
  · rintro ⟨turns, strLine', hrun⟩ rfl
    rw [sReplaceVisit_nil] at hrun
    cases hrun
  · intro hfrom
    exact ⟨strLine.length + 1, _, sReplaceVisit_eq strTo hfrom (Nat.lt_succ_self _)⟩

/-- Nothing exchanged for nothing in the line `a` has no end. -/
theorem not_sReplaceVisit_ends_nil :
    ¬∀ strFrom strTo strLine : Str, ∃ turns strLine',
      sReplaceVisit strFrom strTo turns strLine = some strLine' := by
  intro h
  obtain ⟨turns, strLine', hrun⟩ := h [] [] [97]
  rw [sReplaceVisit_nil] at hrun
  cases hrun

end OldPart
