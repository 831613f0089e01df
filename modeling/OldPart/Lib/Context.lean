import Mathlib.Data.Nat.Count

/-!
# Context around hits

Some positions are hits.  Around a hit the `before` positions in front of it and the `after`
positions behind it are selected, each once: for the last hit that it is behind, or else for the
next one that it is in front of.

To begin with, the positions in front of `start` may count as behind a hit that is not there.
-/

namespace OldPart

namespace Context

variable (H : ℕ → Prop) [DecidablePred H] (before after start : ℕ)

/-- Where the positions end that are behind the last hit in front of `k`. -/
def behindEnd : (k : ℕ) → ℕ
  | 0 => start
  | k + 1 => if H k then k + 1 + after else behindEnd k

/-- The next hit is not too far away. -/
def Ahead (k : ℕ) : Prop := ∃ m, k < m ∧ m ≤ k + before ∧ H m

instance (k : ℕ) : Decidable (Ahead H before k) :=
  decidable_of_iff (∃ i < before, H (k + 1 + i))
    ⟨fun ⟨i, hi, hhit⟩ => ⟨k + 1 + i, by omega, by omega, hhit⟩,
      fun ⟨m, hlt, hle, hhit⟩ => ⟨m - (k + 1), by omega, by
        rwa [Nat.add_sub_cancel' (by omega : k + 1 ≤ m)]⟩⟩

/-- The number of the hit that `k` is selected for. -/
def owner (k : ℕ) : Option ℤ :=
  if H k then some (Nat.count H k)
  else if k < behindEnd H after start k then some (Nat.count H k - 1)
  else if Ahead H before k then some (Nat.count H k)
  else none

variable {H before after start}

/-- Between two hits none is counted. -/
lemma count_eq_of_no_hit {a b : ℕ} (hle : a ≤ b) (hnone : ∀ i, a ≤ i → i < b → ¬H i) :
    Nat.count H b = Nat.count H a := by
  induction b, hle using Nat.le_induction with
  | base => rfl
  | succ b hab ih =>
    rw [Nat.count_succ, if_neg (hnone b hab (Nat.lt_succ_self b)), Nat.add_zero]
    exact ih fun i hi hlt => hnone i hi (by omega)

/-- What is behind something is behind the last hit, or there is none so far. -/
lemma cases_of_lt_behindEnd {x k : ℕ} (h : x < behindEnd H after start k) :
    (∃ m < k, H m ∧ Nat.count H m + 1 = Nat.count H k ∧ x ≤ m + after) ∨
      (Nat.count H k = 0 ∧ x < start) := by
  induction k with
  | zero => exact Or.inr ⟨Nat.count_zero H, h⟩
  | succ k ih =>
    rw [behindEnd] at h
    rw [Nat.count_succ]
    by_cases hhit : H k
    · rw [if_pos hhit] at h ⊢
      exact Or.inl ⟨k, Nat.lt_succ_self k, hhit, rfl, by omega⟩
    · rw [if_neg hhit] at h ⊢
      obtain ⟨m, hlt, hm⟩ | hnone := ih h
      · exact Or.inl ⟨m, by omega, hm⟩
      · exact Or.inr hnone

/-- No hit reaches further than the last. -/
lemma lt_behindEnd {m k : ℕ} (hlt : m < k) (hhit : H m) :
    m + after < behindEnd H after start k := by
  induction k with
  | zero => exact (Nat.not_lt_zero m hlt).elim
  | succ k ih =>
    rw [behindEnd]
    split
    · omega
    · next hnot =>
      refine ih (lt_of_le_of_ne (Nat.le_of_lt_succ hlt) ?_)
      rintro rfl
      exact hnot hhit

lemma behindEnd_le (hstart : start ≤ after) (k : ℕ) : behindEnd H after start k ≤ k + after := by
  induction k with
  | zero => simpa [behindEnd] using hstart
  | succ k ih =>
    rw [behindEnd]
    split <;> omega

/-- What is selected for a hit is near it, unless it is selected for none. -/
lemma cases_of_owner_eq_some {k : ℕ} {j : ℤ} (h : owner H before after start k = some j) :
    (∃ m, H m ∧ (Nat.count H m : ℤ) = j ∧ m ≤ k + before ∧ k ≤ m + after) ∨
      (¬H k ∧ Nat.count H k = 0 ∧ k < start ∧ j = -1) := by
  rw [owner] at h
  split at h
  · next hhit => exact Or.inl ⟨k, hhit, Option.some.inj h, by omega, by omega⟩
  · next hnot =>
    split at h
    · next hbehind =>
      have hj := Option.some.inj h
      obtain ⟨m, hlt, hhit, hcount, hle⟩ | ⟨hzero, hstart⟩ := cases_of_lt_behindEnd hbehind
      · exact Or.inl ⟨m, hhit, by omega, by omega, hle⟩
      · exact Or.inr ⟨hnot, hzero, hstart, by omega⟩
    · split at h
      · next hahead =>
        have hj := Option.some.inj h
        -- take the first of the hits ahead
        have hex : ∃ m, k < m ∧ H m := hahead.imp fun m hm => ⟨hm.1, hm.2.2⟩
        obtain ⟨m, hlt, hle, hhit⟩ := hahead
        obtain ⟨hlt₀, hhit₀⟩ := Nat.find_spec hex
        have hmin := Nat.find_min' hex ⟨hlt, hhit⟩
        refine Or.inl ⟨Nat.find hex, hhit₀, ?_, by omega, by omega⟩
        rw [count_eq_of_no_hit hlt₀.le, ← hj]
        intro i hki hi
        obtain rfl | hki := hki.eq_or_lt
        · exact hnot
        · exact fun hhit => Nat.find_min hex hi ⟨hki, hhit⟩
      · cases h

/-- What is near a hit is selected. -/
lemma owner_isSome {m k : ℕ} (hhit : H m) (hbefore : m ≤ k + before) (hafter : k ≤ m + after) :
    ∃ j, owner H before after start k = some j := by
  rw [owner]
  obtain hlt | rfl | hgt := lt_trichotomy m k
  · split
    · exact ⟨_, rfl⟩
    · have hbehind : k < behindEnd H after start k := hafter.trans_lt (lt_behindEnd hlt hhit)
      rw [if_pos hbehind]
      exact ⟨_, rfl⟩
  · rw [if_pos hhit]
    exact ⟨_, rfl⟩
  · have hahead : Ahead H before k := ⟨m, hgt, hbefore, hhit⟩
    rw [if_pos hahead]
    split
    · exact ⟨_, rfl⟩
    · split
      · exact ⟨_, rfl⟩
      · exact ⟨_, rfl⟩

/-- A hit is selected for itself. -/
lemma owner_of_hit {k : ℕ} (hhit : H k) :
    owner H before after start k = some (Nat.count H k : ℤ) := if_pos hhit

/-- What counts as behind a hit that is not there is selected for none. -/
lemma owner_first (hstart : 0 < start) (hnot : ¬H 0) :
    owner H before after start 0 = some (-1) := by
  have hend : 0 < behindEnd H after start 0 := hstart
  rw [owner, if_neg hnot, if_pos hend, Nat.count_zero]
  rfl

/-- Where nothing counts as behind a hit that is not there, or a hit comes first, it does not
matter what did. -/
lemma owner_start (h : start = 0 ∨ H 0) (k : ℕ) :
    owner H before after start k = owner H before after 0 k := by
  obtain rfl | hfirst := h
  · rfl
  · cases k with
    | zero => rw [owner_of_hit hfirst, owner_of_hit hfirst]
    | succ k =>
      have hend : behindEnd H after start (k + 1) = behindEnd H after 0 (k + 1) := by
        induction k with
        | zero => simp only [behindEnd, if_pos hfirst]
        | succ k ih =>
          rw [behindEnd, ih]
          rfl
      rw [owner, owner, hend]

/-! ## The hits in order -/

/-- Every number below the count is the number of a hit. -/
lemma exists_of_lt_count {n i : ℕ} (h : i < Nat.count H n) : ∃ m < n, H m ∧ Nat.count H m = i := by
  induction n with
  | zero => exact (Nat.not_lt_zero i h).elim
  | succ n ih =>
    rw [Nat.count_succ] at h
    split at h
    · next hhit =>
      obtain hlt | heq := Nat.lt_or_eq_of_le (Nat.le_of_lt_succ h)
      · obtain ⟨m, hm, hrest⟩ := ih hlt
        exact ⟨m, by omega, hrest⟩
      · exact ⟨n, Nat.lt_succ_self n, hhit, heq.symm⟩
    · obtain ⟨m, hm, hrest⟩ := ih h
      exact ⟨m, by omega, hrest⟩

lemma length_filter_range (n : ℕ) : ((List.range n).filter H).length = Nat.count H n := by
  induction n with
  | zero => rfl
  | succ n ih =>
    rw [List.range_succ, List.filter_append, List.length_append, ih, Nat.count_succ]
    split
    · next hhit => rw [List.filter_cons_of_pos (by simpa using hhit)]; rfl
    · next hnot => rw [List.filter_cons_of_neg (by simpa using hnot)]; rfl

/-- A hit stands in the list of hits at its number. -/
lemma getElem?_filter_range {n k : ℕ} (hlt : k < n) (hhit : H k) :
    ((List.range n).filter H)[Nat.count H k]? = some k := by
  induction n with
  | zero => exact (Nat.not_lt_zero k hlt).elim
  | succ n ih =>
    rw [List.range_succ, List.filter_append]
    obtain hlt | rfl := Nat.lt_or_eq_of_le (Nat.le_of_lt_succ hlt)
    · have hcount := Nat.count_strict_mono hhit hlt
      rw [List.getElem?_append_left (by rwa [length_filter_range]), ih hlt]
    · rw [List.getElem?_append_right (length_filter_range k).le, length_filter_range, Nat.sub_self,
        List.filter_cons_of_pos (by simpa using hhit)]
      rfl

/-- What stands there is the hit of that number. -/
lemma of_getElem?_filter_range {n i k : ℕ} (h : ((List.range n).filter H)[i]? = some k) :
    k < n ∧ H k ∧ Nat.count H k = i := by
  obtain ⟨hi, -⟩ := List.getElem?_eq_some_iff.mp h
  rw [length_filter_range] at hi
  obtain ⟨m, hlt, hhit, rfl⟩ := exists_of_lt_count hi
  obtain rfl := Option.some.inj ((getElem?_filter_range hlt hhit).symm.trans h)
  exact ⟨hlt, hhit, rfl⟩

end Context

end OldPart
