import Mathlib.Data.Int.CardIntervalMod

/-!
# Taking turns

What is handed out to `n` in a circle is spread evenly, wherever the circle is entered.
-/

namespace OldPart

/-- Who the first `k` of the turns go to, from `s` on. -/
def turns (n s k : ℕ) : List ℕ := (List.range k).map fun j => (s + j) % n

section Turns

variable {n s k i i' : ℕ}

lemma turns_succ (n s k : ℕ) : turns n s (k + 1) = turns n s k ++ [(s + k) % n] := by
  rw [turns, List.range_succ, List.map_append, List.map_singleton, ← turns]

@[simp] lemma length_turns (n s k : ℕ) : (turns n s k).length = k := by
  rw [turns, List.length_map, List.length_range]

/-- The turns of one of them are as far apart as numbers that are congruent. -/
lemma add_mod_eq_iff (hi : i < n) (j : ℕ) :
    (s + j) % n = i ↔ j ≡ i + (n - s % n) [MOD n] := by
  have hn : 0 < n := Nat.zero_lt_of_lt hi
  have hshift : s + (i + (n - s % n)) ≡ i [MOD n] := by
    have hlt := Nat.mod_lt s hn
    have hsplit := Nat.div_add_mod s n
    have hsum : s + (i + (n - s % n)) = i + n * (s / n + 1) := by
      rw [Nat.mul_add]
      omega
    rw [hsum]
    exact ((Nat.modEq_iff_dvd' (by omega)).mpr ⟨s / n + 1, by omega⟩).symm
  constructor
  · intro h
    refine Nat.ModEq.add_left_cancel' s ((?_ : s + j ≡ i [MOD n]).trans hshift.symm)
    rw [Nat.ModEq, h, Nat.mod_eq_of_lt hi]
  · intro h
    have hsum := (Nat.ModEq.add_left s h).trans hshift
    rwa [Nat.ModEq, Nat.mod_eq_of_lt hi] at hsum

/-- How many turns one of them has had. -/
lemma count_turns (hi : i < n) (s k : ℕ) : (turns n s k).count i =
    k / n + if (i + (n - s % n)) % n < k % n then 1 else 0 := by
  rw [← Nat.count_modEq_card k (Nat.zero_lt_of_lt hi)]
  induction k with
  | zero => rfl
  | succ k ih =>
    rw [turns_succ, List.count_append, ih, Nat.count_succ, List.count_singleton]
    simp only [beq_iff_eq, add_mod_eq_iff hi]

/-- No one has had more than one turn more than another. -/
lemma count_turns_le (hi : i < n) (hi' : i' < n) :
    (turns n s k).count i ≤ (turns n s k).count i' + 1 := by
  rw [count_turns hi, count_turns hi']
  split <;> split <;> omega

end Turns

end OldPart
