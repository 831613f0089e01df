import Mathlib.Data.List.Infix

/-!
# Finding and replacing in a text

A search for a pattern from a position on, the exchange of a piece of a text, and the exchange of
every occurrence of a pattern from left to right, of which none is looked for in what has been put
there for another.
-/

namespace OldPart

namespace Text

variable {α : Type*} [DecidableEq α]

/-- The first position from `pos` on at which the pattern starts. -/
def find (s pat : List α) (pos : ℕ) : Option ℕ :=
  (List.range' pos (s.length + 1 - pos)).find? fun i => pat.isPrefixOf (s.drop i)

/-- `len` items from `pos` on are exchanged. -/
def replace (s : List α) (pos len : ℕ) (new : List α) : List α :=
  s.take pos ++ new ++ s.drop (pos + len)

/-- Behind `skip` items that are dropped, every pattern is exchanged. -/
def replaceBehind (pat new : List α) : (skip : ℕ) → List α → List α
  | _, [] => []
  | skip + 1, _ :: s => replaceBehind pat new skip s
  | 0, c :: s =>
      if pat <+: c :: s then new ++ replaceBehind pat new (pat.length - 1) s
      else c :: replaceBehind pat new 0 s

/-- Every pattern that starts behind the ones before it is exchanged. -/
def replaceAll (pat new s : List α) : List α := replaceBehind pat new 0 s

/-! ## Searching -/

section Find

variable {s pat : List α} {pos i : ℕ}

lemma find_eq_some_iff :
    find s pat pos = some i ↔ (pos ≤ i ∧ i ≤ s.length ∧ pat <+: s.drop i) ∧
      ∀ j, pos ≤ j → j < i → ¬pat <+: s.drop j := by
  rw [find, List.find?_range'_eq_some, List.mem_range'_1, List.isPrefixOf_iff_prefix]
  constructor
  · rintro ⟨hpre, ⟨hlo, hhi⟩, hfirst⟩
    refine ⟨⟨hlo, by omega, hpre⟩, fun j hj hji hpre' => ?_⟩
    have hnot := hfirst j hj hji
    rw [List.isPrefixOf_iff_prefix.mpr hpre'] at hnot
    cases hnot
  · rintro ⟨⟨hlo, hhi, hpre⟩, hfirst⟩
    refine ⟨hpre, ⟨hlo, by omega⟩, fun j hj hji => ?_⟩
    have hnot := hfirst j hj hji
    rw [← List.isPrefixOf_iff_prefix, Bool.not_eq_true] at hnot
    rw [hnot]
    rfl

lemma find_eq_none_iff :
    find s pat pos = none ↔ ∀ j, pos ≤ j → j ≤ s.length → ¬pat <+: s.drop j := by
  rw [find, List.find?_range'_eq_none]
  constructor
  · intro h j hlo hhi hpre
    have hnot := h j hlo (by omega)
    rw [List.isPrefixOf_iff_prefix.mpr hpre] at hnot
    cases hnot
  · intro h j hlo hhi
    have hnot := h j hlo (by omega)
    rw [← List.isPrefixOf_iff_prefix, Bool.not_eq_true] at hnot
    rw [hnot]
    rfl

/-- The empty pattern is found where the search begins. -/
lemma find_nil (h : pos ≤ s.length) : find s [] pos = some pos :=
  find_eq_some_iff.mpr ⟨⟨Nat.le_refl _, h, List.nil_prefix⟩, fun _ hlo hhi _ => by omega⟩

/-- Behind the end of a text there is no position. -/
lemma le_length_of_find (h : find s pat pos = some i) : i + pat.length ≤ s.length := by
  obtain ⟨⟨-, hhi, hpre⟩, -⟩ := find_eq_some_iff.mp h
  have hle := hpre.length_le
  rw [List.length_drop] at hle
  omega

/-- What has been passed over is not searched. -/
lemma find_append (front : List α) :
    find (front ++ s) pat front.length = (find s pat 0).map (front.length + ·) := by
  have hdrop : ∀ j, (front ++ s).drop (front.length + j) = s.drop j := fun j => by
    rw [List.drop_append, List.drop_of_length_le (by omega), List.nil_append,
      Nat.add_sub_cancel_left]
  cases hfind : find s pat 0 with
  | none =>
    rw [Option.map_none, find_eq_none_iff]
    intro j hlo hhi
    obtain ⟨k, rfl⟩ := Nat.exists_eq_add_of_le hlo
    rw [hdrop]
    rw [List.length_append] at hhi
    exact find_eq_none_iff.mp hfind k (Nat.zero_le k) (by omega)
  | some i =>
    obtain ⟨⟨-, hhi, hpre⟩, hfirst⟩ := find_eq_some_iff.mp hfind
    rw [Option.map_some, find_eq_some_iff]
    refine ⟨⟨by omega, by rw [List.length_append]; omega, by rwa [hdrop]⟩, fun j hlo hji => ?_⟩
    obtain ⟨k, rfl⟩ := Nat.exists_eq_add_of_le hlo
    rw [hdrop]
    exact hfirst k (Nat.zero_le k) (by omega)

end Find

/-! ## Replacing -/

section Replace

variable {pat : List α} (new : List α)

lemma replaceBehind_eq (skip : ℕ) (s : List α) :
    replaceBehind pat new skip s = replaceAll pat new (s.drop skip) := by
  induction skip generalizing s with
  | zero => rfl
  | succ skip ih =>
    cases s with
    | nil => rfl
    | cons c s => exact ih s

lemma replaceAll_nil : replaceAll pat new [] = [] := rfl

/-- Where the pattern does not start, an item is copied. -/
lemma replaceAll_cons {c : α} {s : List α} (h : ¬pat <+: c :: s) :
    replaceAll pat new (c :: s) = c :: replaceAll pat new s := by
  rw [replaceAll, replaceBehind, if_neg h]
  rfl

/-- Where it starts, it is exchanged. -/
lemma replaceAll_append (hpat : pat ≠ []) (s : List α) :
    replaceAll pat new (pat ++ s) = new ++ replaceAll pat new s := by
  obtain ⟨c, cs, rfl⟩ := List.exists_cons_of_ne_nil hpat
  have hpre : c :: cs <+: c :: (cs ++ s) := List.prefix_append (c :: cs) s
  rw [replaceAll, List.cons_append, replaceBehind, if_pos hpre, replaceBehind_eq,
    List.length_cons, Nat.add_sub_cancel, List.drop_left]

/-- In front of its first occurrence nothing is exchanged. -/
lemma replaceAll_of_first {i : ℕ} {s : List α} (h : find s pat 0 = some i) (hpat : pat ≠ []) :
    replaceAll pat new s = s.take i ++ new ++ replaceAll pat new (s.drop (i + pat.length)) := by
  obtain ⟨⟨-, hhi, hpre⟩, hfirst⟩ := find_eq_some_iff.mp h
  clear h
  induction i generalizing s with
  | zero =>
    obtain ⟨rest, rfl⟩ := hpre
    rw [replaceAll_append new hpat, Nat.zero_add, List.drop_left, List.take_zero, List.nil_append]
  | succ i ih =>
    cases s with
    | nil => exact absurd hhi (by simp)
    | cons c s =>
      have hnot : ¬pat <+: c :: s := hfirst 0 (Nat.le_refl 0) i.succ_pos
      have hrest := ih (fun j _ hj => hfirst (j + 1) (Nat.zero_le _) (by omega))
        (Nat.le_of_succ_le_succ hhi) hpre
      rw [replaceAll_cons new hnot, hrest, List.take_succ_cons, Nat.succ_add, List.drop_succ_cons]
      rfl

/-- Without an occurrence nothing is exchanged. -/
lemma replaceAll_of_absent {s : List α} (h : find s pat 0 = none) : replaceAll pat new s = s := by
  rw [find_eq_none_iff] at h
  induction s with
  | nil => rfl
  | cons c s ih =>
    have hnot : ¬pat <+: c :: s := h 0 (Nat.le_refl 0) (Nat.zero_le _)
    rw [replaceAll_cons new hnot, ih fun j _ hj => h (j + 1) (Nat.zero_le _) (by simpa using hj)]

/-- An item that is not in the pattern separates what is exchanged. -/
lemma replaceAll_append_cons {b : α} (hpat : pat ≠ []) (hb : b ∉ pat) (s rest : List α) :
    replaceAll pat new (s ++ b :: rest) = replaceAll pat new s ++ b :: replaceAll pat new rest := by
  induction hlen : s.length using Nat.strong_induction_on generalizing s with
  | _ n ih =>
    by_cases hpre : pat <+: s
    · obtain ⟨s', rfl⟩ := hpre
      have hpos : 0 < pat.length := List.length_pos_iff.mpr hpat
      rw [List.append_assoc, replaceAll_append new hpat, replaceAll_append new hpat,
        ih s'.length (by rw [← hlen, List.length_append]; omega) s' rfl, List.append_assoc]
    · -- an occurrence at the front would have to reach over `b`
      have hnot : ¬pat <+: s ++ b :: rest := by
        intro h
        obtain hlt | hle := Nat.lt_or_ge s.length pat.length
        · have hpre' : s ++ [b] <+: pat := by
            refine List.prefix_of_prefix_length_le ⟨rest, ?_⟩ h ?_
            · rw [List.append_assoc, List.singleton_append]
            · rw [List.length_append, List.length_singleton]
              exact hlt
          exact hb (hpre'.subset (List.mem_append_right s (List.mem_singleton_self b)))
        · exact hpre (List.prefix_of_prefix_length_le h (List.prefix_append s _) hle)
      cases s with
      | nil => exact replaceAll_cons new hnot
      | cons c s =>
        rw [List.cons_append] at hnot ⊢
        rw [replaceAll_cons new hnot, replaceAll_cons new hpre,
          ih s.length (by rw [← hlen]; exact Nat.lt_succ_self _) s rfl]
        rfl

/-- A pattern of one item. -/
lemma replaceAll_singleton (x : α) (s : List α) :
    replaceAll [x] new s = s.flatMap fun c => if c = x then new else [c] := by
  induction s with
  | nil => rfl
  | cons c s ih =>
    rw [List.flatMap_cons, ← ih]
    by_cases hc : c = x
    · rw [if_pos hc, hc]
      exact replaceAll_append new (List.cons_ne_nil _ _) s
    · have hnot : ¬[x] <+: c :: s := fun h => hc (List.cons_prefix_cons.mp h).1.symm
      rw [if_neg hc, replaceAll_cons new hnot]
      rfl

/-- A pattern of `b` and another item, in a text where `b` only comes in front of an item that
belongs to it, and the other item only behind one. -/
lemma replaceAll_pair {b x : α} (hx : x ≠ b) {tokens : List (List α)}
    (h : ∀ t ∈ tokens, (∃ y, t = [y] ∧ y ≠ b ∧ y ≠ x) ∨ ∃ y, t = [b, y]) :
    replaceAll [b, x] new tokens.flatten =
      (tokens.map fun t => if t = [b, x] then new else t).flatten := by
  induction tokens with
  | nil => rfl
  | cons t tokens ih =>
    have hrest := ih fun t' ht' => h t' (List.mem_cons_of_mem _ ht')
    -- the next token does not begin with `x`
    have hhead : ¬∃ s, tokens.flatten = x :: s := by
      rintro ⟨s, hs⟩
      cases tokens with
      | nil => cases hs
      | cons t' tokens =>
        obtain ⟨y, rfl, -, hy⟩ | ⟨y, rfl⟩ := h t' (List.mem_cons_of_mem _ List.mem_cons_self)
        · exact hy (List.cons.inj hs).1
        · exact hx (List.cons.inj hs).1.symm
    rw [List.flatten_cons, List.map_cons, List.flatten_cons, ← hrest]
    obtain ⟨y, rfl, hb, -⟩ | ⟨y, rfl⟩ := h t List.mem_cons_self
    · have hnot : ¬[b, x] <+: y :: tokens.flatten := fun h => hb (List.cons_prefix_cons.mp h).1.symm
      rw [if_neg (by simp), List.singleton_append, replaceAll_cons new hnot]
      rfl
    · by_cases hy : y = x
      · rw [if_pos (by rw [hy]), hy]
        exact replaceAll_append new (List.cons_ne_nil _ _) _
      · have hnot : ¬[b, x] <+: b :: y :: tokens.flatten := fun h =>
          hy (List.cons_prefix_cons.mp (List.cons_prefix_cons.mp h).2).1.symm
        have hnot' : ¬[b, x] <+: y :: tokens.flatten := by
          intro h
          obtain ⟨-, s, hs⟩ := List.cons_prefix_cons.mp h
          exact hhead ⟨s, hs.symm⟩
        rw [if_neg (by simp [hy]), List.cons_append, List.singleton_append,
          replaceAll_cons new hnot, replaceAll_cons new hnot']
        rfl

end Replace

end Text

end OldPart
