import Mathlib.Data.List.Basic

/-!
# Patterns of counted pieces

A pattern is a list of pieces, each a number of items of one kind in a row.  A text matches when it
is cut into what its pieces admit; a pattern is found in a text where a part of the text matches
that ends where the text or a line of it does.
-/

namespace OldPart

namespace Pattern

/-- What an item of the text has to be. -/
inductive Atom (α : Type*) where
  | any
  | item (c : α)
deriving DecidableEq, Repr

/-- At least `least` items in a row, and at most `most` when there is a bound. -/
structure Piece (α : Type*) where
  atom : Atom α
  least : ℕ
  most : Option ℕ
deriving DecidableEq, Repr

variable {α : Type*}

/-- The atom stands for an item. -/
def Atom.Fits : Atom α → α → Prop
  | any, _ => True
  | item c, x => x = c

instance [DecidableEq α] : (a : Atom α) → (x : α) → Decidable (a.Fits x)
  | .any, _ => inferInstanceAs (Decidable True)
  | .item c, x => inferInstanceAs (Decidable (x = c))

/-- The piece stands for some items in a row. -/
abbrev Piece.Admits (p : Piece α) (t : List α) : Prop :=
  p.least ≤ t.length ∧ (∀ m ∈ p.most, t.length ≤ m) ∧ ∀ x ∈ t, p.atom.Fits x

/-- The text is cut into what the pieces stand for. -/
def Matches : List (Piece α) → List α → Prop
  | [], s => s = []
  | p :: ps, s => ∃ n ≤ s.length, p.Admits (s.take n) ∧ Matches ps (s.drop n)

instance Matches.decidable [DecidableEq α] :
    (ps : List (Piece α)) → (s : List α) → Decidable (Matches ps s)
  | [], s => inferInstanceAs (Decidable (s = []))
  | p :: ps, s =>
      have (n : ℕ) : Decidable (Matches ps (s.drop n)) := Matches.decidable ps (s.drop n)
      inferInstanceAs (Decidable (∃ n ≤ s.length, p.Admits (s.take n) ∧ Matches ps (s.drop n)))

/-- Here the text ends, or a line of it does: `breaks` is given the item behind which it would, if
there is one, and the item in front of which it would. -/
abbrev EndsAt (breaks : Option α → α → Bool) (before s : List α) : Prop :=
  s = [] ∨ ∃ c ∈ s.head?, breaks before.getLast? c = true

/-- A part of the text matches that ends where the text or a line does. -/
def Found (breaks : Option α → α → Bool) (ps : List (Piece α)) (s : List α) : Prop :=
  ∃ i ≤ s.length, ∃ n ≤ (s.drop i).length, Matches ps ((s.drop i).take n) ∧
    EndsAt breaks (s.take i ++ (s.drop i).take n) ((s.drop i).drop n)

instance [DecidableEq α] (breaks : Option α → α → Bool) (ps : List (Piece α)) (s : List α) :
    Decidable (Found breaks ps s) :=
  inferInstanceAs (Decidable (∃ i ≤ s.length, ∃ n ≤ (s.drop i).length,
    Matches ps ((s.drop i).take n) ∧
      EndsAt breaks (s.take i ++ (s.drop i).take n) ((s.drop i).drop n)))

section Cut

variable {p : Piece α} {ps : List (Piece α)} {s : List α} {breaks : Option α → α → Bool}

lemma matches_cons_iff :
    Matches (p :: ps) s ↔ ∃ t rest, s = t ++ rest ∧ p.Admits t ∧ Matches ps rest := by
  constructor
  · rintro ⟨n, -, hfirst, hrest⟩
    exact ⟨s.take n, s.drop n, (List.take_append_drop n s).symm, hfirst, hrest⟩
  · rintro ⟨t, rest, rfl, hfirst, hrest⟩
    refine ⟨t.length, by rw [List.length_append]; exact Nat.le_add_right _ _, ?_, ?_⟩
    · rwa [List.take_left]
    · rwa [List.drop_left]

lemma found_iff :
    Found breaks ps s ↔
      ∃ front part rest, s = front ++ (part ++ rest) ∧ Matches ps part ∧
        EndsAt breaks (front ++ part) rest := by
  constructor
  · rintro ⟨i, -, n, -, hpart, hrest⟩
    refine ⟨s.take i, _, _, ?_, hpart, hrest⟩
    rw [List.take_append_drop, List.take_append_drop]
  · rintro ⟨front, part, rest, rfl, hpart, hrest⟩
    refine ⟨front.length, by rw [List.length_append]; exact Nat.le_add_right _ _, part.length, ?_⟩
    rw [List.drop_left]
    refine ⟨by rw [List.length_append]; exact Nat.le_add_right _ _, ?_, ?_⟩
    · rwa [List.take_left]
    · rwa [List.drop_left, List.take_left, List.take_left]

lemma matches_append_iff {qs : List (Piece α)} :
    Matches (ps ++ qs) s ↔ ∃ t rest, s = t ++ rest ∧ Matches ps t ∧ Matches qs rest := by
  induction ps generalizing s with
  | nil =>
    constructor
    · exact fun h => ⟨[], s, rfl, rfl, h⟩
    · rintro ⟨t, rest, rfl, rfl, h⟩
      exact h
  | cons p ps ih =>
    rw [List.cons_append, matches_cons_iff]
    constructor
    · rintro ⟨t, rest, rfl, hfirst, hrest⟩
      obtain ⟨t', rest', rfl, hps, hqs⟩ := ih.mp hrest
      exact ⟨t ++ t', rest', (List.append_assoc _ _ _).symm,
        matches_cons_iff.mpr ⟨t, t', rfl, hfirst, hps⟩, hqs⟩
    · rintro ⟨t, rest, rfl, hps, hqs⟩
      obtain ⟨t', rest', rfl, hfirst, hrest⟩ := matches_cons_iff.mp hps
      exact ⟨t', rest' ++ rest, List.append_assoc _ _ _, hfirst,
        ih.mpr ⟨rest', rest, rfl, hrest, hqs⟩⟩

/-- A piece that stands for exactly one item. -/
lemma admits_one_iff {a : Atom α} {t : List α} :
    Piece.Admits ⟨a, 1, some 1⟩ t ↔ ∃ x, t = [x] ∧ a.Fits x := by
  constructor
  · rintro ⟨hleast, hmost, hfits⟩
    have hone : t.length = 1 := Nat.le_antisymm (hmost 1 rfl) hleast
    obtain ⟨x, rfl⟩ := List.length_eq_one_iff.mp hone
    exact ⟨x, rfl, hfits x (List.mem_singleton_self x)⟩
  · rintro ⟨x, rfl, hfits⟩
    refine ⟨Nat.le_refl _, fun m hm => ?_, fun y hy => ?_⟩
    · rw [← Option.some.inj hm]
      exact Nat.le_refl _
    · rwa [List.mem_singleton.mp hy]

/-- A piece that stands for anything. -/
lemma admits_all (t : List α) : Piece.Admits ⟨.any, 0, none⟩ t :=
  ⟨Nat.zero_le _, (fun _ hm => nomatch hm), fun _ _ => trivial⟩

end Cut

/-! ## A text that matches -/

/-- The shortest text that matches, with one item for every other that may be any. -/
def sample (fill : α) (ps : List (Piece α)) : List α :=
  ps.flatMap fun p => List.replicate p.least <|
    match p.atom with
    | .any => fill
    | .item c => c

/-- Its items are those of the pattern. -/
lemma mem_sample {fill x : α} {ps : List (Piece α)} (h : x ∈ sample fill ps) :
    x = fill ∨ ∃ p ∈ ps, p.atom = .item x := by
  obtain ⟨p, hp, hx⟩ := List.mem_flatMap.mp h
  have hsame := List.eq_of_mem_replicate hx
  cases hatom : p.atom with
  | any =>
    rw [hatom] at hsame
    exact Or.inl hsame
  | item c =>
    rw [hatom] at hsame
    obtain rfl : x = c := hsame
    exact Or.inr ⟨p, hp, hatom⟩

lemma matches_sample (fill : α) {ps : List (Piece α)}
    (h : ∀ p ∈ ps, ∀ m ∈ p.most, p.least ≤ m) : Matches ps (sample fill ps) := by
  induction ps with
  | nil => rfl
  | cons p ps ih =>
    refine matches_cons_iff.mpr ⟨_, _, rfl, ⟨?_, ?_, ?_⟩,
      ih fun q hq => h q (List.mem_cons_of_mem _ hq)⟩
    · exact Nat.le_of_eq List.length_replicate.symm
    · intro m hm
      rw [List.length_replicate]
      exact h p List.mem_cons_self m hm
    · intro x hx
      have hsame := List.eq_of_mem_replicate hx
      cases hatom : p.atom with
      | any => exact trivial
      | item c =>
        rw [hatom] at hsame
        exact hsame

end Pattern

end OldPart
