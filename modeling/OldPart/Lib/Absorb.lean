import Mathlib.Data.List.Basic

/-!
# Hashing in blocks

A hash that works on blocks of a fixed size chains a compression over them.  A message that comes in
pieces is taken in byte by byte: what does not fill a block waits for what follows.  How a message
is cut into pieces is therefore of no consequence.
-/

namespace OldPart

variable {σ α : Type*} {n : ℕ}

/-- What has been taken in: the state behind the blocks that were full, and what has come behind
them. -/
structure Absorbed (σ α : Type*) (n : ℕ) where
  state : σ
  pending : List α
  pending_lt : pending.length < n

namespace Absorbed

variable (compress : σ → List α → σ)

/-- Nothing has come behind the blocks. -/
def fresh (hn : 0 < n) (s : σ) : Absorbed σ α n := ⟨s, [], hn⟩

/-- One more. -/
def absorbOne (x : Absorbed σ α n) (a : α) : Absorbed σ α n :=
  if h : x.pending.length + 1 < n then
    ⟨x.state, x.pending ++ [a], by rwa [List.length_append, List.length_singleton]⟩
  else fresh (Nat.zero_lt_of_lt x.pending_lt) (compress x.state (x.pending ++ [a]))

/-- A piece of the message. -/
def absorb (x : Absorbed σ α n) (piece : List α) : Absorbed σ α n :=
  piece.foldl (absorbOne compress) x

variable {compress} {x : Absorbed σ α n} {piece : List α}

@[ext] lemma ext {y : Absorbed σ α n} (hstate : x.state = y.state)
    (hpending : x.pending = y.pending) : x = y := by
  obtain ⟨s, p, h⟩ := x
  obtain ⟨s', p', h'⟩ := y
  obtain rfl : s = s' := hstate
  obtain rfl : p = p' := hpending
  rfl

@[simp] lemma absorb_nil : x.absorb compress [] = x := rfl

/-- A message may be cut anywhere. -/
lemma absorb_append (piece' : List α) :
    x.absorb compress (piece ++ piece') = (x.absorb compress piece).absorb compress piece' :=
  List.foldl_append

/-- What does not fill the block waits. -/
lemma absorb_of_lt (h : x.pending.length + piece.length < n) :
    (x.absorb compress piece).state = x.state ∧
      (x.absorb compress piece).pending = x.pending ++ piece := by
  induction piece generalizing x with
  | nil => exact ⟨rfl, (List.append_nil _).symm⟩
  | cons a piece ih =>
    rw [List.length_cons] at h
    have hone : x.absorbOne compress a = ⟨x.state, x.pending ++ [a], by
        rw [List.length_append, List.length_singleton]; omega⟩ := dif_pos (by omega)
    have hrest : (x.absorbOne compress a).pending.length + piece.length < n := by
      rw [hone, List.length_append, List.length_singleton]
      omega
    obtain ⟨hstate, hpending⟩ := ih hrest
    rw [hone] at hstate hpending
    rw [absorb, List.foldl_cons, ← absorb, hone]
    exact ⟨hstate, by rw [hpending, List.append_assoc, List.singleton_append]⟩

/-- What fills the block is compressed with what has been waiting. -/
lemma absorb_of_eq (h : x.pending.length + piece.length = n) :
    x.absorb compress piece = fresh (Nat.zero_lt_of_lt x.pending_lt)
      (compress x.state (x.pending ++ piece)) := by
  have hlt := x.pending_lt
  obtain ⟨init, a, rfl⟩ : ∃ init a, piece = init ++ [a] := by
    refine ⟨piece.dropLast, piece.getLast ?_, (List.dropLast_append_getLast _).symm⟩
    rintro rfl
    rw [List.length_nil] at h
    omega
  rw [List.length_append, List.length_singleton] at h
  have hinit : x.pending.length + init.length < n := by omega
  obtain ⟨hstate, hpending⟩ : (x.absorb compress init).state = x.state ∧
    (x.absorb compress init).pending = x.pending ++ init := absorb_of_lt hinit
  have hfull : ¬(x.absorb compress init).pending.length + 1 < n := by
    rw [hpending, List.length_append]
    omega
  rw [absorb_append]
  refine (dif_neg hfull).trans ?_
  rw [hstate, hpending, List.append_assoc]

/-- How much waits. -/
lemma length_pending_absorb : (x.absorb compress piece).pending.length =
    (x.pending.length + piece.length) % n := by
  induction piece generalizing x with
  | nil => exact (Nat.mod_eq_of_lt x.pending_lt).symm
  | cons a piece ih =>
    have hlt := x.pending_lt
    rw [absorb, List.foldl_cons, ← absorb, ih, List.length_cons, absorbOne]
    split
    · rw [List.length_append, List.length_singleton]
      congr 1
      omega
    · have hfull : x.pending.length + (piece.length + 1) = piece.length + n := by omega
      rw [hfull, Nat.add_mod_right]
      exact congrArg (· % n) (Nat.zero_add _)

/-- A block of the message is compressed by itself when nothing waits. -/
lemma absorb_fresh (hn : 0 < n) (s : σ) (h : n ≤ piece.length) :
    (fresh hn s).absorb compress piece =
      (fresh hn (compress s (piece.take n))).absorb compress (piece.drop n) := by
  have hblock : (fresh hn s : Absorbed σ α n).pending.length + (piece.take n).length = n := by
    rw [List.length_take, Nat.min_eq_left h]
    exact Nat.zero_add n
  conv_lhs => rw [← List.take_append_drop n piece, absorb_append, absorb_of_eq hblock]
  rfl

end Absorbed

/-- The state behind the first `k` blocks of a message. -/
def chain (n : ℕ) (compress : σ → List α → σ) : ℕ → σ → List α → σ
  | 0, s, _ => s
  | k + 1, s, message => chain n compress k (compress s (message.take n)) (message.drop n)

/-- What the blocks of a message come to. -/
lemma Absorbed.absorb_eq_chain {compress : σ → List α → σ} (hn : 0 < n) {k : ℕ} (s : σ)
    {message : List α} (h : message.length = n * k) :
    (fresh hn s).absorb compress message = fresh hn (chain n compress k s message) := by
  induction k generalizing s message with
  | zero =>
    obtain rfl : message = [] := List.length_eq_zero_iff.mp h
    rfl
  | succ k ih =>
    rw [Nat.mul_succ] at h
    rw [absorb_fresh hn s (by omega), ih _ (by rw [List.length_drop]; omega), chain]

end OldPart
