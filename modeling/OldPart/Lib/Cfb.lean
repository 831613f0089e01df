import Mathlib.Data.Vector.Basic

/-!
# Cipher feedback

Elements are mixed one by one with a block that is the cipher of the last block of ciphertext.  A
state keeps that block and how much of it has been used, so a text may come in pieces.
-/

namespace OldPart

variable {α : Type*} {n : ℕ}

/-- A block, and the place in it where the next element goes. -/
structure Feedback (α : Type*) (n : ℕ) where
  ivec : List.Vector α n
  num : ℕ
  num_lt : num < n

namespace Feedback

variable (mix : α → α → α) (cipher : List.Vector α n → List.Vector α n)

/-- The block that the next element is mixed with.  It is ciphered when all of it is new. -/
def current (x : Feedback α n) : List.Vector α n := if x.num = 0 then cipher x.ivec else x.ivec

/-- An element of ciphertext replaces the one that it was mixed with. -/
def feed (x : Feedback α n) (c : α) : Feedback α n :=
  ⟨(x.current cipher).set ⟨x.num, x.num_lt⟩ c, (x.num + 1) % n,
    Nat.mod_lt _ (Nat.zero_lt_of_lt x.num_lt)⟩

/-- An element, mixed. -/
def mixed (x : Feedback α n) (a : α) : α :=
  mix a ((x.current cipher).get ⟨x.num, x.num_lt⟩)

/-- The ciphertext of a text, and the state behind it. -/
def encrypt (x : Feedback α n) : List α → List α × Feedback α n
  | [] => ([], x)
  | p :: ps =>
      let c := x.mixed mix cipher p
      let rest := (x.feed cipher c).encrypt ps
      (c :: rest.1, rest.2)

/-- The text of a ciphertext, and the state behind it. -/
def decrypt (x : Feedback α n) : List α → List α × Feedback α n
  | [] => ([], x)
  | c :: cs =>
      let rest := (x.feed cipher c).decrypt cs
      (x.mixed mix cipher c :: rest.1, rest.2)

variable {mix cipher} {x : Feedback α n} {ps cs : List α}

/-- Both go through the same states. -/
lemma decrypt_encrypt (hmix : ∀ a b, mix (mix a b) b = a) :
    x.decrypt mix cipher (x.encrypt mix cipher ps).1 = (ps, (x.encrypt mix cipher ps).2) := by
  induction ps generalizing x with
  | nil => rfl
  | cons p ps ih =>
    rw [encrypt, decrypt, ih, mixed, mixed, hmix]

@[simp] lemma length_encrypt : (x.encrypt mix cipher ps).1.length = ps.length := by
  induction ps generalizing x with
  | nil => rfl
  | cons p ps ih => rw [encrypt, List.length_cons, ih, List.length_cons]

@[simp] lemma length_decrypt : (x.decrypt mix cipher cs).1.length = cs.length := by
  induction cs generalizing x with
  | nil => rfl
  | cons c cs ih => rw [decrypt, List.length_cons, ih, List.length_cons]

/-- What is decrypted of the first of a ciphertext does not depend on the rest of it. -/
lemma decrypt_take (k : ℕ) :
    (x.decrypt mix cipher (cs.take k)).1 = (x.decrypt mix cipher cs).1.take k := by
  induction cs generalizing x k with
  | nil => rw [List.take_nil, decrypt, List.take_nil]
  | cons c cs ih =>
    cases k with
    | zero => rfl
    | succ k => rw [List.take_succ_cons, decrypt, ih, decrypt, List.take_succ_cons]

/-- Each element is one place. -/
lemma num_encrypt : (x.encrypt mix cipher ps).2.num = (x.num + ps.length) % n := by
  induction ps generalizing x with
  | nil => exact (Nat.mod_eq_of_lt x.num_lt).symm
  | cons p ps ih =>
    rw [encrypt, ih, feed, List.length_cons, Nat.mod_add_mod, Nat.add_assoc, Nat.add_comm 1]

/-- Of the first of a ciphertext comes the first of the text. -/
lemma decrypt_of_isPrefix (hmix : ∀ a b, mix (mix a b) b = a)
    (h : cs <+: (x.encrypt mix cipher ps).1) :
    (x.decrypt mix cipher cs).1 = ps.take cs.length := by
  have htake := List.prefix_iff_eq_take.mp h
  calc (x.decrypt mix cipher cs).1
      = (x.decrypt mix cipher ((x.encrypt mix cipher ps).1.take cs.length)).1 := by rw [← htake]
    _ = ps.take cs.length := by rw [decrypt_take, decrypt_encrypt hmix]

end Feedback

end OldPart
