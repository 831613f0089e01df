import Mathlib.Data.Vector.Zip
import Mathlib.Logic.Equiv.Defs

/-!
# Cipher block chaining

A list of bytes in blocks of a fixed size, and the chaining mode over a permutation of
blocks.  Chaining needs nothing of how blocks are mixed but that mixing twice with the same
block does nothing.
-/

namespace OldPart

/-! ## Blocks -/

section Blocks

variable {α : Type*} (n : ℕ) (d : α)

/-- The first `n` elements of a list, filled up with `d` where there are fewer. -/
def firstBlock (bs : List α) : List.Vector α n :=
  ⟨(bs ++ List.replicate n d).take n, by simp⟩

/-- The first `k` blocks of `n` elements of a list. -/
def blocks : ℕ → List α → List (List.Vector α n)
  | 0, _ => []
  | k + 1, bs => firstBlock n d bs :: blocks k (bs.drop n)

variable {n}

/-- The elements of a list of blocks. -/
def unblocks (vs : List (List.Vector α n)) : List α := vs.flatMap List.Vector.toList

@[simp] lemma unblocks_nil : unblocks ([] : List (List.Vector α n)) = [] := rfl

@[simp] lemma unblocks_cons (v : List.Vector α n) (vs : List (List.Vector α n)) :
    unblocks (v :: vs) = v.toList ++ unblocks vs := rfl

@[simp] lemma length_unblocks (vs : List (List.Vector α n)) :
    (unblocks vs).length = n * vs.length := by
  induction vs with
  | nil => rfl
  | cons v vs ih => simp [ih, Nat.mul_succ, Nat.add_comm]

@[simp] lemma length_blocks (k : ℕ) (bs : List α) : (blocks n d k bs).length = k := by
  induction k generalizing bs with
  | zero => rfl
  | succ k ih => simp [blocks, ih]

lemma toList_firstBlock {bs : List α} (h : n ≤ bs.length) :
    (firstBlock n d bs).toList = bs.take n :=
  List.take_append_of_le_length h

lemma firstBlock_toList_append (v : List.Vector α n) (bs : List α) :
    firstBlock n d (v.toList ++ bs) = v := by
  apply List.Vector.eq
  rw [toList_firstBlock d (by simp)]
  exact List.take_left' v.toList_length

/-- What is missing in the last block may as well be there. -/
lemma blocks_append_replicate (k m : ℕ) (bs : List α) :
    blocks n d k (bs ++ List.replicate m d) = blocks n d k bs := by
  induction k generalizing m bs with
  | zero => rfl
  | succ k ih =>
    have hfirst : firstBlock n d (bs ++ List.replicate m d) = firstBlock n d bs := by
      apply List.Vector.eq
      show (bs ++ List.replicate m d ++ List.replicate n d).take n =
        (bs ++ List.replicate n d).take n
      rw [List.append_assoc, List.replicate_append_replicate, Nat.add_comm,
        ← List.replicate_append_replicate, ← List.append_assoc]
      apply List.take_append_of_le_length
      simp
    rw [blocks, blocks, hfirst, List.drop_append, List.drop_replicate, ih]

/-- Blocks that are there are the elements that are there. -/
lemma unblocks_blocks {k : ℕ} {bs : List α} (h : n * k ≤ bs.length) :
    unblocks (blocks n d k bs) = bs.take (n * k) := by
  induction k generalizing bs with
  | zero => simp [blocks]
  | succ k ih =>
    rw [Nat.mul_succ] at h
    have hrest : n * k ≤ (bs.drop n).length := by
      rw [List.length_drop]
      omega
    rw [blocks, unblocks_cons, toList_firstBlock d (by omega), ih hrest, Nat.mul_succ,
      Nat.add_comm (n * k), List.take_add]

/-- Cutting a list of blocks into blocks gives them back, whatever comes behind them. -/
lemma blocks_unblocks_append (vs : List (List.Vector α n)) (bs : List α) :
    blocks n d vs.length (unblocks vs ++ bs) = vs := by
  induction vs with
  | nil => rfl
  | cons v vs ih =>
    rw [unblocks_cons, List.append_assoc, List.length_cons, blocks, firstBlock_toList_append,
      List.drop_left' v.toList_length, ih]

lemma unblocks_append (vs ws : List (List.Vector α n)) :
    unblocks (vs ++ ws) = unblocks vs ++ unblocks ws := List.flatMap_append

include d in
/-- Lists of blocks with the same elements are the same. -/
lemma unblocks_injective {vs ws : List (List.Vector α n)} (hlen : vs.length = ws.length)
    (h : unblocks vs = unblocks ws) : vs = ws := by
  rw [← blocks_unblocks_append d vs [], h, hlen, blocks_unblocks_append]

end Blocks

/-! ## Chaining -/

section Chaining

variable {B : Type*} (mix : B → B → B) (perm : Equiv.Perm B)

/-- Every block is mixed with the ciphertext block before it, the first with `iv`. -/
def cbcEncrypt : B → List B → List B
  | _, [] => []
  | iv, p :: ps => perm (mix p iv) :: cbcEncrypt (perm (mix p iv)) ps

/-- The inverse of `cbcEncrypt`. -/
def cbcDecrypt : B → List B → List B
  | _, [] => []
  | iv, c :: cs => mix (perm.symm c) iv :: cbcDecrypt c cs

@[simp] lemma length_cbcEncrypt (iv : B) (ps : List B) :
    (cbcEncrypt mix perm iv ps).length = ps.length := by
  induction ps generalizing iv with
  | nil => rfl
  | cons p ps ih => simp [cbcEncrypt, ih]

@[simp] lemma length_cbcDecrypt (iv : B) (cs : List B) :
    (cbcDecrypt mix perm iv cs).length = cs.length := by
  induction cs generalizing iv with
  | nil => rfl
  | cons c cs ih => simp [cbcDecrypt, ih]

variable {mix}

/-- Decryption with the same `iv` inverts encryption. -/
theorem cbcDecrypt_cbcEncrypt (hmix : ∀ a b, mix (mix a b) b = a) (iv : B) (ps : List B) :
    cbcDecrypt mix perm iv (cbcEncrypt mix perm iv ps) = ps := by
  induction ps generalizing iv with
  | nil => rfl
  | cons p ps ih => rw [cbcEncrypt, cbcDecrypt, Equiv.symm_apply_apply, hmix, ih]

/-- Encryption loses nothing. -/
lemma cbcEncrypt_injective (hmix : ∀ a b, mix (mix a b) b = a) (iv : B) {ps qs : List B}
    (h : cbcEncrypt mix perm iv ps = cbcEncrypt mix perm iv qs) : ps = qs := by
  rw [← cbcDecrypt_cbcEncrypt perm hmix iv ps, h, cbcDecrypt_cbcEncrypt perm hmix]

/-- What comes behind some blocks is decrypted with the last of them for `iv`. -/
lemma cbcDecrypt_append (iv : B) (cs ds : List B) :
    cbcDecrypt mix perm iv (cs ++ ds) =
      cbcDecrypt mix perm iv cs ++ cbcDecrypt mix perm (cs.getLastD iv) ds := by
  induction cs generalizing iv with
  | nil => rfl
  | cons c cs ih => rw [List.cons_append, cbcDecrypt, ih, cbcDecrypt, List.getLastD_cons,
      List.cons_append]

/-- Decryption with another `iv` gets the first block wrong, and no other. -/
lemma cbcDecrypt_cbcEncrypt_cons (hmix : ∀ a b, mix (mix a b) b = a) (iv iv' p : B) (ps : List B) :
    cbcDecrypt mix perm iv' (cbcEncrypt mix perm iv (p :: ps)) = mix (mix p iv) iv' :: ps := by
  rw [cbcEncrypt, cbcDecrypt, Equiv.symm_apply_apply, cbcDecrypt_cbcEncrypt perm hmix]

end Chaining

/-! ## Mixing bytes -/

/-- Bytewise exclusive or. -/
def xorBlock {n : ℕ} (a b : List.Vector UInt8 n) : List.Vector UInt8 n :=
  List.Vector.zipWith (· ^^^ ·) a b

lemma xorBlock_xorBlock {n : ℕ} (a b : List.Vector UInt8 n) : xorBlock (xorBlock a b) b = a := by
  apply List.Vector.ext
  intro i
  have hget : (xorBlock (xorBlock a b) b).get i = a.get i ^^^ b.get i ^^^ b.get i := by
    simp [xorBlock]
  rw [hget, UInt8.xor_assoc, UInt8.xor_self, UInt8.xor_zero]

lemma xorBlock_replicate_zero {n : ℕ} (a : List.Vector UInt8 n) :
    xorBlock a (List.Vector.replicate n 0) = a := by
  apply List.Vector.ext
  intro i
  simp [xorBlock]

/-- Mixing changes nothing only with zeros. -/
lemma xorBlock_eq_left_iff {n : ℕ} (a b : List.Vector UInt8 n) :
    xorBlock a b = a ↔ b = List.Vector.replicate n 0 := by
  constructor
  · intro h
    apply List.Vector.ext
    intro i
    have hi : a.get i ^^^ b.get i = a.get i := by
      rw [← List.Vector.zipWith_get (· ^^^ ·) a b i]
      exact congrArg (fun v => v.get i) h
    rw [List.Vector.get_replicate]
    exact (UInt8.xor_right_inj (a.get i)).mp (hi.trans UInt8.xor_zero.symm)
  · rintro rfl
    exact xorBlock_replicate_zero a

end OldPart
