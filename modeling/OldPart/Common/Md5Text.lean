import Mathlib.Data.List.OfFn
import Mathlib.Tactic.Common
import OldPart.Common.Md5

/-!
# Digests as text

`ToString` writes two digits for each byte, and the constructor from a string reads them two by two
again.  The array it copies them to is not terminated behind them, and `_httoi` reads digits for as
long as there are some.
-/

namespace OldPart

namespace MD5

/-! ## Two digits -/

/-- Every digit is in the map. -/
lemma lookup_hexDigit : ∀ n < 16, hexMap.lookup (hexDigit n) = some (.ofNat n) := by decide

lemma hexDigit_ne : ∀ n < 16, hexDigit n ≠ 88 := by decide

/-- What two digits come to. -/
lemma two_digits : ∀ high < 16, ∀ low < 16,
    ((0 : UInt32) ||| .ofNat high) <<< 4 ||| .ofNat low = .ofNat (16 * high + low) := by
  decide +kernel

/-- The loop goes on behind the two digits of a byte. -/
lemma httoi_hexDigits (b : UInt8) (behind : List UInt8) :
    httoi (hexDigits b ++ behind) = httoiLoop false b.toUInt32 behind := by
  have hlt := b.toNat_lt
  have hhigh := lookup_hexDigit (b.toNat / 16) (by omega)
  have hlow := lookup_hexDigit (b.toNat % 16) (by omega)
  have hplain : ¬(hexDigits b ++ behind).take 2 = [48, 88] := by
    have hne := hexDigit_ne (b.toNat % 16) (by omega)
    simp [hexDigits, hne]
  have hvalue : ((0 : UInt32) ||| .ofNat (b.toNat / 16)) <<< 4 ||| .ofNat (b.toNat % 16) =
      b.toUInt32 := by
    rw [two_digits (b.toNat / 16) (by omega) (b.toNat % 16) (by omega), Nat.div_add_mod]
    exact UInt32.toNat_inj.mp (by simp)
  rw [httoi, if_neg hplain, hexDigits, List.cons_append, List.cons_append, httoiLoop, hhigh]
  dsimp only
  rw [httoiLoop, hlow]
  dsimp only
  rw [List.nil_append, if_pos rfl, if_neg (by decide), hvalue]

/-- Of what the digits came to before, the loop leaves the lower byte to depend on the lower
byte. -/
lemma toUInt8_httoiLoop {result result' : UInt32} (h : result.toUInt8 = result'.toUInt8)
    (s : List UInt8) :
    (httoiLoop false result s).toUInt8 = (httoiLoop false result' s).toUInt8 := by
  induction s generalizing result result' with
  | nil => exact h
  | cons c s ih =>
    rw [httoiLoop, httoiLoop]
    cases hexMap.lookup c with
    | none => exact h
    | some value =>
      refine ih ?_
      rw [if_neg (by decide), if_neg (by decide), UInt32.toUInt8_or, UInt32.toUInt8_or,
        UInt32.toUInt8_shiftLeft _ _ (by decide), UInt32.toUInt8_shiftLeft _ _ (by decide), h]

/-! ## All digits -/

section RoundTrip

variable (uninitialised : MD5) (behind : ℕ → List UInt8)

lemma length_bytes (m : MD5) : m.bytes.length = 16 := by
  rw [bytes, List.length_take, List.Vector.toList_length]
  rfl

lemma bytes_write (m : MD5) (digest : List.Vector UInt8 16) :
    (m.write digest).bytes = digest.toList :=
  List.take_left' digest.toList_length

/-- The two digits at an even place. -/
lemma take_drop_flatMap (bs : List UInt8) {j : ℕ} (hj : j < bs.length) :
    ((bs.flatMap hexDigits).drop (2 * j)).take 2 = hexDigits bs[j] := by
  induction bs generalizing j with
  | nil => exact absurd hj (Nat.not_lt_zero j)
  | cons b bs ih =>
    cases j with
    | zero => rfl
    | succ j => exact ih (Nat.lt_of_succ_lt_succ hj)

/-- What is read of a digest that has been written. -/
lemma bytes_ofString_toString (m : MD5) : (ofString uninitialised behind m.toString).bytes =
    List.ofFn fun j : Fin 16 => (httoiLoop false
      (m.bytes.get (j.cast (length_bytes m).symm)).toUInt32 (behind j)).toUInt8 := by
  have hne : m.toString ≠ [] := by
    intro hnil
    have hlen := congrArg List.length hnil
    rw [toString, List.length_flatMap] at hlen
    simp [hexDigits, length_bytes] at hlen
  rw [ofString, if_neg hne, bytes_write, List.Vector.toList_ofFn]
  congr 1
  funext j
  have hj : (j : ℕ) < m.bytes.length := by rw [length_bytes]; exact j.isLt
  rw [toString, take_drop_flatMap m.bytes hj, httoi_hexDigits]
  rfl

/-- What `operator ==` says of it. -/
lemma equal_ofString_iff (m : MD5) : (ofString uninitialised behind m.toString).equal m = true ↔
    ∀ j : Fin 16, (httoiLoop false (m.bytes.get (j.cast (length_bytes m).symm)).toUInt32
      (behind j)).toUInt8 = m.bytes.get (j.cast (length_bytes m).symm) := by
  have hget : m.bytes = List.ofFn fun j : Fin 16 =>
      m.bytes.get (j.cast (length_bytes m).symm) := by
    conv_lhs => rw [← List.ofFn_get m.bytes]
    exact List.ofFn_congr (length_bytes m) _
  rw [equal, decide_eq_true_iff, bytes_ofString_toString]
  conv_lhs => lhs; rw [hget]
  rw [List.ofFn_injective.eq_iff, funext_iff]
  exact forall_congr' fun j => eq_comm

/-- A digest of zeros but for one byte. -/
def single (j : Fin 16) (b : UInt8) : MD5 :=
  ⟨List.Vector.ofFn fun i : Fin 32 => if i.val = j.val then b else 0⟩

lemma get_bytes_single (j : Fin 16) (b : UInt8) :
    (single j b).bytes.get (j.cast (length_bytes _).symm) = b := by
  simp only [single, bytes, List.Vector.toList_ofFn, List.get_eq_getElem, List.getElem_take,
    List.getElem_ofFn]
  exact if_pos rfl

/-- Every digest is read as it was written exactly when no digit stands behind the two that are
copied to the array. -/
theorem equal_ofString_toString_iff :
    (∀ m : MD5, (ofString uninitialised behind m.toString).equal m = true) ↔
      ∀ j < 16, ∀ c ∈ (behind j).head?, hexMap.lookup c = none := by
  constructor
  · intro h j hj c hc
    by_contra hdigit
    obtain ⟨value, hvalue⟩ := Option.ne_none_iff_exists'.mp hdigit
    obtain ⟨s, hs⟩ : ∃ s, behind j = c :: s := List.head?_eq_some_iff.mp hc
    have hread : ∀ b : UInt8, (httoiLoop false (b.toUInt32 <<< 4 ||| value) s).toUInt8 = b := by
      intro b
      have hbyte := (equal_ofString_iff uninitialised behind _).mp (h (single ⟨j, hj⟩ b)) ⟨j, hj⟩
      rw [get_bytes_single, hs, httoiLoop, hvalue] at hbyte
      exact hbyte
    -- two bytes with the same lower digit are read alike
    have hsame : ((0 : UInt8).toUInt32 <<< 4 ||| value).toUInt8 =
        ((0x10 : UInt8).toUInt32 <<< 4 ||| value).toUInt8 := by
      rw [UInt32.toUInt8_or, UInt32.toUInt8_or]
      rfl
    have hzero := hread 0
    rw [toUInt8_httoiLoop hsame, hread] at hzero
    exact absurd hzero (by decide)
  · intro h m
    refine (equal_ofString_iff uninitialised behind m).mpr fun j => ?_
    cases hbehind : behind j with
    | nil => simp [httoiLoop]
    | cons c s =>
      have hnone := h j j.isLt c (by rw [hbehind]; rfl)
      rw [httoiLoop, hnone]
      simp

end RoundTrip

end MD5

end OldPart
