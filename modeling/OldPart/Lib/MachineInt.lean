import Mathlib.Data.List.Basic
import Mathlib.Tactic.Ring

/-!
# Thirty-two bit arithmetic and its bytes

Two's complement wrapping of an integer to 32 bits, and the four little-endian bytes of a
32-bit word.  Sums of in-range operands are read through `wrap32`, so that a definition
which compares such a sum says what it does when the sum leaves the range.
-/

namespace OldPart

/-- The 32-bit two's complement integer congruent to `x`. -/
def wrap32 (x : ℤ) : ℤ := (x + 2 ^ 31) % 2 ^ 32 - 2 ^ 31

lemma wrap32_of_lt {x : ℤ} (hlo : -2 ^ 31 ≤ x) (hhi : x < 2 ^ 31) : wrap32 x = x := by
  unfold wrap32
  omega

lemma wrap32_natCast {n : ℕ} (h : n < 2 ^ 31) : wrap32 n = n :=
  wrap32_of_lt (by omega) (by omega)

lemma wrap32_lt (x : ℤ) : wrap32 x < 2 ^ 31 := by
  unfold wrap32
  omega

/-- A sum of two in-range values that overflows comes out negative. -/
lemma wrap32_neg_of_le {x : ℤ} (hlo : 2 ^ 31 ≤ x) (hhi : x < 2 ^ 32) : wrap32 x < 0 := by
  unfold wrap32
  omega

lemma bmod_eq_wrap32 (x : ℤ) : x.bmod Int32.size = wrap32 x := by
  have hsize : ((Int32.size : ℕ) : ℤ) = 2 ^ 32 := rfl
  rw [Int.bmod_def, wrap32, hsize]
  split <;> omega

/-- A number in `int32_t`. -/
lemma toInt_ofNat_eq_wrap32 (n : ℕ) : (Int32.ofNat n).toInt = wrap32 n := by
  rw [Int32.toInt_ofNat', bmod_eq_wrap32]

lemma toInt_ofInt_eq_wrap32 (x : ℤ) : (Int32.ofInt x).toInt = wrap32 x := by
  rw [Int32.toInt_ofInt, bmod_eq_wrap32]

/-- An `int32_t` as an `unsigned int`. -/
lemma toNat_toUInt32 (x : Int32) : (x.toUInt32.toNat : ℤ) = x.toInt % 2 ^ 32 := by
  have hint : x.toInt = x.toBitVec.toInt := rfl
  have hnat : x.toUInt32.toNat = x.toBitVec.toNat := rfl
  have hlt := x.toBitVec.isLt
  rw [hint, hnat, BitVec.toInt_eq_toNat_cond]
  split <;> omega

/-- A length that fits `int`, as an `unsigned int`. -/
lemma toNat_uint32_ofNat {n : ℕ} (hn : n < 2 ^ 31) : (UInt32.ofNat n).toNat = n := by
  have hword : UInt32.size = 2 ^ 32 := rfl
  exact UInt32.toNat_ofNat_of_lt' (by omega)

/-- Such lengths are compared as they are. -/
lemma uint32_ofNat_lt_ofNat {m n : ℕ} (hm : m < 2 ^ 31) (hn : n < 2 ^ 31) :
    UInt32.ofNat m < UInt32.ofNat n ↔ m < n := by
  rw [UInt32.lt_iff_toNat_lt, toNat_uint32_ofNat hm, toNat_uint32_ofNat hn]

/-- A step that does not leave `int32_t`. -/
lemma toNatClampNeg_add_one {x : Int32} (hx : 0 ≤ x) (hnext : 0 ≤ x + 1) :
    (x + 1).toNatClampNeg = x.toNatClampNeg + 1 := by
  have hlt := x.toInt_lt
  rw [Int32.le_iff_toInt_le, Int32.toInt_zero] at hx hnext
  rw [Int32.toInt_add, Int32.toInt_one] at hnext
  have hfits : x.toInt + 1 < 2 ^ 31 := by
    by_contra hfull
    have htop : x.toInt + 1 = 2 ^ 31 := by omega
    rw [htop] at hnext
    exact absurd hnext (by decide)
  rw [← Int32.toNat_toInt, ← Int32.toNat_toInt, Int32.toInt_add, Int32.toInt_one,
    Int.bmod_eq_of_le (by omega) (by omega)]
  omega

lemma ofNat_pos {n : ℕ} (hn : n < 2 ^ 31) : (0 : Int32) < .ofNat n ↔ 0 < n := by
  rw [← Int32.toNatClampNeg_pos_iff, Int32.toNatClampNeg_ofNat_of_lt hn]

/-- The four bytes of a word, least significant first. -/
def le32 (n : ℕ) : List UInt8 :=
  [UInt8.ofNat n, UInt8.ofNat (n / 2 ^ 8), UInt8.ofNat (n / 2 ^ 16), UInt8.ofNat (n / 2 ^ 24)]

/-- The signed 32-bit integer whose four bytes, least significant first, open the list. -/
def ofLe32 : List UInt8 → ℤ
  | b₀ :: b₁ :: b₂ :: b₃ :: _ =>
      wrap32 (b₀.toNat + 2 ^ 8 * b₁.toNat + 2 ^ 16 * b₂.toNat + 2 ^ 24 * b₃.toNat)
  | _ => 0

@[simp] lemma length_le32 (n : ℕ) : (le32 n).length = 4 := rfl

lemma ofLe32_le32 {n : ℕ} (h : n < 2 ^ 31) : ofLe32 (le32 n) = n := by
  have hsum : (UInt8.ofNat n).toNat + 2 ^ 8 * (UInt8.ofNat (n / 2 ^ 8)).toNat
      + 2 ^ 16 * (UInt8.ofNat (n / 2 ^ 16)).toNat
      + 2 ^ 24 * (UInt8.ofNat (n / 2 ^ 24)).toNat = n := by
    simp only [UInt8.toNat_ofNat']
    omega
  rw [le32, ofLe32]
  rw [← wrap32_natCast h]
  congr 1
  exact_mod_cast hsum

lemma ofLe32_lt (bs : List UInt8) : ofLe32 bs < 2 ^ 31 := by
  unfold ofLe32
  split
  · exact wrap32_lt _
  · decide

end OldPart
