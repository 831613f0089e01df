import OldPart.Lib.Cfb
import Mathlib.Data.List.TakeWhile

/-!
# `BlowFishEncrypt`

The ciphertext is taken from an array of 100 bytes as a string that ends at the first zero, and
what is returned is where the last block ended.
-/

namespace OldPart

/-- A block of Blowfish. -/
abbrev BfBlock := List.Vector UInt8 8

/-- The `ivec` and the `nNum` that `BF_cfb64_encrypt` begins with. -/
def zeroFeedback : Feedback UInt8 8 := ⟨List.Vector.replicate 8 0, 0, by decide⟩

section BlowFish

-- Blowfish under a key, which is not code of this repository
variable (blowfish : List UInt8 → BfBlock → BfBlock)

/-- `BF_cfb64_encrypt(in, out, length, schedule, ivec, num, BF_ENCRYPT)`. -/
def bfCfb64Encrypt (key input : List UInt8) : List UInt8 × Feedback UInt8 8 :=
  zeroFeedback.encrypt (· ^^^ ·) (blowfish key) input

/-- `BF_cfb64_encrypt(in, out, length, schedule, ivec, num, BF_DECRYPT)`. -/
def bfCfb64Decrypt (key input : List UInt8) : List UInt8 :=
  (zeroFeedback.decrypt (· ^^^ ·) (blowfish key) input).1

/-- The size of `po_pszDataEncrypt`. -/
abbrev dataEncryptLen : ℕ := 100

/-- `BlowFishEncrypt`: what it returns and the ciphertext, or `none` when `po_pszDataEncrypt` is
written or read behind its end. -/
def blowFishEncrypt (key plaintext : List UInt8) : Option (Bool × List UInt8) :=
  let (output, feedback) := bfCfb64Encrypt blowfish key plaintext
  if plaintext.length ≤ dataEncryptLen then
    let poPszDataEncrypt := output ++ List.replicate (dataEncryptLen - output.length) 0
    if 0 ∈ poPszDataEncrypt then
      some (feedback.num ≠ 0, poPszDataEncrypt.takeWhile (· ≠ 0))
    else none
  else none

variable {blowfish} {key plaintext ciphertext : List UInt8} {returned : Bool}

/-- The last block is full after whole blocks. -/
lemma num_bfCfb64Encrypt :
    (bfCfb64Encrypt blowfish key plaintext).2.num = 0 ↔ 8 ∣ plaintext.length := by
  rw [bfCfb64Encrypt, Feedback.num_encrypt, Nat.dvd_iff_mod_eq_zero]
  show (0 + plaintext.length) % 8 = 0 ↔ _
  rw [Nat.zero_add]

/-- Zeros behind a list are not in what comes before the first of them. -/
lemma takeWhile_append_replicate_zero (bs : List UInt8) (k : ℕ) :
    (bs ++ List.replicate k 0).takeWhile (· ≠ 0) = bs.takeWhile (· ≠ 0) := by
  rw [List.takeWhile_append]
  split
  · next hall =>
    have hnone : (List.replicate k (0 : UInt8)).takeWhile (· ≠ 0) = [] := by cases k <;> rfl
    rw [hnone, List.append_nil]
    exact ((List.takeWhile_prefix _).eq_of_length hall).symm
  · rfl

/-- There is a zero in the array, unless it is full of other bytes. -/
lemma zero_mem_array_iff {bs : List UInt8} :
    0 ∈ bs ++ List.replicate (dataEncryptLen - bs.length) 0 ↔
      bs.length < dataEncryptLen ∨ 0 ∈ bs := by
  rw [List.mem_append, List.mem_replicate, or_comm, Nat.sub_ne_zero_iff_lt,
    and_iff_left rfl]

lemma blowFishEncrypt_eq_some_iff : blowFishEncrypt blowfish key plaintext =
      some (returned, ciphertext) ↔
    (plaintext.length < dataEncryptLen ∨ plaintext.length = dataEncryptLen ∧
      0 ∈ (bfCfb64Encrypt blowfish key plaintext).1) ∧
    decide ((bfCfb64Encrypt blowfish key plaintext).2.num ≠ 0) = returned ∧
    (bfCfb64Encrypt blowfish key plaintext).1.takeWhile (· ≠ 0) = ciphertext := by
  have hlength : (bfCfb64Encrypt blowfish key plaintext).1.length = plaintext.length :=
    Feedback.length_encrypt
  rw [blowFishEncrypt]
  dsimp only
  rw [Option.ite_none_right_eq_some, Option.ite_none_right_eq_some, Option.some_inj, Prod.mk.injEq,
    takeWhile_append_replicate_zero, ← and_assoc]
  refine and_congr_left fun _ => ?_
  constructor
  · rintro ⟨hle, hzero⟩
    have hmem := zero_mem_array_iff.mp hzero
    rw [hlength] at hmem
    exact hmem.elim Or.inl fun hzero => hle.lt_or_eq.imp_right fun heq => ⟨heq, hzero⟩
  · intro h
    have hle : plaintext.length ≤ dataEncryptLen := h.elim Nat.le_of_lt fun heq => heq.1.le
    refine ⟨hle, zero_mem_array_iff.mpr ?_⟩
    rw [hlength]
    exact h.imp_right And.right

/-- All of a list comes before the first zero when there is none. -/
lemma takeWhile_ne_zero_eq_self_iff {bs : List UInt8} : bs.takeWhile (· ≠ 0) = bs ↔ 0 ∉ bs := by
  rw [List.takeWhile_eq_self_iff]
  constructor
  · intro hall hzero
    exact of_decide_eq_true (hall 0 hzero) rfl
  · intro hnot b hb
    exact decide_eq_true fun h => hnot (h ▸ hb)

/-- `BlowFishEncrypt` stays in its array just for plaintexts of fewer than 100 bytes, and for those
of 100 of which a byte becomes zero.  Its ciphertext decrypts to the beginning of the plaintext, and
to all of it just when no byte becomes zero.  What it returns is about neither: whether the length
is no multiple of eight. -/
theorem blowFishEncrypt_comes_back (blowfish : List UInt8 → BfBlock → BfBlock)
    (key plaintext : List UInt8) :
    ((blowFishEncrypt blowfish key plaintext).isSome = true ↔
      plaintext.length < dataEncryptLen ∨ plaintext.length = dataEncryptLen ∧
        0 ∈ (bfCfb64Encrypt blowfish key plaintext).1) ∧
    ∀ returned ciphertext,
      blowFishEncrypt blowfish key plaintext = some (returned, ciphertext) →
        bfCfb64Decrypt blowfish key ciphertext = plaintext.take ciphertext.length ∧
        (bfCfb64Decrypt blowfish key ciphertext = plaintext ↔
          0 ∉ (bfCfb64Encrypt blowfish key plaintext).1) ∧
        (returned = true ↔ ¬8 ∣ plaintext.length) := by
  have hmix : ∀ a b : UInt8, a ^^^ b ^^^ b = a := fun a b => by
    rw [UInt8.xor_assoc, UInt8.xor_self, UInt8.xor_zero]
  have hlength : (bfCfb64Encrypt blowfish key plaintext).1.length = plaintext.length :=
    Feedback.length_encrypt
  refine ⟨?_, fun returned ciphertext hsome => ?_⟩
  · rw [Option.isSome_iff_exists]
    constructor
    · rintro ⟨⟨returned, ciphertext⟩, hsome⟩
      exact (blowFishEncrypt_eq_some_iff.mp hsome).1
    · exact fun h => ⟨(_, _), blowFishEncrypt_eq_some_iff.mpr ⟨h, rfl, rfl⟩⟩
  · obtain ⟨-, rfl, rfl⟩ := blowFishEncrypt_eq_some_iff.mp hsome
    have hpre := List.takeWhile_prefix (l := (bfCfb64Encrypt blowfish key plaintext).1) (· ≠ 0)
    have htake := Feedback.decrypt_of_isPrefix hmix hpre
    refine ⟨htake, ?_, ?_⟩
    · rw [← takeWhile_ne_zero_eq_self_iff, bfCfb64Decrypt, htake, List.take_eq_self_iff, ← hlength]
      exact ⟨hpre.eq_of_length_le, fun heq => (congrArg List.length heq).ge⟩
    · rw [decide_eq_true_iff, Ne, num_bfCfb64Encrypt]

end BlowFish

end OldPart
