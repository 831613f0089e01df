import OldPart.Lib.Cbc
import OldPart.Proto.Buffer

/-!
# `AESEncrypt` and `AESDecrypt`

The buffer overloads, as `EncryptBuf` and `Deserialize` call them.  The block cipher, the
checksum and what `AES_cbc_encrypt` does with a last block of fewer than sixteen bytes are
not code of this repository and stay parameters.
-/

namespace OldPart

/-- `AES_BLOCK_SIZE`. -/
abbrev aesBlockSize : ℕ := 16

/-- A block. -/
abbrev AesBlock := List.Vector UInt8 aesBlockSize

/-- The sixteen bytes that `AES_set_encrypt_key` and `AES_set_decrypt_key` read from
`key.c_str()` on for a key of `AES_BLOCK_SIZE*8` bits, which they never refuse. -/
abbrev AesKey := List.Vector UInt8 16

/-- The functions of OpenSSL and Boost the code rests on. -/
structure Crypto where
  /-- AES under a key. -/
  aes : AesKey → Equiv.Perm AesBlock
  /-- What `AES_cbc_encrypt` leaves, when decrypting `len` bytes of some memory, of a last
  block that is not whole. -/
  cbcTail : AesKey → List UInt8 → (len : ℕ) → List.Vector UInt8 (len % aesBlockSize)
  /-- `boost::crc_32_type`, as `int32_t`. -/
  crc : List UInt8 → Int32

/-- The `iv` of all the overloads. -/
def zeroIv : AesBlock := List.Vector.replicate aesBlockSize 0

/-! ## Padding -/

/-- The `len` of `AESEncrypt`: `plainLen` filled up to whole blocks. -/
def paddedLen (plainLen : ℕ) : ℕ :=
  if plainLen % aesBlockSize = 0 then plainLen else (plainLen / aesBlockSize + 1) * aesBlockSize

lemma le_paddedLen (n : ℕ) : n ≤ paddedLen n := by
  unfold paddedLen aesBlockSize
  split <;> omega

lemma paddedLen_lt (n : ℕ) : paddedLen n < n + aesBlockSize := by
  unfold paddedLen aesBlockSize
  split <;> omega

lemma dvd_paddedLen (n : ℕ) : aesBlockSize ∣ paddedLen n := by
  unfold paddedLen
  split
  · exact Nat.dvd_of_mod_eq_zero ‹_›
  · exact Nat.dvd_mul_left _ _

lemma paddedLen_of_dvd {n : ℕ} (h : aesBlockSize ∣ n) : paddedLen n = n :=
  if_pos (Nat.mod_eq_zero_of_dvd h)

/-- Padding to blocks stays inside a buffer of whole blocks. -/
lemma paddedLen_le {n m : ℕ} (hm : aesBlockSize ∣ m) (hle : n ≤ m) : paddedLen n ≤ m := by
  obtain ⟨k, rfl⟩ := hm
  unfold paddedLen aesBlockSize at *
  split <;> omega

/-! ## The overloads on buffers -/

namespace Crypto

variable (crypto : Crypto)

/-- `AES_cbc_encrypt(in, out, len, &aes, iv, AES_ENCRYPT)`, for whole blocks. -/
def aesCbcEncrypt (key : AesKey) (input : List UInt8) (len : ℕ) : List UInt8 :=
  unblocks (cbcEncrypt xorBlock (crypto.aes key) zeroIv
    (blocks aesBlockSize 0 (len / aesBlockSize) input))

/-- `AES_cbc_encrypt(in, out, len, &aes, iv, AES_DECRYPT)`. -/
def aesCbcDecrypt (key : AesKey) (input : List UInt8) (len : ℕ) : List UInt8 :=
  unblocks (cbcDecrypt xorBlock (crypto.aes key) zeroIv
    (blocks aesBlockSize 0 (len / aesBlockSize) input)) ++ (crypto.cbcTail key input len).toList

def computeChecksum (buf : Buf) : Int32 := crypto.crc buf.bytes

/-- `AESEncrypt`: the ciphertext with its length in `bufLen`, and `padNum`, or `none` when it
returns `false`. -/
def aesEncrypt (key : AesKey) (ciphertext plaintext : Buf) : Except Fault (Option (Buf × Int32)) :=
  let len := paddedLen plaintext.bufLen
  let padNum := len - plaintext.bufLen
  if ciphertext.bufLen < len then .ok none
  else do
    let ciphertext ← ciphertext.copyN 0 (crypto.aesCbcEncrypt key plaintext.buf len)
    return some ({ ciphertext with bufLen := len }, .ofNat padNum)

/-- `AESDecrypt`: what it returns, and the plaintext with its length in `bufLen`. -/
def aesDecrypt (key : AesKey) (decrypttext ciphertext : Buf) (padNum : Int32) :
    Except Fault (Bool × Buf) :=
  let len := UInt32.ofNat ciphertext.bufLen
  -- `len - padNum` is computed and compared as `unsigned int`
  if UInt32.ofNat decrypttext.bufLen < len - padNum.toUInt32 then .ok (false, decrypttext)
  else do
    let decrypttext ← decrypttext.copyN 0 (crypto.aesCbcDecrypt key ciphertext.buf len.toNat)
    return (true, { decrypttext with bufLen := (len - padNum.toUInt32).toNat })

/-! ## Decrypting what was encrypted -/

section RoundTrip

variable (key : AesKey) {n : ℕ}

lemma length_aesCbcEncrypt (input : List UInt8) (hn : aesBlockSize ∣ n) :
    (crypto.aesCbcEncrypt key input n).length = n := by
  rw [aesCbcEncrypt, length_unblocks, length_cbcEncrypt, length_blocks, Nat.mul_div_cancel' hn]

/-- What is missing behind the input is read as zeros. -/
lemma aesCbcEncrypt_append_zeros (input : List UInt8) (m len : ℕ) :
    crypto.aesCbcEncrypt key (input ++ List.replicate m 0) len =
      crypto.aesCbcEncrypt key input len := by
  rw [aesCbcEncrypt, aesCbcEncrypt, blocks_append_replicate]

/-- CBC decryption gets back whole blocks, whatever lies behind the ciphertext. -/
lemma aesCbcDecrypt_aesCbcEncrypt {input : List UInt8} (hn : aesBlockSize ∣ n)
    (hlen : n ≤ input.length) (behind : List UInt8) :
    crypto.aesCbcDecrypt key (crypto.aesCbcEncrypt key input n ++ behind) n = input.take n := by
  have hcount : (cbcEncrypt xorBlock (crypto.aes key) zeroIv
      (blocks aesBlockSize 0 (n / aesBlockSize) input)).length = n / aesBlockSize := by
    rw [length_cbcEncrypt, length_blocks]
  have hblocks := blocks_unblocks_append 0 (cbcEncrypt xorBlock (crypto.aes key) zeroIv
      (blocks aesBlockSize 0 (n / aesBlockSize) input)) behind
  rw [hcount] at hblocks
  have htail : (crypto.cbcTail key (crypto.aesCbcEncrypt key input n ++ behind) n).toList = [] := by
    apply List.eq_nil_of_length_eq_zero
    rw [List.Vector.toList_length]
    exact Nat.mod_eq_zero_of_dvd hn
  rw [aesCbcDecrypt, htail, List.append_nil, aesCbcEncrypt, hblocks,
    cbcDecrypt_cbcEncrypt _ xorBlock_xorBlock]
  have hmul : aesBlockSize * (n / aesBlockSize) = n := Nat.mul_div_cancel' hn
  rw [unblocks_blocks 0 (by rw [hmul]; exact hlen), hmul]

end RoundTrip

section Buffers

variable (key : AesKey)

/-- `AESEncrypt` into a buffer that is large enough. -/
lemma aesEncrypt_spec {ciphertext plaintext : Buf}
    (hlen : ciphertext.bufLen = ciphertext.buf.length)
    (hroom : paddedLen plaintext.bufLen ≤ ciphertext.bufLen) :
    ∃ behind, crypto.aesEncrypt key ciphertext plaintext = .ok (some
      (⟨crypto.aesCbcEncrypt key plaintext.buf (paddedLen plaintext.bufLen) ++ behind,
        paddedLen plaintext.bufLen⟩,
      .ofNat (paddedLen plaintext.bufLen - plaintext.bufLen))) ∧
      behind.length = ciphertext.bufLen - paddedLen plaintext.bufLen := by
  have hcbc := crypto.length_aesCbcEncrypt key plaintext.buf (dvd_paddedLen plaintext.bufLen)
  have hkeep : ¬ciphertext.bufLen < paddedLen plaintext.bufLen := by omega
  refine ⟨ciphertext.buf.drop (paddedLen plaintext.bufLen), ?_, ?_⟩
  · simp only [aesEncrypt, if_neg hkeep]
    rw [Buf.copyN_zero (by omega), hcbc]
    rfl
  · rw [List.length_drop, hlen]

/-- `len - padNum` is the length that has been padded. -/
lemma ofNat_sub_padNum (n : ℕ) :
    UInt32.ofNat (paddedLen n) - (Int32.ofNat (paddedLen n - n)).toUInt32 = UInt32.ofNat n := by
  have hle := le_paddedLen n
  rw [Int32.toUInt32_ofNat', ← UInt32.ofNat_sub (Nat.sub_le _ _)]
  congr 1
  omega

/-- `AESDecrypt` of what `AESEncrypt` made, into a buffer that is large enough. -/
lemma aesDecrypt_spec {decrypttext : Buf} (plain behind : List UInt8) {n : ℕ}
    (hlen : decrypttext.bufLen ≤ decrypttext.buf.length) (hsize : decrypttext.bufLen < 2 ^ 31)
    (hroom : paddedLen n ≤ decrypttext.bufLen) (hplain : paddedLen n ≤ plain.length) :
    ∃ plaintext, crypto.aesDecrypt key decrypttext
        ⟨crypto.aesCbcEncrypt key plain (paddedLen n) ++ behind, paddedLen n⟩
        (.ofNat (paddedLen n - n)) = .ok (true, plaintext) ∧
      plaintext.bytes = plain.take n := by
  have hle := le_paddedLen n
  have hround := crypto.aesCbcDecrypt_aesCbcEncrypt key (dvd_paddedLen n)
    hplain behind
  have hn : (UInt32.ofNat n).toNat = n := toNat_uint32_ofNat (by omega)
  have hnat : (UInt32.ofNat (paddedLen n)).toNat = paddedLen n := toNat_uint32_ofNat (by omega)
  have hkeep : ¬UInt32.ofNat decrypttext.bufLen < UInt32.ofNat n := by
    rw [uint32_ofNat_lt_ofNat hsize (by omega)]
    omega
  have hcopy : (plain.take (paddedLen n)).length ≤ decrypttext.buf.length := by
    rw [List.length_take]
    omega
  have hfront : n ≤ (plain.take (paddedLen n)).length := by
    rw [List.length_take]
    omega
  refine ⟨⟨plain.take (paddedLen n) ++
    decrypttext.buf.drop (plain.take (paddedLen n)).length, n⟩, ?_, ?_⟩
  · simp only [aesDecrypt, ofNat_sub_padNum, if_neg hkeep, hnat, hround, Buf.copyN_zero hcopy,
      ok_bind, hn]
    rfl
  · rw [Buf.bytes, List.take_append_of_le_length hfront, List.take_take, Nat.min_eq_left hle]

end Buffers

end Crypto

end OldPart
