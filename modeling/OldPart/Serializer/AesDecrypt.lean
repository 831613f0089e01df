import OldPart.Serializer.EncryptRoundTrip

/-!
# What `AESDecrypt` makes of its arguments

`AESDecrypt` decrypts the whole ciphertext, but compares the length of the plaintext with that
of the buffer, in `unsigned int`.  Frames that it lets through need not fit.

Each call of `AESEncrypt` and of `AESDecrypt` starts a chain of its own from an `iv` of zeros.  A
frame is decrypted by itself, and two ciphertexts put together are not the ciphertext of two
plaintexts put together.
-/

namespace OldPart

namespace Crypto

/-- Decryption writes as many bytes as it is given. -/
lemma length_aesCbcDecrypt (crypto : Crypto) (key : AesKey) (input : List UInt8) (n : ℕ) :
    (crypto.aesCbcDecrypt key input n).length = n := by
  rw [aesCbcDecrypt, List.length_append, length_unblocks, length_cbcDecrypt, length_blocks,
    List.Vector.toList_length, Nat.div_add_mod]

end Crypto

/-! ## Frames that are too long -/

/-- Whenever `AESDecrypt` does not refuse a received frame, what it decrypts fits the buffer of
`Deserialize`, and the plaintext is no longer than that. -/
def StaysInside (u : Setup) (key : AesKey) (i : ℕ) (m : OMessage) : Prop :=
  u.crypto.aesDecrypt key (u.env.makeBuffer .decrypt i) m.body m.encryptPadNum.toInt32 ≠
      .ok (false, u.env.makeBuffer .decrypt i) →
    ∃ plain, u.crypto.aesDecrypt key (u.env.makeBuffer .decrypt i) m.body
        m.encryptPadNum.toInt32 = .ok (true, plain) ∧
      m.body.bufLen ≤ u.env.maxBody ∧ plain.bufLen ≤ m.body.bufLen

/-- A body of `n` bytes with a padding of `pad`: the padding is not negative, unless the sum does
not fit a buffer, and the body is not longer than a buffer by at most the padding. -/
def PadFits (maxBody n : ℕ) (pad : ℤ) : Prop :=
  (0 ≤ pad ∨ maxBody < n - pad) ∧ (n ≤ maxBody ∨ maxBody + pad < n ∨ n < pad)

/-- `len - padNum`, in `unsigned int`. -/
lemma toNat_sub_padNum {n : ℕ} (hn : n < 2 ^ 31) (pad : Int8) :
    ((UInt32.ofNat n - pad.toInt32.toUInt32).toNat : ℤ) = (n - pad.toInt) % 2 ^ 32 := by
  have hlen := toNat_uint32_ofNat hn
  have hpad := toNat_toUInt32 pad.toInt32
  have hlt := pad.toInt32.toUInt32.toNat_lt
  rw [Int8.toInt_toInt32] at hpad
  rw [UInt32.toNat_sub, hlen]
  omega

/-- What `AESDecrypt` does with a received frame. -/
lemma aesDecrypt_frame (u : Setup) (key : AesKey) (i : ℕ) (m : OMessage) {plainLen : ℕ}
    (hplain : plainLen = (UInt32.ofNat m.body.bufLen - m.encryptPadNum.toInt32.toUInt32).toNat) :
    (u.env.maxBody < plainLen ∧
      u.crypto.aesDecrypt key (u.env.makeBuffer .decrypt i) m.body m.encryptPadNum.toInt32 =
        .ok (false, u.env.makeBuffer .decrypt i)) ∨
    (plainLen ≤ u.env.maxBody ∧ u.env.maxBody < m.body.bufLen ∧
      u.crypto.aesDecrypt key (u.env.makeBuffer .decrypt i) m.body m.encryptPadNum.toInt32 =
        .error .pastBuffer) ∨
    (plainLen ≤ u.env.maxBody ∧ m.body.bufLen ≤ u.env.maxBody ∧
      ∃ plain, u.crypto.aesDecrypt key (u.env.makeBuffer .decrypt i) m.body
        m.encryptPadNum.toInt32 = .ok (true, plain) ∧ plain.bufLen = plainLen) := by
  have hcap := toNat_uint32_ofNat u.env.maxBody_lt
  have hbody : m.body.bufLen < 2 ^ 31 := m.bodyLength.toNatClampNeg_lt
  have hlen := toNat_uint32_ofNat hbody
  by_cases hrefused : UInt32.ofNat u.env.maxBody <
      UInt32.ofNat m.body.bufLen - m.encryptPadNum.toInt32.toUInt32
  · left
    refine ⟨?_, ?_⟩
    · rwa [UInt32.lt_iff_toNat_lt, hcap, ← hplain] at hrefused
    · simp only [Crypto.aesDecrypt, Env.bufLen_makeBuffer]
      exact if_pos hrefused
  · right
    have hle : plainLen ≤ u.env.maxBody := by
      rwa [UInt32.lt_iff_toNat_lt, hcap, ← hplain, Nat.not_lt] at hrefused
    by_cases hroom : m.body.bufLen ≤ u.env.maxBody
    · right
      refine ⟨hle, hroom, ?_⟩
      simp only [Crypto.aesDecrypt, Env.bufLen_makeBuffer, if_neg hrefused, hlen, Buf.copyN,
        Env.length_makeBuffer, Crypto.length_aesCbcDecrypt, Nat.zero_add, if_pos hroom, ← hplain]
      exact ⟨_, rfl, rfl⟩
    · left
      refine ⟨hle, Nat.lt_of_not_le hroom, ?_⟩
      simp only [Crypto.aesDecrypt, Env.bufLen_makeBuffer, if_neg hrefused, hlen, Buf.copyN,
        Env.length_makeBuffer, Crypto.length_aesCbcDecrypt, Nat.zero_add, if_neg hroom]
      rfl

/-- Decryption of a received frame stays within its buffer exactly when the padding is not
negative, or too large a negative one, and the body is not longer than the buffer by at most the
padding. -/
theorem staysInside_iff_padFits (u : Setup) (key : AesKey) (i : ℕ) (m : OMessage) :
    StaysInside u key i m ↔ PadFits u.env.maxBody m.body.bufLen m.encryptPadNum.toInt := by
  have hmax := u.env.maxBody_lt
  have hbody : m.body.bufLen < 2 ^ 31 := m.bodyLength.toNatClampNeg_lt
  have hlo := m.encryptPadNum.le_toInt
  have hhi := m.encryptPadNum.toInt_lt
  have hplain := toNat_sub_padNum hbody m.encryptPadNum
  unfold StaysInside PadFits
  rcases aesDecrypt_frame u key i m rfl with ⟨hlt, hrun⟩ | ⟨hle, hlong, hrun⟩ |
    ⟨hle, hfits, plain, hrun, hlen⟩
  · rw [hrun]
    refine iff_of_true (fun h => (h rfl).elim) ?_
    omega
  · rw [hrun]
    refine iff_of_false (fun h => ?_) ?_
    · obtain ⟨plain, hok, -⟩ := h (by simp)
      cases hok
    · omega
  · rw [hrun]
    constructor
    · intro h
      obtain ⟨plain', hok, -, hshort⟩ := h (by simp)
      obtain ⟨-, rfl⟩ := Prod.mk.inj (Except.ok.inj hok)
      omega
    · intro h _
      exact ⟨plain, rfl, hfits, by omega⟩

/-- A frame of two blocks, of which it says the second is padding. -/
def twoBlocksOnePadding : OMessage :=
  ⟨32, 1, 1, 0, 1, -1, 0, SerializeMethod.encrypt.toInt16, 0, 16, 0, List.replicate 32 0⟩

/-- The plaintext of one block fits a buffer of one block, and two are written. -/
theorem not_staysInside_twoBlocksOnePadding :
    ¬StaysInside (Setup.plain 16 (by decide)) zeroKey 0 twoBlocksOnePadding := by
  intro h
  have hrun : (Setup.plain 16 (by decide)).crypto.aesDecrypt zeroKey
      ((Setup.plain 16 (by decide)).env.makeBuffer .decrypt 0) twoBlocksOnePadding.body
      twoBlocksOnePadding.encryptPadNum.toInt32 = .error .pastBuffer := rfl
  obtain ⟨plain, hok, -⟩ := h (by simp [hrun])
  rw [hrun] at hok
  cases hok

/-! ## Two ciphertexts put together -/

namespace Crypto

variable (crypto : Crypto) (key : AesKey)

/-- The ciphertext of whole blocks, in blocks. -/
def cipherBlocks (plain : List UInt8) : List AesBlock :=
  cbcEncrypt xorBlock (crypto.aes key) zeroIv
    (blocks aesBlockSize 0 (plain.length / aesBlockSize) plain)

/-- The last block of the ciphertext, which is the `iv` when there is none. -/
def lastCipherBlock (plain : List UInt8) : AesBlock :=
  (crypto.cipherBlocks key plain).getLastD zeroIv

/-- The first block of some bytes, mixed with a block. -/
def mixFirst (block : AesBlock) (bs : List UInt8) : List UInt8 :=
  List.zipWith (· ^^^ ·) (bs.take aesBlockSize) block.toList ++ bs.drop aesBlockSize

lemma length_cipherBlocks (plain : List UInt8) :
    (crypto.cipherBlocks key plain).length = plain.length / aesBlockSize := by
  rw [cipherBlocks, length_cbcEncrypt, length_blocks]

lemma aesCbcEncrypt_eq (plain : List UInt8) :
    crypto.aesCbcEncrypt key plain plain.length = unblocks (crypto.cipherBlocks key plain) := rfl

/-- Decrypted with another `iv`, only the first block comes out changed. -/
lemma unblocks_cbcDecrypt_cipherBlocks {plain : List UInt8} (hwhole : aesBlockSize ∣ plain.length)
    (iv : AesBlock) :
    unblocks (cbcDecrypt xorBlock (crypto.aes key) iv (crypto.cipherBlocks key plain)) =
      mixFirst iv plain := by
  obtain ⟨k, hk⟩ := hwhole
  have hdiv : plain.length / aesBlockSize = k := by
    rw [hk]
    exact Nat.mul_div_cancel_left k (by decide)
  rw [cipherBlocks, hdiv]
  cases k with
  | zero =>
    obtain rfl := List.eq_nil_of_length_eq_zero hk
    rfl
  | succ k =>
    rw [Nat.mul_succ] at hk
    have hrest : aesBlockSize * k = (plain.drop aesBlockSize).length := by
      rw [List.length_drop]
      omega
    have hfirst : xorBlock (firstBlock aesBlockSize 0 plain) zeroIv =
        firstBlock aesBlockSize 0 plain := xorBlock_replicate_zero _
    have htake : (firstBlock aesBlockSize 0 plain).toList = plain.take aesBlockSize :=
      toList_firstBlock 0 (by omega)
    rw [blocks, cbcDecrypt_cbcEncrypt_cons _ xorBlock_xorBlock, hfirst, unblocks_cons, mixFirst,
      unblocks_blocks 0 hrest.le, hrest, List.take_length, ← htake]
    rfl

lemma aesCbcDecrypt_unblocks (cs : List AesBlock) :
    crypto.aesCbcDecrypt key (unblocks cs) (aesBlockSize * cs.length) =
      unblocks (cbcDecrypt xorBlock (crypto.aes key) zeroIv cs) := by
  have hblocks := blocks_unblocks_append 0 cs []
  rw [List.append_nil] at hblocks
  have htail : (crypto.cbcTail key (unblocks cs) (aesBlockSize * cs.length)).toList = [] := by
    apply List.eq_nil_of_length_eq_zero
    rw [List.Vector.toList_length]
    exact Nat.mul_mod_right _ _
  rw [aesCbcDecrypt, htail, List.append_nil, Nat.mul_div_cancel_left _ (by decide), hblocks]

/-- Behind the first ciphertext, the chain goes on from its last block. -/
lemma aesCbcDecrypt_append {a b : List UInt8} (ha : aesBlockSize ∣ a.length)
    (hb : aesBlockSize ∣ b.length) :
    crypto.aesCbcDecrypt key
        (crypto.aesCbcEncrypt key a a.length ++ crypto.aesCbcEncrypt key b b.length)
        (a.length + b.length) =
      a ++ mixFirst (crypto.lastCipherBlock key a) b := by
  have hlen : a.length + b.length =
      aesBlockSize * (crypto.cipherBlocks key a ++ crypto.cipherBlocks key b).length := by
    rw [List.length_append, length_cipherBlocks, length_cipherBlocks, Nat.mul_add,
      Nat.mul_div_cancel' ha, Nat.mul_div_cancel' hb]
  have hfirst : unblocks (cbcDecrypt xorBlock (crypto.aes key) zeroIv (crypto.cipherBlocks key a)) =
      a := by
    rw [cipherBlocks, cbcDecrypt_cbcEncrypt _ xorBlock_xorBlock,
      unblocks_blocks 0 (Nat.mul_div_cancel' ha).le, Nat.mul_div_cancel' ha, List.take_length]
  rw [aesCbcEncrypt_eq, aesCbcEncrypt_eq, ← unblocks_append, hlen, aesCbcDecrypt_unblocks,
    cbcDecrypt_append, unblocks_append, hfirst, unblocks_cbcDecrypt_cipherBlocks crypto key hb]
  rfl

/-- The mixing shows, but for zeros. -/
lemma mixFirst_eq_self_iff {block : AesBlock} {bs : List UInt8}
    (hwhole : aesBlockSize ∣ bs.length) :
    mixFirst block bs = bs ↔ bs = [] ∨ block = zeroIv := by
  by_cases hnil : bs = []
  · subst hnil
    exact iff_of_true rfl (Or.inl rfl)
  · have hle : aesBlockSize ≤ bs.length := Nat.le_of_dvd (List.length_pos_of_ne_nil hnil) hwhole
    have htake : (firstBlock aesBlockSize 0 bs).toList = bs.take aesBlockSize :=
      toList_firstBlock 0 hle
    have hmix : mixFirst block bs =
        (xorBlock (firstBlock aesBlockSize 0 bs) block).toList ++ bs.drop aesBlockSize := by
      rw [mixFirst, ← htake]
      rfl
    have hself : (firstBlock aesBlockSize 0 bs).toList ++ bs.drop aesBlockSize = bs := by
      rw [htake, List.take_append_drop]
    rw [or_iff_right hnil, hmix]
    calc _ ↔ (xorBlock (firstBlock aesBlockSize 0 bs) block).toList ++ bs.drop aesBlockSize =
          (firstBlock aesBlockSize 0 bs).toList ++ bs.drop aesBlockSize := by rw [hself]
      _ ↔ xorBlock (firstBlock aesBlockSize 0 bs) block = firstBlock aesBlockSize 0 bs := by
        rw [List.append_left_inj, List.Vector.toList_injective.eq_iff]
      _ ↔ block = zeroIv := xorBlock_eq_left_iff _ _

end Crypto

/-- Room for `n` bytes. -/
structure Buf.HasRoom (b : Buf) (n : ℕ) : Prop where
  bufLen_eq : b.bufLen = b.buf.length
  bufLen_lt : b.bufLen < 2 ^ 31
  le_bufLen : n ≤ b.bufLen

/-- Two strings, encrypted by two calls of `AESEncrypt` and decrypted by one of `AESDecrypt`. -/
def encrypt2Decrypt1 (crypto : Crypto) (key : AesKey) (outEncrypt₁ outEncrypt₂ outDecrypt : Buf)
    (s1 s2 : List UInt8) : Except Fault (Option Buf) := do
  match ← crypto.aesEncrypt key outEncrypt₁ ⟨s1, s1.length⟩,
      ← crypto.aesEncrypt key outEncrypt₂ ⟨s2, s2.length⟩ with
  | some (c₁, _), some (c₂, _) =>
      let (r3, plain) ← crypto.aesDecrypt key outDecrypt
        ⟨c₁.bytes ++ c₂.bytes, c₁.bufLen + c₂.bufLen⟩ 0
      return if r3 then some plain else none
  | _, _ => return none

/-- `AESEncrypt` of whole blocks adds nothing to them. -/
lemma aesEncrypt_of_dvd (crypto : Crypto) (key : AesKey) {plain : List UInt8}
    (hwhole : aesBlockSize ∣ plain.length) {out : Buf} (hout : out.HasRoom plain.length) :
    ∃ c padNum, crypto.aesEncrypt key out ⟨plain, plain.length⟩ = .ok (some (c, padNum)) ∧
      c.bytes = crypto.aesCbcEncrypt key plain plain.length ∧ c.bufLen = plain.length := by
  have hroom : paddedLen (Buf.mk plain plain.length).bufLen ≤ out.bufLen := by
    rw [paddedLen_of_dvd hwhole]
    exact hout.le_bufLen
  obtain ⟨behind, hrun, -⟩ := crypto.aesEncrypt_spec key hout.bufLen_eq hroom
  refine ⟨_, _, hrun, ?_, ?_⟩
  · change (crypto.aesCbcEncrypt key plain (paddedLen plain.length) ++ behind).take
      (paddedLen plain.length) = _
    rw [paddedLen_of_dvd hwhole]
    exact List.take_left' (crypto.length_aesCbcEncrypt key plain hwhole)
  · exact paddedLen_of_dvd hwhole

/-- `AESDecrypt` of whole blocks that are not padded. -/
lemma aesDecrypt_unpadded (crypto : Crypto) (key : AesKey) {cipher : List UInt8} {out : Buf}
    (hout : out.HasRoom cipher.length) :
    ∃ plain, crypto.aesDecrypt key out ⟨cipher, cipher.length⟩ 0 = .ok (true, plain) ∧
      plain.bytes = crypto.aesCbcDecrypt key cipher cipher.length := by
  have hfits : cipher.length < 2 ^ 31 := hout.le_bufLen.trans_lt hout.bufLen_lt
  have hlen := toNat_uint32_ofNat hfits
  have hkeep : ¬UInt32.ofNat out.bufLen < UInt32.ofNat cipher.length := by
    rw [uint32_ofNat_lt_ofNat hout.bufLen_lt hfits]
    exact Nat.not_lt.mpr hout.le_bufLen
  have hcbc := crypto.length_aesCbcDecrypt key cipher cipher.length
  have hcopy : (crypto.aesCbcDecrypt key cipher cipher.length).length ≤ out.buf.length := by
    rw [hcbc, ← hout.bufLen_eq]
    exact hout.le_bufLen
  have hzero : UInt32.ofNat cipher.length - (0 : Int32).toUInt32 = UInt32.ofNat cipher.length := by
    show UInt32.ofNat cipher.length - 0 = UInt32.ofNat cipher.length
    exact UInt32.sub_zero _
  refine ⟨⟨crypto.aesCbcDecrypt key cipher cipher.length ++ out.buf.drop
    (crypto.aesCbcDecrypt key cipher cipher.length).length, cipher.length⟩, ?_, ?_⟩
  · simp only [Crypto.aesDecrypt, hzero, if_neg hkeep, hlen, Buf.copyN_zero hcopy, ok_bind]
    rfl
  · exact List.take_left' hcbc

/-- Decrypted in one go, two ciphertexts give the first plaintext and then the second, with its
first block mixed with the last block of the first ciphertext. -/
theorem encrypt2Decrypt1_eq (crypto : Crypto) (key : AesKey) {a b : List UInt8}
    (ha : aesBlockSize ∣ a.length) (hb : aesBlockSize ∣ b.length)
    {outEncrypt₁ outEncrypt₂ outDecrypt : Buf} (h₁ : outEncrypt₁.HasRoom a.length)
    (h₂ : outEncrypt₂.HasRoom b.length) (h : outDecrypt.HasRoom (a.length + b.length)) :
    ∃ plain, encrypt2Decrypt1 crypto key outEncrypt₁ outEncrypt₂ outDecrypt a b =
        .ok (some plain) ∧
      plain.bytes = a ++ Crypto.mixFirst (crypto.lastCipherBlock key a) b ∧
      (plain.bytes = a ++ b ↔ b = [] ∨ crypto.lastCipherBlock key a = zeroIv) := by
  obtain ⟨c₁, padNum₁, hrun₁, hbytes₁, hlen₁⟩ := aesEncrypt_of_dvd crypto key ha h₁
  obtain ⟨c₂, padNum₂, hrun₂, hbytes₂, hlen₂⟩ := aesEncrypt_of_dvd crypto key hb h₂
  have hlen : (c₁.bytes ++ c₂.bytes).length = a.length + b.length := by
    rw [hbytes₁, hbytes₂, List.length_append, crypto.length_aesCbcEncrypt key a ha,
      crypto.length_aesCbcEncrypt key b hb]
  rw [← hlen] at h
  obtain ⟨plain, hrun, hplain⟩ := aesDecrypt_unpadded crypto key h
  rw [hlen, hbytes₁, hbytes₂, crypto.aesCbcDecrypt_append key ha hb] at hplain
  refine ⟨plain, ?_, hplain, ?_⟩
  · rw [hlen] at hrun
    simp only [encrypt2Decrypt1, hrun₁, hrun₂, hlen₁, hlen₂, hrun, ok_bind]
    rfl
  · rw [hplain, List.append_right_inj]
    exact Crypto.mixFirst_eq_self_iff hb

/-- A block of zeros. -/
def zeroBlock : List UInt8 := List.replicate 16 0

/-- Buffers of one and of two blocks. -/
def blockBuf : Buf := ⟨List.replicate 16 0, 16⟩

def twoBlockBuf : Buf := ⟨List.replicate 32 0, 32⟩

/-- Two blocks of zeros under a key of zeros. -/
theorem encrypt2Decrypt1_zeros :
    ∃ plain, encrypt2Decrypt1 Crypto.ofZeros zeroKey blockBuf blockBuf twoBlockBuf zeroBlock
        zeroBlock = .ok (some plain) ∧
      plain.bytes = zeroBlock ++
        Crypto.mixFirst (Crypto.ofZeros.lastCipherBlock zeroKey zeroBlock) zeroBlock ∧
      (plain.bytes = zeroBlock ++ zeroBlock ↔
        zeroBlock = [] ∨ Crypto.ofZeros.lastCipherBlock zeroKey zeroBlock = zeroIv) :=
  encrypt2Decrypt1_eq Crypto.ofZeros zeroKey (by decide) (by decide) ⟨rfl, by decide, by decide⟩
    ⟨rfl, by decide, by decide⟩ ⟨rfl, by decide, by decide⟩

/-- The second of them comes out as the first ciphertext. -/
theorem not_encrypt2Decrypt1_append :
    aesBlockSize ∣ zeroBlock.length ∧ blockBuf.HasRoom zeroBlock.length ∧
      twoBlockBuf.HasRoom (zeroBlock.length + zeroBlock.length) ∧
      ¬∃ plain, encrypt2Decrypt1 Crypto.ofZeros zeroKey blockBuf blockBuf twoBlockBuf zeroBlock
        zeroBlock = .ok (some plain) ∧ plain.bytes = zeroBlock ++ zeroBlock := by
  refine ⟨by decide, ⟨rfl, by decide, by decide⟩, ⟨rfl, by decide, by decide⟩, ?_⟩
  rintro ⟨plain, hrun, hbytes⟩
  have hrun' : encrypt2Decrypt1 Crypto.ofZeros zeroKey blockBuf blockBuf twoBlockBuf zeroBlock
      zeroBlock = .ok (some ⟨zeroBlock ++ [0x66, 0xe9, 0x4b, 0xd4, 0xef, 0x8a, 0x2c, 0x3b, 0x88,
        0x4c, 0xfa, 0x59, 0xca, 0x34, 0x2b, 0x2e], 32⟩) := by decide
  obtain rfl := Option.some.inj (Except.ok.inj (hrun.symm.trans hrun'))
  revert hbytes
  decide

end OldPart
