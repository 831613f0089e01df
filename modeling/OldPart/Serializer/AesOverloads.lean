import OldPart.Serializer.AesDecrypt

/-!
# The overloads of `AESEncrypt` and `AESDecrypt`

Those on strings count in `size_t`, those on buffers in `int`, and both in `unsigned int`.  Up to
`INT_MAX` they come to the same padding, and whatever one of them encrypts either of the others
decrypts.
-/

namespace OldPart

/-- `std::string::resize`. -/
def resize (s : List UInt8) (len : ℕ) : List UInt8 :=
  s.take len ++ List.replicate (len - s.length) 0

@[simp] lemma length_resize (s : List UInt8) (len : ℕ) : (resize s len).length = len := by
  rw [resize, List.length_append, List.length_take, List.length_replicate]
  omega

/-- A string that gets shorter. -/
lemma resize_of_le {s : List UInt8} {len : ℕ} (h : len ≤ s.length) :
    resize s len = s.take len := by
  rw [resize, Nat.sub_eq_zero_of_le h]
  exact List.append_nil _

/-- A string is overwritten as a whole. -/
lemma copyN_resize {s src : List UInt8} {len : ℕ} (h : src.length = len) :
    (Buf.mk (resize s len) (resize s len).length).copyN 0 src = .ok ⟨src, len⟩ := by
  have hrest : (resize s len).drop src.length = [] :=
    List.drop_of_length_le (by rw [length_resize, h])
  rw [Buf.copyN_zero (by rw [length_resize, h])]
  simp only [hrest, List.append_nil, length_resize]

/-! ## Padding -/

/-- `len` and `padNum` of `AESEncrypt` on strings. -/
def stringPadding (length : UInt64) : UInt32 × Int32 :=
  if length % 16 = 0 then (length.toUInt32, 0)
  else
    let len := ((length / 16 + 1) * 16).toUInt32
    (len, (len.toUInt64 - length).toUInt32.toInt32)

/-- `len` and `padNum` of `AESEncrypt` on buffers. -/
def bufferPadding (plainLen : Int32) : UInt32 × Int32 :=
  if plainLen % 16 = 0 then (plainLen.toUInt32, 0)
  else
    let len := ((plainLen / 16 + 1) * 16).toUInt32
    (len, (len - plainLen.toUInt32).toInt32)

section Padding

variable {n : ℕ} (hn : n < 2 ^ 31 - 16)
include hn

lemma paddedLen_lt_int : paddedLen n < 2 ^ 31 := by
  have hlt := paddedLen_lt n
  unfold aesBlockSize at hlt
  omega

lemma toNat_paddedLen : (UInt32.ofNat (paddedLen n)).toNat = paddedLen n :=
  toNat_uint32_ofNat (paddedLen_lt_int hn)

lemma stringPadding_ofNat :
    stringPadding (.ofNat n) = (.ofNat (paddedLen n), .ofNat (paddedLen n - n)) := by
  have hword : UInt64.size = 2 ^ 64 := rfl
  have hlength : (UInt64.ofNat n).toNat = n := UInt64.toNat_ofNat_of_lt' (by omega)
  have hmod : UInt64.ofNat n % 16 = 0 ↔ n % 16 = 0 := by
    rw [← UInt64.toNat_inj, UInt64.toNat_mod, hlength]
    rfl
  rw [stringPadding, paddedLen]
  by_cases hwhole : n % 16 = 0
  · rw [if_pos (hmod.mpr hwhole), if_pos hwhole, UInt64.toUInt32_ofNat', Nat.sub_self]
    rfl
  · have hlen : (UInt64.ofNat n / 16 + 1) * 16 = UInt64.ofNat ((n / 16 + 1) * 16) := by
      apply UInt64.toNat.inj
      rw [UInt64.toNat_mul, UInt64.toNat_add, UInt64.toNat_div, hlength, UInt64.toNat_ofNat']
      simp
    -- `len` comes back as `size_t` for the subtraction
    have hback : (UInt32.ofNat ((n / 16 + 1) * 16)).toUInt64 =
        UInt64.ofNat ((n / 16 + 1) * 16) := by
      apply UInt64.toNat.inj
      rw [UInt32.toNat_toUInt64, UInt32.toNat_ofNat', UInt64.toNat_ofNat']
      omega
    rw [if_neg (mt hmod.mp hwhole), if_neg hwhole]
    simp only [hlen, UInt64.toUInt32_ofNat', hback]
    rw [← UInt64.ofNat_sub (by omega), UInt64.toUInt32_ofNat']
    rfl

lemma bufferPadding_ofNat :
    bufferPadding (.ofNat n) = (.ofNat (paddedLen n), .ofNat (paddedLen n - n)) := by
  have hmod : Int32.ofNat n % 16 = 0 ↔ n % 16 = 0 := by
    rw [← Int32.toInt_inj, Int32.toInt_mod, Int32.toInt_ofNat_of_lt (by omega)]
    show (n : ℤ).tmod 16 = 0 ↔ n % 16 = 0
    rw [Int.tmod_eq_emod_of_nonneg (by omega)]
    omega
  rw [bufferPadding, paddedLen]
  by_cases hwhole : n % 16 = 0
  · rw [if_pos (hmod.mpr hwhole), if_pos hwhole, Int32.toUInt32_ofNat', Nat.sub_self]
    rfl
  · have hlen : (Int32.ofNat n / 16 + 1) * 16 = Int32.ofNat ((n / 16 + 1) * 16) := by
      rw [Int32.ofNat_mul, Int32.ofNat_add, Int32.ofNat_div (by omega) (by omega)]
      rfl
    rw [if_neg (mt hmod.mp hwhole), if_neg hwhole]
    simp only [hlen, Int32.toUInt32_ofNat']
    rw [← UInt32.ofNat_sub (by omega)]
    rfl

end Padding

/-! ## The overloads -/

namespace Crypto

variable (crypto : Crypto) (key : AesKey)

/-- `AESEncrypt` on strings.  In memory `plaintext` is followed by `behind`. -/
def aesEncryptString (ciphertext plaintext behind : List UInt8) :
    Except Fault (Option (List UInt8 × Int32)) := do
  let (len, padNum) := stringPadding (.ofNat plaintext.length)
  let ciphertext := resize ciphertext len.toNat
  let written ← (Buf.mk ciphertext ciphertext.length).copyN 0
    (crypto.aesCbcEncrypt key (plaintext ++ behind) len.toNat)
  return some (written.buf, padNum)

/-- `AESEncrypt` on buffers: what it leaves in the memory and in `cipherLen`, and `padNum`, or
`none` when it returns `false`. -/
def aesEncryptBuffer (ciphertext : List UInt8) (cipherLen : Int32) (plaintext : List UInt8)
    (plainLen : Int32) : Except Fault (Option (List UInt8 × Int32 × Int32)) :=
  let (len, padNum) := bufferPadding plainLen
  -- compared as `unsigned int`
  if cipherLen.toUInt32 < len then .ok none
  else do
    let written ← (Buf.mk ciphertext cipherLen.toUInt32.toNat).copyN 0
      (crypto.aesCbcEncrypt key plaintext len.toNat)
    return some (written.buf, len.toInt32, padNum)

/-- `AESDecrypt` on strings: what it returns, and the plaintext.  In memory `ciphertext` is followed
by `behind`. -/
def aesDecryptString (decrypttext ciphertext behind : List UInt8) (padNum : Int32) :
    Except Fault (Bool × List UInt8) := do
  let len := (UInt64.ofNat ciphertext.length).toUInt32
  let decrypttext := resize decrypttext len.toNat
  let written ← (Buf.mk decrypttext decrypttext.length).copyN 0
    (crypto.aesCbcDecrypt key (ciphertext ++ behind) len.toNat)
  return (true, resize written.buf (len - padNum.toUInt32).toNat)

end Crypto

/-- What an overload writes to. -/
inductive AesOutput where
  | string (content : List UInt8)
  | buffer (memory : List UInt8) (capacity : Int32)

/-- Room for `n` bytes, which a string makes. -/
def AesOutput.HasRoom : AesOutput → ℕ → Prop
  | string _, _ => True
  | buffer memory capacity, n => n ≤ capacity.toInt ∧ capacity.toInt ≤ memory.length

namespace Crypto

variable (crypto : Crypto) (key : AesKey)

/-- The overload of `AESEncrypt` for an output: the ciphertext and `padNum`. -/
def encryptTo (plaintext behind : List UInt8) :
    AesOutput → Except Fault (Option (List UInt8 × Int32))
  | .string content => crypto.aesEncryptString key content plaintext behind
  | .buffer memory capacity => do
      let result ← crypto.aesEncryptBuffer key memory capacity (plaintext ++ behind)
        (.ofNat plaintext.length)
      return result.map fun (ciphertext, cipherLen, padNum) =>
        (ciphertext.take cipherLen.toNatClampNeg, padNum)

/-- The overload of `AESDecrypt` for an output: the plaintext. -/
def decryptTo (ciphertext behind : List UInt8) (padNum : Int32) :
    AesOutput → Except Fault (Option (List UInt8))
  | .string content => do
      let (done, plaintext) ← crypto.aesDecryptString key content ciphertext behind padNum
      return if done then some plaintext else none
  | .buffer memory capacity => do
      let (done, plaintext) ← crypto.aesDecrypt key ⟨memory, capacity.toNatClampNeg⟩
        ⟨ciphertext ++ behind, ciphertext.length⟩ padNum
      return if done then some plaintext.bytes else none

end Crypto

/-- In the range of `int` the lengths of buffers are what they are. -/
theorem Crypto.aesEncrypt_eq_aesEncryptBuffer (crypto : Crypto) (key : AesKey)
    {ciphertext plaintext : Buf} (hplain : plaintext.bufLen < 2 ^ 31 - 16)
    (hcipher : ciphertext.bufLen < 2 ^ 31) :
    crypto.aesEncrypt key ciphertext plaintext =
      (crypto.aesEncryptBuffer key ciphertext.buf (.ofNat ciphertext.bufLen) plaintext.buf
        (.ofNat plaintext.bufLen)).map (Option.map fun (memory, cipherLen, padNum) =>
          (⟨memory, cipherLen.toNatClampNeg⟩, padNum)) := by
  have hcompare : (Int32.ofNat ciphertext.bufLen).toUInt32 <
      UInt32.ofNat (paddedLen plaintext.bufLen) ↔
        ciphertext.bufLen < paddedLen plaintext.bufLen := by
    rw [Int32.toUInt32_ofNat']
    exact uint32_ofNat_lt_ofNat hcipher (paddedLen_lt_int hplain)
  have hlen : (Int32.ofNat (paddedLen plaintext.bufLen)).toNatClampNeg =
      paddedLen plaintext.bufLen := Int32.toNatClampNeg_ofNat_of_lt (paddedLen_lt_int hplain)
  rw [aesEncrypt, aesEncryptBuffer, bufferPadding_ofNat hplain]
  by_cases hshort : ciphertext.bufLen < paddedLen plaintext.bufLen
  · simp only [if_pos hshort, if_pos (hcompare.mpr hshort)]
    rfl
  · simp only [if_neg hshort, if_neg (mt hcompare.mp hshort), toNat_paddedLen hplain, Buf.copyN]
    by_cases hfits : 0 + (crypto.aesCbcEncrypt key plaintext.buf
        (paddedLen plaintext.bufLen)).length ≤ ciphertext.buf.length
    · simp only [if_pos hfits, ok_bind]
      show _ = Except.ok (some (Buf.mk _ (UInt32.ofNat _).toInt32.toNatClampNeg, _))
      rw [UInt32.toInt32_ofNat', hlen]
      rfl
    · simp only [if_neg hfits]
      rfl

/-! ## What was encrypted is decrypted -/

section Specs

variable (crypto : Crypto) (key : AesKey)

namespace Crypto

lemma aesEncryptString_spec {plain : List UInt8} (hn : plain.length < 2 ^ 31 - 16)
    (content behind : List UInt8) :
    crypto.aesEncryptString key content plain behind = .ok (some
      (crypto.aesCbcEncrypt key (plain ++ behind) (paddedLen plain.length),
        .ofNat (paddedLen plain.length - plain.length))) := by
  have hcopy := copyN_resize (s := content)
    (crypto.length_aesCbcEncrypt key (plain ++ behind) (dvd_paddedLen plain.length))
  rw [aesEncryptString, stringPadding_ofNat hn]
  simp only [toNat_paddedLen hn, hcopy]
  rfl

/-- The ciphertext lies at the beginning of the memory. -/
lemma aesEncryptBuffer_spec {n : ℕ} (hn : n < 2 ^ 31 - 16) {memory : List UInt8}
    {capacity : Int32} (hroom : (AesOutput.buffer memory capacity).HasRoom (paddedLen n))
    (plain : List UInt8) :
    ∃ rest, crypto.aesEncryptBuffer key memory capacity plain (.ofNat n) = .ok (some
      (crypto.aesCbcEncrypt key plain (paddedLen n) ++ rest, .ofNat (paddedLen n),
        .ofNat (paddedLen n - n))) := by
  obtain ⟨hle, hmemory⟩ := hroom
  have hcbc := crypto.length_aesCbcEncrypt key plain (dvd_paddedLen n)
  have hkeep : ¬capacity.toUInt32 < UInt32.ofNat (paddedLen n) := by
    have hcapacity := toNat_toUInt32 capacity
    have hlt := capacity.toInt_lt
    rw [UInt32.lt_iff_toNat_lt, toNat_paddedLen hn]
    omega
  refine ⟨memory.drop (paddedLen n), ?_⟩
  rw [aesEncryptBuffer, bufferPadding_ofNat hn]
  simp only [if_neg hkeep, toNat_paddedLen hn]
  rw [Buf.copyN_zero (by rw [hcbc]; show _ ≤ memory.length; omega), hcbc]
  rfl

/-- Decryption of what was encrypted, whatever has been left behind the ciphertext. -/
lemma aesDecryptString_spec {n : ℕ} (hn : n < 2 ^ 31 - 16) {memory : List UInt8}
    (hmemory : paddedLen n ≤ memory.length) (content behind : List UInt8) :
    crypto.aesDecryptString key content (crypto.aesCbcEncrypt key memory (paddedLen n)) behind
      (.ofNat (paddedLen n - n)) = .ok (true, memory.take n) := by
  have hle := le_paddedLen n
  have hnat : (UInt32.ofNat n).toNat = n := toNat_uint32_ofNat (by omega)
  have hround := crypto.aesCbcDecrypt_aesCbcEncrypt key (dvd_paddedLen n) hmemory behind
  have hlength : (memory.take (paddedLen n)).length = paddedLen n := by
    rw [List.length_take]
    omega
  have hresize : resize (memory.take (paddedLen n)) n = memory.take n := by
    rw [resize_of_le (by rw [hlength]; exact hle), List.take_take, Nat.min_eq_left hle]
  rw [aesDecryptString, crypto.length_aesCbcEncrypt key memory (dvd_paddedLen n)]
  simp only [UInt64.toUInt32_ofNat', toNat_paddedLen hn, hround, copyN_resize hlength,
    ofNat_sub_padNum, hnat, hresize, ok_bind]
  rfl

section Outputs

variable {plain : List UInt8} (hn : plain.length < 2 ^ 31 - 16) {out : AesOutput}
  (hout : out.HasRoom (paddedLen plain.length))
include hn hout

/-- Both overloads of `AESEncrypt` come to the same. -/
lemma encryptTo_spec (behind : List UInt8) :
    crypto.encryptTo key plain behind out = .ok (some
      (crypto.aesCbcEncrypt key (plain ++ behind) (paddedLen plain.length),
        .ofNat (paddedLen plain.length - plain.length))) := by
  cases out with
  | string content => exact crypto.aesEncryptString_spec key hn content behind
  | buffer memory capacity =>
    obtain ⟨rest, hrun⟩ := crypto.aesEncryptBuffer_spec key hn hout (plain ++ behind)
    have hcbc := crypto.length_aesCbcEncrypt key (plain ++ behind) (dvd_paddedLen plain.length)
    have hlen : (Int32.ofNat (paddedLen plain.length)).toNatClampNeg = paddedLen plain.length :=
      Int32.toNatClampNeg_ofNat_of_lt (paddedLen_lt_int hn)
    simp only [encryptTo, hrun, ok_bind, Option.map_some, hlen, List.take_left' hcbc]
    rfl

/-- So do both overloads of `AESDecrypt`. -/
lemma decryptTo_spec {memory : List UInt8} (hmemory : paddedLen plain.length ≤ memory.length)
    (behind : List UInt8) :
    crypto.decryptTo key (crypto.aesCbcEncrypt key memory (paddedLen plain.length)) behind
      (.ofNat (paddedLen plain.length - plain.length)) out =
        .ok (some (memory.take plain.length)) := by
  cases out with
  | string content =>
    rw [decryptTo, crypto.aesDecryptString_spec key hn hmemory]
    rfl
  | buffer target capacity =>
    obtain ⟨hle, htarget⟩ := hout
    have hcapacity := capacity.toNat_toInt
    have hfits : (Buf.mk target capacity.toNatClampNeg).bufLen ≤ target.length := by
      show capacity.toNatClampNeg ≤ target.length
      omega
    obtain ⟨plaintext, hrun, hbytes⟩ := crypto.aesDecrypt_spec key memory behind hfits
      capacity.toNatClampNeg_lt (by show _ ≤ capacity.toNatClampNeg; omega) hmemory
    rw [decryptTo, crypto.length_aesCbcEncrypt key memory (dvd_paddedLen _), hrun, ← hbytes]
    rfl

end Outputs

end Crypto

end Specs

/-- Whatever follows the plaintext in memory, each overload of `AESEncrypt` fills it up to whole
blocks and says by how many bytes, and each overload of `AESDecrypt` gets it back from that,
whatever follows the ciphertext. -/
theorem decryptTo_encryptTo (crypto : Crypto) (key : AesKey) {plain : List UInt8}
    (hn : plain.length < 2 ^ 31 - 16) (behind : List UInt8) {out : AesOutput}
    (hout : out.HasRoom (paddedLen plain.length)) :
    ∃ cipher padNum, crypto.encryptTo key plain behind out = .ok (some (cipher, padNum)) ∧
      cipher.length = paddedLen plain.length ∧
      padNum.toInt = paddedLen plain.length - plain.length ∧
      ∀ (out' : AesOutput) (behind' : List UInt8), out'.HasRoom (paddedLen plain.length) →
        crypto.decryptTo key cipher behind' padNum out' = .ok (some plain) := by
  have hle := le_paddedLen plain.length
  have hlt := paddedLen_lt_int hn
  refine ⟨_, _, crypto.encryptTo_spec key hn hout behind,
    crypto.length_aesCbcEncrypt key _ (dvd_paddedLen _), ?_, fun out' behind' hout' => ?_⟩
  · rw [Int32.toInt_ofNat_of_lt (by omega)]
    omega
  · -- as many zeros behind the memory as may be missing
    have hmemory : paddedLen plain.length ≤
        (plain ++ behind ++ List.replicate (paddedLen plain.length) 0).length := by
      rw [List.length_append, List.length_replicate]
      omega
    have htake : (plain ++ behind ++ List.replicate (paddedLen plain.length) 0).take plain.length =
        plain := by
      rw [List.append_assoc]
      exact List.take_left
    rw [← crypto.aesCbcEncrypt_append_zeros key (plain ++ behind) (paddedLen plain.length),
      crypto.decryptTo_spec key hn hout' hmemory behind', htake]

/-- Three bytes in front of two others, encrypted to a buffer and decrypted to a string and to
another buffer. -/
theorem decryptTo_encryptTo_threeBytes :
    ∃ cipher padNum, Crypto.ofZeros.encryptTo zeroKey [1, 2, 3] [0, 4]
        (.buffer (List.replicate 20 255) 16) = .ok (some (cipher, padNum)) ∧
      cipher.length = 16 ∧ padNum.toInt = 13 ∧
      Crypto.ofZeros.decryptTo zeroKey cipher [] padNum (.string [5]) = .ok (some [1, 2, 3]) ∧
      Crypto.ofZeros.decryptTo zeroKey cipher [255] padNum (.buffer (List.replicate 16 0) 16) =
        .ok (some [1, 2, 3]) := by
  have hn : ([1, 2, 3] : List UInt8).length < 2 ^ 31 - 16 := by decide
  have hout : (AesOutput.buffer (List.replicate 20 255) 16).HasRoom (paddedLen 3) :=
    ⟨by decide, by decide⟩
  obtain ⟨cipher, padNum, hrun, hlength, hpad, hdecrypt⟩ :=
    decryptTo_encryptTo Crypto.ofZeros zeroKey hn [0, 4] hout
  exact ⟨cipher, padNum, hrun, hlength, hpad, hdecrypt _ _ trivial,
    hdecrypt _ _ ⟨by decide, by decide⟩⟩

end OldPart
