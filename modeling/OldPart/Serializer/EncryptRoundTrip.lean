import OldPart.Serializer.RoundTrip

/-!
# Encrypted messages there and back

`EncryptBuf` pads every body to whole blocks with what lies behind it in its buffer, and
sends the number of bytes added and a checksum of the body without them.  With a
`MAX_MESSAGE_BODY_LENGTH` of whole blocks the padded body fits a buffer, and `Deserialize`
gets back every body as it was.
-/

namespace OldPart

/-! ## One body -/

/-- The body `e` is what `EncryptBuf` makes of `t`. -/
structure Encrypted (crypto : Crypto) (key : AesKey) (t e : BufT) : Prop where
  bufLen_eq : e.buf.bufLen = paddedLen t.buf.bufLen
  padNum_eq : e.padNum = .ofNat (paddedLen t.buf.bufLen - t.buf.bufLen)
  checksum_eq : e.checksum = crypto.computeChecksum t.buf
  isLast_eq : e.isLast = t.isLast
  buf_eq : ∃ behind,
    e.buf.buf = crypto.aesCbcEncrypt key t.buf.buf (paddedLen t.buf.bufLen) ++ behind

section EncryptBody

variable {env : Env} {crypto : Crypto} {key : AesKey} {t e : BufT}

/-- Every chunk that fits a buffer of whole blocks is encrypted. -/
lemma encryptBody_spec (crypto : Crypto) (key : AesKey) (hblock : aesBlockSize ∣ env.maxBody)
    (ht : t.buf.bufLen ≤ env.maxBody) (i : ℕ) :
    ∃ e, encryptBody env crypto key i t = .ok e ∧ Encrypted crypto key t e := by
  have hroom : paddedLen t.buf.bufLen ≤ (env.makeBuffer .encryptBuf i).bufLen :=
    paddedLen_le hblock ht
  have hlen :
      (env.makeBuffer .encryptBuf i).bufLen = (env.makeBuffer .encryptBuf i).buf.length := by
    rw [Env.length_makeBuffer, Env.bufLen_makeBuffer]
  obtain ⟨behind, hencrypt, -⟩ := crypto.aesEncrypt_spec key hlen hroom
  refine ⟨⟨⟨crypto.aesCbcEncrypt key t.buf.buf (paddedLen t.buf.bufLen) ++ behind,
    paddedLen t.buf.bufLen⟩, .ofNat (paddedLen t.buf.bufLen - t.buf.bufLen),
    crypto.computeChecksum t.buf, t.isLast⟩, ?_, ⟨rfl, rfl, rfl, rfl, behind, rfl⟩⟩
  simp only [encryptBody, hencrypt, bind, Except.bind]
  rfl

/-- All the bodies of a stream are encrypted, in order. -/
lemma encryptBodies_spec (crypto : Crypto) (key : AesKey) (hblock : aesBlockSize ∣ env.maxBody)
    {bodies : List BufT} (hbodies : ∀ t ∈ bodies, t.RawChunk env) (i : ℕ) :
    ∃ es, encryptBodies env crypto key i bodies = .ok es ∧
      List.Forall₂ (fun e t => t.RawChunk env ∧ Encrypted crypto key t e) es bodies := by
  induction bodies generalizing i with
  | nil => exact ⟨[], rfl, List.Forall₂.nil⟩
  | cons t rest ih =>
    obtain ⟨e, he, hencrypted⟩ :=
      encryptBody_spec crypto key hblock (hbodies t (by simp)).bufLen_le i
    obtain ⟨es, hes, hrest⟩ := ih (fun t ht => hbodies t (by simp [ht])) (i + 1)
    refine ⟨e :: es, ?_, List.Forall₂.cons ⟨hbodies t (by simp), hencrypted⟩ hrest⟩
    simp only [encryptBodies, he, hes, bind, Except.bind]
    rfl

/-- The number of padding bytes survives the `int8_t` it is sent in. -/
lemma padNum_toInt8 (n : ℕ) :
    (Int32.ofNat (paddedLen n - n)).toInt8.toInt32 = Int32.ofNat (paddedLen n - n) ∧
      0 ≤ (Int32.ofNat (paddedLen n - n)).toInt8 ∧ (Int32.ofNat (paddedLen n - n)).toInt8 ≤ 15 := by
  have hall : ∀ pad < 16, (Int32.ofNat pad).toInt8.toInt32 = Int32.ofNat pad ∧
      0 ≤ (Int32.ofNat pad).toInt8 ∧ (Int32.ofNat pad).toInt8 ≤ 15 := by decide
  have hlt := paddedLen_lt n
  simp only [aesBlockSize] at hlt
  exact hall _ (by omega)

end EncryptBody

/-! ## One message -/

/-- A message as the receiver should find it: fewer than sixteen bytes of padding, a body of
whole blocks that fits a buffer, and a plaintext that passes the checksum test and is the raw
body. -/
structure OpensFrame (u : Setup) (key : AesKey) (m : OMessage) (raw : List UInt8) : Prop where
  padNum_nonneg : 0 ≤ m.encryptPadNum
  padNum_le : m.encryptPadNum ≤ 15
  dvd_bodyLength : aesBlockSize ∣ m.bodyLength.toNatClampNeg
  bodyLength_le : m.bodyLength.toNatClampNeg ≤ u.env.maxBody
  opens : ∀ i, ∃ b, Deserializer.openBody u key i m = .ok (some b) ∧ b.bytes = raw

section OpensFrame

variable {u : Setup} {key : AesKey} {t e : BufT}

/-- The message of an encrypted body is opened: its checksum test passes and the plaintext
is the body. -/
lemma Encrypted.opensFrame (h : Encrypted u.crypto key t e) (hblock : aesBlockSize ∣ u.env.maxBody)
    (ht : t.buf.bufLen ≤ u.env.maxBody) (hmem : t.buf.buf.length = u.env.maxBody) (stamp : Stamp)
    (hstamp : SerializeMethod.hasFlag stamp.serializeMethod.toInt16 SerializeMethod.encrypt = true)
    (sequenceId messageSequenceId : Int32) :
    OpensFrame u key (makeMessage stamp sequenceId messageSequenceId e) t.bytes := by
  have hpadded := paddedLen_le hblock ht
  have hmax := u.env.maxBody_lt
  have hlt : e.buf.bufLen < 2 ^ 31 := by
    rw [h.bufLen_eq]
    omega
  have hbody := makeMessage_body stamp sequenceId messageSequenceId hlt
  have hlen : (makeMessage stamp sequenceId messageSequenceId e).bodyLength.toNatClampNeg
      = paddedLen t.buf.bufLen := by
    rw [← h.bufLen_eq]
    exact congrArg Buf.bufLen hbody
  obtain ⟨hround, hnonneg, hle⟩ := padNum_toInt8 t.buf.bufLen
  have hpad : (makeMessage stamp sequenceId messageSequenceId e).encryptPadNum =
      (Int32.ofNat (paddedLen t.buf.bufLen - t.buf.bufLen)).toInt8 := by
    rw [← h.padNum_eq]
    rfl
  refine ⟨by rwa [hpad], by rwa [hpad], by rw [hlen]; exact dvd_paddedLen _, by rwa [hlen], ?_⟩
  intro i
  obtain ⟨behind, hbuf⟩ := h.buf_eq
  have hcipher : (makeMessage stamp sequenceId messageSequenceId e).body =
      ⟨u.crypto.aesCbcEncrypt key t.buf.buf (paddedLen t.buf.bufLen) ++ behind,
        paddedLen t.buf.bufLen⟩ := by
    rw [hbody, ← hbuf, ← h.bufLen_eq]
  have hcap : (u.env.makeBuffer .decrypt i).bufLen = (u.env.makeBuffer .decrypt i).buf.length := by
    rw [Env.length_makeBuffer, Env.bufLen_makeBuffer]
  obtain ⟨plaintext, hdecrypt, hbytes⟩ := u.crypto.aesDecrypt_spec key t.buf.buf behind hcap.le
    hmax hpadded (by rw [hmem]; exact hpadded)
  refine ⟨plaintext, ?_, hbytes⟩
  have hencrypted : (makeMessage stamp sequenceId messageSequenceId e).isEncrypted = true := hstamp
  have hsum : u.crypto.computeChecksum plaintext =
      (makeMessage stamp sequenceId messageSequenceId e).checksum := by
    rw [Crypto.computeChecksum, hbytes]
    exact h.checksum_eq.symm
  simp only [Deserializer.openBody, hencrypted, if_true, hcipher, hpad, hround, hdecrypt, bind,
    Except.bind, hsum, pure, Except.pure]

end OpensFrame

/-! ## The round trip -/

/-- `Serialize(messageId, obj, key)` gets through, each of its frames is in order and opens
to the writer's chunk, and `Deserialize` with the same key returns `true` with `obj`. -/
def EncryptedRoundTrips (u : Setup) (fetch : ℕ → Int32) (messageId : Int32) (key : AesKey)
    (turns : ℕ) (s : Schema) (target obj : s.Val) : Prop :=
  ∃ raw ms, serializeObject u.env s obj = .ok raw ∧
    serializeEncrypt u fetch messageId obj key = .ok ms ∧
    List.Forall₂ (OpensFrame u key) ms (raw.map BufT.bytes) ∧
    deserialize u key s target turns ms = .returned true obj

/-- A `MAX_MESSAGE_BODY_LENGTH` of whole blocks has room for a length prefix. -/
lemma four_le_of_blocks {env : Env} {s : Schema} (hpod : s.largestPod ≤ env.maxBody)
    (hblock : aesBlockSize ∣ env.maxBody) : int32Size.val ≤ env.maxBody := by
  have hpos := s.largestPod_pos
  have hle := Nat.le_of_dvd (by omega) hblock
  exact (by decide : int32Size.val ≤ aesBlockSize).trans hle

lemma writable_of_blocks {env : Env} {s : Schema} {obj : s.Val} (hfits : Schema.Fits s obj)
    (hpod : s.largestPod ≤ env.maxBody) (hblock : aesBlockSize ∣ env.maxBody) :
    Writable env s obj :=
  ⟨hfits, four_le_of_blocks hpod hblock, hpod⟩

/-- With a `MAX_MESSAGE_BODY_LENGTH` of whole blocks, encrypted messages take an object there
and back exactly when the lengths in it fit in `int32_t` and no sum in `EnsureBuffer` leaves
`int32_t`. -/
theorem encryptedRoundTrips_iff_sumsFit (u : Setup) (fetch : ℕ → Int32) (messageId : Int32)
    (key : AesKey) (turns : ℕ) (s : Schema) (target obj : s.Val) (hfresh : Schema.Fresh s target)
    (hpod : s.largestPod ≤ u.env.maxBody) (hblock : aesBlockSize ∣ u.env.maxBody) :
    EncryptedRoundTrips u fetch messageId key turns s target obj ↔
      Schema.Fits s obj ∧ SumsFit u.env s obj := by
  constructor
  · rintro ⟨raw, ms, hwrite, -, -, hrun⟩
    have hfits := fits_of_deserialize hfresh hrun
    exact ⟨hfits, sumsFit_of_serializeObject (writable_of_blocks hfits hpod hblock) hwrite⟩
  · rintro ⟨hfits, hsums⟩
    have h := writable_of_blocks hfits hpod hblock
    obtain ⟨raw, hwrite, hraw⟩ := serializeObject_spec h hsums
    obtain ⟨es, hencrypt, hes⟩ := encryptBodies_spec u.crypto key hblock hraw.raw 0
    have hframes : List.Forall₂ (fun m t => OpensFrame u key m t.bytes ∧ m.isCompressed = false)
        (makeMessageFromBuf ⟨messageId, SerializeMethod.encrypt, 0⟩ fetch es) raw := by
      refine forall₂_makeMessages (fun e t he sequenceId messageSequenceId => ?_) hes fetch 0 1
      obtain ⟨ht, hencrypted⟩ := he
      exact ⟨hencrypted.opensFrame hblock ht.bufLen_le ht.length_buf
        ⟨messageId, SerializeMethod.encrypt, 0⟩ SerializeMethod.hasFlag_encrypt.2 _ _,
        SerializeMethod.hasFlag_encrypt.1⟩
    refine ⟨raw, makeMessageFromBuf ⟨messageId, SerializeMethod.encrypt, 0⟩ fetch es, hwrite, ?_,
      List.forall₂_map_right_iff.mpr (hframes.imp fun _ _ hm => hm.1), ?_⟩
    · rw [serializeEncrypt, hwrite, ok_bind, encryptBuf, hencrypt, ok_bind]
      rfl
    · exact hraw.deserialize_eq h.fits hfresh (hframes.imp fun _ _ hm => ⟨hm.2, hm.1.opens⟩)

/-! ## Two objects -/

lemma sixteen_bytes : 0 < 16 ∧ 16 < 2 ^ 31 := by decide

/-- A POD of one block, and one that is as large as the largest buffer of whole blocks. -/
def blockAndHuge : Schema := .field (.pod ⟨16, by decide⟩) (.pod ⟨2 ^ 31 - 16, by decide⟩)

/-- Zeros. -/
def blockAndHugeValue : blockAndHuge.Val :=
  (List.Vector.replicate 16 0, List.Vector.replicate (2 ^ 31 - 16) 0)

/-- The sum overflows behind the block also when `MAX_MESSAGE_BODY_LENGTH` is the largest
multiple of the block size. -/
theorem not_encryptedRoundTrips_blockAndHuge :
    Schema.Fits blockAndHuge blockAndHugeValue ∧ blockAndHuge.largestPod ≤ 2 ^ 31 - 16 ∧
      aesBlockSize ∣ 2 ^ 31 - 16 ∧
      ¬EncryptedRoundTrips (Setup.plain (2 ^ 31 - 16) (by decide)) (fun i => .ofNat i) 1 zeroKey 0
        blockAndHuge blockAndHuge.zero blockAndHugeValue := by
  have hfits : Schema.Fits blockAndHuge blockAndHugeValue := ⟨trivial, trivial⟩
  refine ⟨hfits, by decide, by decide, ?_⟩
  rintro ⟨raw, ms, hwrite, -⟩
  have hwritable : Writable (Setup.plain (2 ^ 31 - 16) (by decide)).env blockAndHuge
      blockAndHugeValue := ⟨hfits, by decide, by decide⟩
  exact absurd (sumsFit_of_serializeObject hwritable hwrite) (by decide)

/-- AES and CRC-32 for runs that ask for no more than what AES makes of one block and for one
checksum. -/
def Crypto.ofBlock (plain cipher : AesBlock) (checksum : Int32) : Crypto where
  aes _ := Equiv.swap plain cipher
  cbcTail _ _ _ := List.Vector.replicate _ 0
  crc _ := checksum

/-- What AES makes of a block of zeros under a key of zeros, and the checksum of four zeros. -/
def Crypto.ofZeros : Crypto :=
  .ofBlock zeroIv
    ⟨[0x66, 0xe9, 0x4b, 0xd4, 0xef, 0x8a, 0x2c, 0x3b, 0x88, 0x4c, 0xfa, 0x59, 0xca, 0x34, 0x2b,
      0x2e], rfl⟩ 0x2144df1c

/-- An `int32_t` that is zero, in a buffer of zeros. -/
theorem encryptedRoundTrips_zero :
    EncryptedRoundTrips ⟨(Setup.plain 16 (by decide)).env, Crypto.ofZeros, Zlib.unused⟩
      (fun i => .ofNat i) 1 zeroKey 0 Schema.fourBytes Schema.fourBytes.zero
      Schema.fourBytes.zero :=
  (encryptedRoundTrips_iff_sumsFit
    ⟨(Setup.plain 16 (by decide)).env, Crypto.ofZeros, Zlib.unused⟩ (fun i => .ofNat i) 1 zeroKey 0
    Schema.fourBytes Schema.fourBytes.zero Schema.fourBytes.zero (Schema.fresh_zero _)
    (by decide) (by decide)).mpr ⟨trivial, by decide⟩

end OldPart
