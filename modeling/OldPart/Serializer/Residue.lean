import OldPart.Proto.Fill
import OldPart.Serializer.EncryptRoundTrip

/-!
# What an encrypted body gives away

`AESEncrypt` fills the last block of a body up with what lies behind it in its buffer, where
nothing has been written.  A body that is not of whole blocks carries what the memory of the
process held before.
-/

namespace OldPart

/-- The same build, with other memory behind `MakeBuffer`. -/
def Setup.withPrior (u : Setup) (prior : Maker → ℕ → ℕ → UInt8) : Setup :=
  { u with env := { u.env with prior := prior } }

/-- `Serialize(messageId, obj, key)` gets through, and whatever the buffers hold before, the
bodies of its messages are the same. -/
def RevealsNothing (u : Setup) (fetch : ℕ → Int32) (messageId : Int32) (key : AesKey)
    (s : Schema) (obj : s.Val) : Prop :=
  ∀ prior, ∃ ms ms', serializeEncrypt u fetch messageId obj key = .ok ms ∧
    serializeEncrypt (u.withPrior prior) fetch messageId obj key = .ok ms' ∧
    ms.map OMessage.bytes = ms'.map OMessage.bytes

/-- The object is cut into chunks of whole blocks. -/
def WholeBlocks (env : Env) (s : Schema) (obj : s.Val) : Prop :=
  ∃ cs, s.chunks env obj = some cs ∧ ∀ c ∈ cs, aesBlockSize ∣ c.length

/-- Encryption tells bytes apart as far as it reads them. -/
lemma Crypto.aesCbcEncrypt_eq_iff (crypto : Crypto) (key : AesKey) {n : ℕ}
    (hn : aesBlockSize ∣ n) {bs bs' : List UInt8} (hlen : n ≤ bs.length) (hlen' : n ≤ bs'.length) :
    crypto.aesCbcEncrypt key bs n = crypto.aesCbcEncrypt key bs' n ↔ bs.take n = bs'.take n := by
  have hmul : aesBlockSize * (n / aesBlockSize) = n := Nat.mul_div_cancel' hn
  have htake : ∀ {cs : List UInt8}, n ≤ cs.length →
      unblocks (blocks aesBlockSize 0 (n / aesBlockSize) cs) = cs.take n := by
    intro cs hcs
    rw [unblocks_blocks 0 (by rw [hmul]; exact hcs), hmul]
  rw [← htake hlen, ← htake hlen', aesCbcEncrypt, aesCbcEncrypt]
  constructor
  · intro h
    have hcipher := unblocks_injective 0 (by simp [length_blocks]) h
    rw [cbcEncrypt_injective (crypto.aes key) xorBlock_xorBlock zeroIv hcipher]
  · intro h
    rw [unblocks_injective 0 (by simp [length_blocks]) h]

section Residue

variable {u : Setup} {s : Schema} {obj : s.Val}

/-- The body of the message of the `i`-th chunk. -/
def Setup.cipherBody (u : Setup) (key : AesKey) (i : ℕ) (c : List UInt8) : List UInt8 :=
  u.crypto.aesCbcEncrypt key (u.env.filled i c).buf (paddedLen c.length)

/-- The body of an encrypted message. -/
lemma Encrypted.bytes_makeMessage {crypto : Crypto} {key : AesKey} {t e : BufT}
    (h : Encrypted crypto key t e) {maxBody : ℕ} (hblock : aesBlockSize ∣ maxBody)
    (hmax : maxBody < 2 ^ 31) (ht : t.buf.bufLen ≤ maxBody) (stamp : Stamp)
    (sequenceId messageSequenceId : Int32) :
    (makeMessage stamp sequenceId messageSequenceId e).bytes =
      crypto.aesCbcEncrypt key t.buf.buf (paddedLen t.buf.bufLen) := by
  obtain ⟨behind, hbuf⟩ := h.buf_eq
  have hpadded := paddedLen_le hblock ht
  have hlen : e.buf.bufLen < 2 ^ 31 := by
    rw [h.bufLen_eq]
    omega
  rw [OMessage.bytes, makeMessage_body stamp sequenceId messageSequenceId hlen, Buf.bytes, hbuf,
    h.bufLen_eq]
  exact List.take_left' (crypto.length_aesCbcEncrypt key t.buf.buf (dvd_paddedLen _))

/-- What the memory held has no part in how an object is cut. -/
lemma Schema.fill_withPrior (u : Setup) (prior : Maker → ℕ → ℕ → UInt8) (s : Schema) (v : s.Val) :
    s.fill (u.withPrior prior).env v = s.fill u.env v := by
  induction s with
  | pod size => rfl
  | string => rfl
  | vector elem ih =>
    have hsize : (u.withPrior prior).env.sizeof elem = u.env.sizeof elem := by
      cases elem <;> rfl
    simp only [fill, ih, hsize]
    rfl
  | proto fields ih => exact ih v
  | field first rest ih₁ ih₂ => simp only [fill, ih₁, ih₂]

lemma Schema.chunks_withPrior (u : Setup) (prior : Maker → ℕ → ℕ → UInt8) (s : Schema)
    (obj : s.Val) : s.chunks (u.withPrior prior).env obj = s.chunks u.env obj := by
  rw [chunks, fill_withPrior]
  rfl

/-- The bodies of the messages of an object. -/
lemma serializeEncrypt_chunks (fetch : ℕ → Int32) (messageId : Int32) (key : AesKey)
    (hpod : s.largestPod ≤ u.env.maxBody) (hblock : aesBlockSize ∣ u.env.maxBody)
    {cs : List (List UInt8)} (hcs : s.chunks u.env obj = some cs) :
    ∃ ms, serializeEncrypt u fetch messageId obj key = .ok ms ∧
      ms.map OMessage.bytes = cs.mapIdx (u.cipherBody key) := by
  obtain ⟨raw, hwrite, hbufs, hraw⟩ :=
    (serializeObject_fills (max_le (four_le_of_blocks hpod hblock) hpod)).1 cs hcs
  obtain ⟨es, hencrypt, hes⟩ := encryptBodies_spec u.crypto key hblock hraw 0
  refine ⟨makeMessageFromBuf ⟨messageId, SerializeMethod.encrypt, 0⟩ fetch es, ?_, ?_⟩
  · rw [serializeEncrypt, hwrite, ok_bind, encryptBuf, hencrypt, ok_bind]
    rfl
  · have hbodies : List.Forall₂ (fun m t => m.bytes =
        u.crypto.aesCbcEncrypt key t.buf.buf (paddedLen t.buf.bufLen))
        (makeMessageFromBuf ⟨messageId, SerializeMethod.encrypt, 0⟩ fetch es) raw := by
      refine forall₂_makeMessages (fun e t he sequenceId messageSequenceId => ?_) hes fetch 0 1
      obtain ⟨ht, hencrypted⟩ := he
      exact hencrypted.bytes_makeMessage hblock u.env.maxBody_lt ht.bufLen_le _ _ _
    have hmap : (makeMessageFromBuf ⟨messageId, SerializeMethod.encrypt, 0⟩ fetch es).map
        OMessage.bytes = (raw.map BufT.buf).map fun b =>
          u.crypto.aesCbcEncrypt key b.buf (paddedLen b.bufLen) := by
      rw [List.map_map, ← List.forall₂_eq_eq_eq, List.forall₂_map_left_iff,
        List.forall₂_map_right_iff]
      exact hbodies
    rw [hmap, hbufs]
    apply List.ext_getElem?
    intro i
    rw [List.getElem?_map, List.getElem?_mapIdx, List.getElem?_mapIdx, Option.map_map]
    rfl

/-- A body shows what lies behind a chunk, up to whole blocks. -/
lemma Setup.cipherBody_eq_iff (u : Setup) (key : AesKey) (prior : Maker → ℕ → ℕ → UInt8) (i : ℕ)
    {c : List UInt8} (hblock : aesBlockSize ∣ u.env.maxBody) (hc : c.length ≤ u.env.maxBody) :
    u.cipherBody key i c = (u.withPrior prior).cipherBody key i c ↔
      ∀ j, c.length ≤ j → j < paddedLen c.length →
        u.env.prior .ensureBuffer i j = prior .ensureBuffer i j := by
  have hpadded := paddedLen_le hblock hc
  have hlen : ∀ env : Env, env.maxBody = u.env.maxBody →
      paddedLen c.length ≤ (env.filled i c).buf.length := by
    intro env henv
    rw [Env.length_filled env i (by omega)]
    omega
  have hget : ∀ env : Env, env.maxBody = u.env.maxBody → ∀ j, c.length ≤ j →
      j < paddedLen c.length → (env.filled i c).buf[j]? = some (env.prior .ensureBuffer i j) := by
    intro env henv j hge hlt
    have hrange : j < env.maxBody := by omega
    rw [Env.filled, List.getElem?_append_right hge, List.getElem?_drop, Nat.add_sub_cancel' hge,
      Env.makeBuffer, List.getElem?_map, List.getElem?_range hrange]
    rfl
  have hfront : ∀ env : Env, ∀ j, j < c.length → (env.filled i c).buf[j]? = (c)[j]? := by
    intro env j hlt
    exact List.getElem?_append_left hlt
  have hiff := u.crypto.aesCbcEncrypt_eq_iff key (dvd_paddedLen c.length) (hlen u.env rfl)
    (hlen (u.withPrior prior).env rfl)
  refine hiff.trans ⟨fun h j hge hlt => ?_, fun h => List.ext_getElem? fun j => ?_⟩
  · have hj := congrArg (fun bs : List UInt8 => bs[j]?) h
    simp only [List.getElem?_take_of_lt hlt] at hj
    rw [hget u.env rfl j hge hlt, hget (u.withPrior prior).env rfl j hge hlt] at hj
    exact Option.some.inj hj
  · by_cases hlt : j < paddedLen c.length
    · rw [List.getElem?_take_of_lt hlt, List.getElem?_take_of_lt hlt]
      by_cases hge : c.length ≤ j
      · rw [hget u.env rfl j hge hlt, hget (u.withPrior prior).env rfl j hge hlt, h j hge hlt]
        rfl
      · rw [hfront u.env j (by omega), hfront (u.withPrior prior).env j (by omega)]
    · rw [List.getElem?_take_eq_none (by omega), List.getElem?_take_eq_none (by omega)]

/-- Nothing is revealed when there are chunks and none of the bodies depends on the memory. -/
lemma revealsNothing_iff_cipherBody (fetch : ℕ → Int32) (messageId : Int32) (key : AesKey)
    (hpod : s.largestPod ≤ u.env.maxBody) (hblock : aesBlockSize ∣ u.env.maxBody) :
    RevealsNothing u fetch messageId key s obj ↔ ∃ cs, s.chunks u.env obj = some cs ∧
      ∀ prior i, (hi : i < cs.length) →
        u.cipherBody key i cs[i] = (u.withPrior prior).cipherBody key i cs[i] := by
  have hruns : ∀ prior cs, s.chunks u.env obj = some cs →
      ∃ ms, serializeEncrypt (u.withPrior prior) fetch messageId obj key = .ok ms ∧
        ms.map OMessage.bytes = cs.mapIdx ((u.withPrior prior).cipherBody key) := by
    intro prior cs hcs
    rw [← Schema.chunks_withPrior u prior] at hcs
    exact serializeEncrypt_chunks (u := u.withPrior prior) fetch messageId key hpod hblock hcs
  constructor
  · intro h
    obtain ⟨ms, -, hrun, -, -⟩ := h u.env.prior
    obtain ⟨raw, hwrite, -⟩ := exists_of_bind_eq_ok hrun
    cases hcs : s.chunks u.env obj with
    | none =>
      obtain ⟨e, herror⟩ :=
        (serializeObject_fills (max_le (four_le_of_blocks hpod hblock) hpod)).2 hcs
      rw [herror] at hwrite
      cases hwrite
    | some cs =>
      refine ⟨cs, rfl, fun prior => List.mapIdx_eq_mapIdx_iff.mp ?_⟩
      obtain ⟨ms₁, ms₂, hrun₁, hrun₂, hsame⟩ := h prior
      obtain ⟨ms₁', hrun₁', hbytes₁⟩ := hruns u.env.prior cs hcs
      obtain ⟨ms₂', hrun₂', hbytes₂⟩ := hruns prior cs hcs
      obtain rfl := Except.ok.inj (hrun₁.symm.trans hrun₁')
      obtain rfl := Except.ok.inj (hrun₂.symm.trans hrun₂')
      exact hbytes₁.symm.trans (hsame.trans hbytes₂)
  · rintro ⟨cs, hcs, hsame⟩ prior
    obtain ⟨ms₁, hrun₁, hbytes₁⟩ := hruns u.env.prior cs hcs
    obtain ⟨ms₂, hrun₂, hbytes₂⟩ := hruns prior cs hcs
    refine ⟨ms₁, ms₂, hrun₁, hrun₂, hbytes₁.trans (Eq.trans ?_ hbytes₂.symm)⟩
    exact List.mapIdx_eq_mapIdx_iff.mpr (hsame prior)

/-- When nothing is revealed, the chunks are of whole blocks. -/
lemma wholeBlocks_of_revealsNothing {fetch : ℕ → Int32} {messageId : Int32} {key : AesKey}
    (hpod : s.largestPod ≤ u.env.maxBody) (hblock : aesBlockSize ∣ u.env.maxBody)
    (h : RevealsNothing u fetch messageId key s obj) : WholeBlocks u.env s obj := by
  obtain ⟨cs, hcs, hsame⟩ :=
    (revealsNothing_iff_cipherBody fetch messageId key hpod hblock).mp h
  refine ⟨cs, hcs, fun c hc => ?_⟩
  obtain ⟨i, hi, rfl⟩ := List.getElem_of_mem hc
  by_contra hpart
  have hlt : cs[i].length < paddedLen cs[i].length := by
    refine lt_of_le_of_ne (le_paddedLen _) fun heq => hpart ?_
    rw [heq]
    exact dvd_paddedLen _
  have hle := length_le_of_mem_chunks (max_le (four_le_of_blocks hpod hblock) hpod) hcs hc
  -- take other memory that differs in every byte
  have hnext := (u.cipherBody_eq_iff key (fun who i j => u.env.prior who i j + 1) i hblock hle).mp
    (hsame _ i hi) _ le_rfl hlt
  simp at hnext

end Residue

/-- The bodies of encrypted messages are the same whatever the buffers held before exactly when no
sum in `EnsureBuffer` leaves `int32_t` and every chunk the object is cut into is of whole blocks. -/
theorem revealsNothing_iff_wholeBlocks (u : Setup) (fetch : ℕ → Int32) (messageId : Int32)
    (key : AesKey) (s : Schema) (obj : s.Val) (hpod : s.largestPod ≤ u.env.maxBody)
    (hblock : aesBlockSize ∣ u.env.maxBody) :
    RevealsNothing u fetch messageId key s obj ↔ WholeBlocks u.env s obj := by
  refine ⟨wholeBlocks_of_revealsNothing hpod hblock, ?_⟩
  rintro ⟨cs, hcs, hwhole⟩
  refine (revealsNothing_iff_cipherBody fetch messageId key hpod hblock).mpr
    ⟨cs, hcs, fun prior i hi => ?_⟩
  have hmem : cs[i] ∈ cs := List.getElem_mem hi
  have hle := length_le_of_mem_chunks (max_le (four_le_of_blocks hpod hblock) hpod) hcs hmem
  refine (u.cipherBody_eq_iff key prior i hblock hle).mpr fun j hge hlt => ?_
  rw [paddedLen_of_dvd (hwhole _ hmem)] at hlt
  omega

/-- Four bytes leave twelve of a block to what was there before. -/
theorem not_revealsNothing_fourBytes :
    ¬RevealsNothing ⟨(Setup.plain 16 (by decide)).env, Crypto.ofZeros, Zlib.unused⟩
      (fun i => .ofNat i) 1 zeroKey Schema.fourBytes Schema.fourBytes.zero := by
  intro h
  obtain ⟨cs, hcs, hwhole⟩ := wholeBlocks_of_revealsNothing (by decide) (by decide) h
  have hchunks : Schema.fourBytes.chunks (Setup.plain 16 (by decide)).env Schema.fourBytes.zero =
      some [[0, 0, 0, 0]] := rfl
  obtain rfl := Option.some.inj (hcs.symm.trans hchunks)
  exact absurd (hwhole [0, 0, 0, 0] (List.mem_singleton_self _)) (by decide)

/-- A POD of one block. -/
def oneBlock : Schema := .pod ⟨16, sixteen_bytes⟩

/-- It fills its frame. -/
theorem revealsNothing_oneBlock :
    RevealsNothing ⟨(Setup.plain 16 (by decide)).env, Crypto.ofZeros, Zlib.unused⟩
      (fun i => .ofNat i) 1 zeroKey oneBlock oneBlock.zero :=
  (revealsNothing_iff_wholeBlocks ⟨(Setup.plain 16 (by decide)).env, Crypto.ofZeros, Zlib.unused⟩
    (fun i => .ofNat i) 1 zeroKey oneBlock oneBlock.zero (by decide) (by decide)).mpr
    ⟨[List.replicate 16 0], rfl, by decide⟩

end OldPart
