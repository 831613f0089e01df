import OldPart.Proto.Fill
import OldPart.Proto.ReadPart
import OldPart.Serializer.Acceptance
import OldPart.Serializer.CompressCorrect
import OldPart.Serializer.EncryptRoundTrip
import OldPart.Serializer.InflateCorrect
import OldPart.Serializer.StoredZlib
import Mathlib.Data.List.Infix

/-!
# Compressed messages there and back

Between the writer and the reader there are `deflate`, with the room the buffers of
`CompressBuf` give it, and `inflate`, with the room those of `Deserialize` give it.  What
`inflate` fills its buffers with is a beginning of the encoding; it need not be all of it, and
it is cut where its buffers happen to be full.
-/

namespace OldPart

/-! ## Which cuts of a beginning of the encoding arrive -/

/-- The chunks make the object into `obj`: each POD and each length prefix is cut at most once,
what is missing behind the last chunk does not matter, and no chunk comes behind the encoding. -/
structure Arrives (s : Schema) (target obj : s.Val) (chunks : List (List UInt8)) : Prop where
  atMostOneCut : AtMostOneCut (Schema.podSpans s 0 obj) (chunkEnds 0 (chunks.map List.length))
  enough : Schema.Suffices s chunks.flatten.length target obj
  dropLast_ne : chunks.dropLast.flatten ≠ Schema.flat s obj

section Arrives

variable {s : Schema} {target obj : s.Val} {chunks : List (List UInt8)}

/-- All of the encoding. -/
lemma arrives_iff_of_eq (hfresh : Schema.Fresh s target) (hfits : Schema.Fits s obj)
    (hflat : chunks.flatten = Schema.flat s obj) :
    Takes s target [] chunks ∧ (s.readCoro target chunks).obj = obj ↔
      Arrives s target obj chunks := by
  have htakes_iff : Takes s target [] chunks ↔ _ := takes_iff_of_eq ⟨hfits, hflat.symm⟩
  constructor
  · rintro ⟨htakes, -⟩
    obtain ⟨hcut, hdrop⟩ := htakes_iff.mp htakes
    exact ⟨hcut, Schema.suffices_of_le s target (by rw [hflat]), hdrop⟩
  · rintro ⟨hcut, -, hdrop⟩
    refine ⟨htakes_iff.mpr ⟨hcut, hdrop⟩, ?_⟩
    obtain ⟨c, hdone, -⟩ := (Schema.readCoro_spec target hfits hflat).1 hcut
    rw [hdone, Schema.overlay_of_fresh hfresh]
    rfl

/-- Not all of it: the reader waits behind each chunk. -/
lemma arrives_iff_of_lt (hfresh : Schema.Fresh s target) (hfits : Schema.Fits s obj)
    (hbegins : chunks.flatten <+: Schema.flat s obj)
    (hlt : chunks.flatten.length < (Schema.flat s obj).length) :
    Takes s target [] chunks ∧ (s.readCoro target chunks).obj = obj ↔
      Arrives s target obj chunks := by
  obtain ⟨hwait_of, hfault_of⟩ := Schema.readCoro_halts hfresh hfits hbegins hlt
  constructor
  · rintro ⟨htakes, hobj⟩
    have hcut : AtMostOneCut (Schema.podSpans s 0 obj) (chunkEnds 0 (chunks.map List.length)) := by
      by_contra hcut
      obtain ⟨w, hfault⟩ := hfault_of hcut
      refine htakes.2 ?_ (by rw [List.nil_append, hfault]; trivial)
      rintro rfl
      cases hfault
    obtain ⟨w, hwait, hiff⟩ := hwait_of hcut
    rw [hwait] at hobj
    refine ⟨hcut, hiff.mp hobj, fun hdrop => ?_⟩
    have hle := (List.dropLast_prefix chunks).flatten.length_le
    rw [hdrop] at hle
    omega
  · rintro ⟨hcut, hsuffices, -⟩
    obtain ⟨w, hwait, hiff⟩ := hwait_of hcut
    refine ⟨⟨fun k _ => ?_, fun _ => ?_⟩, ?_⟩
    · have hk := (List.take_prefix k chunks).flatten
      have hcut' : AtMostOneCut (Schema.podSpans s 0 obj)
          (chunkEnds 0 ((chunks.take k).map List.length)) := by
        rw [← List.take_append_drop k chunks, List.map_append, chunkEnds_append] at hcut
        exact hcut.of_append
      obtain ⟨w', hwait', -⟩ := (Schema.readCoro_halts hfresh hfits (hk.trans hbegins)
        (hk.length_le.trans_lt hlt)).1 hcut'
      rw [List.nil_append, hwait']
      exact Outcome.not_settled_wait w'
    · rw [List.nil_append, hwait]
      exact id
    · rw [hwait]
      exact hiff.mpr hsuffices

lemma arrives_iff (hfresh : Schema.Fresh s target) (hfits : Schema.Fits s obj)
    (hbegins : chunks.flatten <+: Schema.flat s obj) :
    Takes s target [] chunks ∧ (s.readCoro target chunks).obj = obj ↔
      Arrives s target obj chunks := by
  rcases hbegins.length_le.eq_or_lt with heq | hlt
  · exact arrives_iff_of_eq hfresh hfits (hbegins.eq_of_length heq)
  · exact arrives_iff_of_lt hfresh hfits hbegins hlt

end Arrives

/-! ## The chunks that are offered -/

/-- Chunks of which the last one is marked. -/
def lastFlagged (cs : List (List UInt8)) : List (List UInt8 × Bool) :=
  cs.dropLast.map (·, false) ++ cs.getLast?.toList.map (·, true)

section LastFlagged

variable {env : Env} {s : Schema} {obj : s.Val} {raw : List BufT}

@[simp] lemma Env.bytes_chunkBuf (env : Env) (i : ℕ) (c : List UInt8) :
    (env.chunkBuf i c).bytes = c := List.take_left

@[simp] lemma lastFlagged_append_singleton (cs : List (List UInt8)) (c : List UInt8) :
    lastFlagged (cs ++ [c]) = cs.map (·, false) ++ [(c, true)] := by
  simp [lastFlagged]

/-- The writer marks its last chunk and no other. -/
lemma RawChunks.offered_eq (hraw : RawChunks env s obj raw) :
    offered raw = lastFlagged (raw.map BufT.bytes) := by
  obtain ⟨front, t, rfl, hlast, hfront⟩ := hraw.last
  rw [List.map_append, List.map_singleton, lastFlagged_append_singleton, offered, List.map_append,
    List.map_map, List.map_singleton, hlast]
  congr 1
  exact List.map_congr_left fun t ht => by rw [Function.comp_apply, hfront t ht]

/-- What `deflate` is offered is what the value is cut into. -/
lemma serializeObject_offered (hwritable : Writable env s obj) (hsums : SumsFit env s obj) :
    ∃ cs raw, s.chunks env obj = some cs ∧ serializeObject env s obj = .ok raw ∧
      RawChunks env s obj raw ∧ offered raw = lastFlagged cs := by
  obtain ⟨raw, hwrite, hraw⟩ := serializeObject_spec hwritable hsums
  have hbody := max_le hwritable.four_le hwritable.pod_le
  cases hcs : s.chunks env obj with
  | none =>
    obtain ⟨e, herror⟩ := (serializeObject_fills hbody).2 hcs
    rw [hwrite] at herror
    cases herror
  | some cs =>
    obtain ⟨raw', hwrite', hbufs, -⟩ := (serializeObject_fills hbody).1 cs hcs
    obtain rfl := Except.ok.inj (hwrite.symm.trans hwrite')
    have hbytes : raw.map BufT.bytes = cs := by
      have hmap : raw.map BufT.bytes = (raw.map BufT.buf).map Buf.bytes :=
        List.map_map.symm
      rw [hmap, hbufs]
      refine List.ext_getElem? fun i => ?_
      have hbytes : Buf.bytes ∘ env.chunkBuf i = id := funext (env.bytes_chunkBuf i)
      rw [List.getElem?_map, List.getElem?_mapIdx, Option.map_map, hbytes, Option.map_id_apply]
    exact ⟨cs, raw, rfl, hwrite, hraw, by rw [hraw.offered_eq, hbytes]⟩

end LastFlagged

/-! ## Messages of compressed bodies -/

section Messages

variable {u : Setup} {t e : BufT}

/-- A compressed body that is not encrypted. -/
lemma BufT.RawChunk.opensCompressed (ht : t.RawChunk u.env) (key : AesKey) (messageId : Int32)
    (level : Int8) (sequenceId messageSequenceId : Int32) :
    OpensCompressed u key (makeMessage ⟨messageId, SerializeMethod.compress, level⟩ sequenceId
      messageSequenceId t) t.bytes := by
  obtain ⟨hcompress, hencrypt⟩ := SerializeMethod.hasFlag_compress
  have hnull : Deserializer.bodyIsNull (makeMessage ⟨messageId, SerializeMethod.compress, level⟩
      sequenceId messageSequenceId t) = false := by
    have hne : t.buf.buf ≠ [] := by
      rw [← List.length_pos_iff, ht.length_buf]
      exact ht.bufLen_pos.trans_le ht.bufLen_le
    have hempty : t.buf.buf.isEmpty = false := by simpa using hne
    exact (congrArg _ hempty).trans (Bool.and_false _)
  refine ⟨hcompress, hnull, fun i => ⟨(makeMessage ⟨messageId, SerializeMethod.compress, level⟩
    sequenceId messageSequenceId t).body, ?_, ht.bytes_makeMessage _ _ _⟩⟩
  rw [Deserializer.openBody, makeMessage_isEncrypted]
  dsimp only
  rw [hencrypt]
  rfl

/-- A compressed body that is encrypted. -/
lemma Encrypted.opensCompressed {key : AesKey} (h : Encrypted u.crypto key t e)
    (hblock : aesBlockSize ∣ u.env.maxBody) (ht : t.RawChunk u.env) (messageId : Int32)
    (level : Int8) (sequenceId messageSequenceId : Int32) :
    OpensCompressed u key (makeMessage
      ⟨messageId, SerializeMethod.compress ||| SerializeMethod.encrypt, level⟩ sequenceId
      messageSequenceId e) t.bytes := by
  obtain ⟨hcompress, hencrypt⟩ := SerializeMethod.hasFlag_compress_encrypt
  have hnull : Deserializer.bodyIsNull (makeMessage
      ⟨messageId, SerializeMethod.compress ||| SerializeMethod.encrypt, level⟩ sequenceId
      messageSequenceId e) = false := by
    rw [Deserializer.bodyIsNull, makeMessage_isEncrypted]
    dsimp only
    rw [hencrypt]
    rfl
  exact ⟨hcompress, hnull, (h.opensFrame hblock ht.bufLen_le ht.length_buf
    ⟨messageId, SerializeMethod.compress ||| SerializeMethod.encrypt, level⟩ hencrypt
    sequenceId messageSequenceId).opens⟩

variable {fetch : ℕ → Int32} {messageId : Int32} {level : Int8} {s : Schema} {obj : s.Val}
  {raw : List BufT}

/-- Both overloads fail where there is nothing `deflate` writes. -/
lemma serializeCompress_error (hz : u.zlib.Contract) (hraw : RawChunks u.env s obj raw)
    (hwrite : serializeObject u.env s obj = .ok raw)
    (hnone : u.zlib.deflated u.env.maxBody level (offered raw) = none) :
    ∃ e, serializeCompress u fetch messageId obj level = .error e := by
  obtain ⟨e, he⟩ := (compressBuf_spec hz hraw level).1 hnone
  exact ⟨e, by rw [serializeCompress, hwrite, ok_bind, he, error_bind]⟩

/-- Elsewhere the messages of both open to it, in pieces, and it is what `deflate` makes of the
encoding. -/
lemma serializeCompress_spec (fetch : ℕ → Int32) (messageId : Int32) (hz : u.zlib.Contract)
    (hblock : aesBlockSize ∣ u.env.maxBody)
    (hraw : RawChunks u.env s obj raw) (hwrite : serializeObject u.env s obj = .ok raw)
    {written : List UInt8}
    (hwritten : u.zlib.deflated u.env.maxBody level (offered raw) = some written) (key : AesKey) :
    (∃ ms, serializeCompress u fetch messageId obj level = .ok ms ∧ ms ≠ [] ∧
      List.Forall₂ (OpensCompressed u key) ms (pieces u.env.maxBody written)) ∧
    (∃ ms, serializeCompressEncrypt u fetch messageId obj level key = .ok ms ∧ ms ≠ [] ∧
      List.Forall₂ (OpensCompressed u key) ms (pieces u.env.maxBody written)) ∧
    ∀ ys, u.zlib.Inflates u.env.maxBody (pieces u.env.maxBody written) ys →
      ys.flatten <+: Schema.flat s obj := by
  obtain ⟨bodies, hcompress, hbodies, st, phase, hd, hrest⟩ :=
    (compressBuf_spec hz hraw level).2 written hwritten
  have hpieces := hbodies.map_bytes
  obtain ⟨front, t, rfl, -, -⟩ := hbodies.last
  have ht := hbodies.raw t (by simp)
  have hnonempty : ∀ {ms : List OMessage},
      List.Forall₂ (OpensCompressed u key) ms (pieces u.env.maxBody written) → ms ≠ [] := by
    rintro _ hopen rfl
    rw [List.forall₂_nil_left_iff, ← hpieces] at hopen
    simp at hopen
  obtain ⟨es, hencrypt, hes⟩ := encryptBodies_spec u.crypto key hblock hbodies.raw 0
  refine ⟨?_, ?_, fun ys hys => ?_⟩
  · have hopen : List.Forall₂ (OpensCompressed u key)
        (makeMessageFromBuf ⟨messageId, SerializeMethod.compress, level⟩ fetch (front ++ [t]))
        (pieces u.env.maxBody written) := by
      rw [← hpieces]
      have hsame : List.Forall₂ (fun body t => body = t ∧ t.RawChunk u.env) (front ++ [t])
          (front ++ [t]) := List.forall₂_same.mpr fun t ht => ⟨rfl, hbodies.raw t ht⟩
      refine List.forall₂_map_right_iff.mpr (forall₂_makeMessages ?_ hsame fetch 0 1)
      rintro t _ ⟨rfl, ht⟩ sequenceId messageSequenceId
      exact ht.opensCompressed key messageId level sequenceId messageSequenceId
    refine ⟨_, ?_, hnonempty hopen, hopen⟩
    rw [serializeCompress, hwrite, ok_bind, hcompress]
    rfl
  · have hopen : List.Forall₂ (OpensCompressed u key)
        (makeMessageFromBuf
          ⟨messageId, SerializeMethod.compress ||| SerializeMethod.encrypt, level⟩ fetch es)
        (pieces u.env.maxBody written) := by
      rw [← hpieces]
      refine List.forall₂_map_right_iff.mpr (forall₂_makeMessages ?_ hes fetch 0 1)
      rintro e t ⟨ht, hencrypted⟩ sequenceId messageSequenceId
      exact hencrypted.opensCompressed hblock ht messageId level sequenceId messageSequenceId
    refine ⟨_, ?_, hnonempty hopen, hopen⟩
    rw [serializeCompressEncrypt, hwrite, ok_bind, hcompress, ok_bind, encryptBuf, hencrypt]
    rfl
  · have hxs : (pieces u.env.maxBody written).flatten <+: written := by
      rw [← hpieces, hbodies.flatten_eq]
    have hbegins := hz.inflates_prefix (ht.bufLen_pos.trans_le ht.bufLen_le) hd hxs hys
    rwa [hrest, List.append_nil] at hbegins

end Messages

/-! ## The round trip -/

/-- The messages of `Serialize(messageId, obj, compressLevel)`, and with the same key those of
`Serialize(messageId, obj, compressLevel, key)`, make `Deserialize` return `true` with `obj`. -/
def CompressedRoundTrips (u : Setup) (fetch : ℕ → Int32) (messageId : Int32) (level : Int8)
    (key : AesKey) (s : Schema) (target obj : s.Val) : Prop :=
  (∃ ms, serializeCompress u fetch messageId obj level = .ok ms ∧
    ∃ enough, ∀ turns ≥ enough, deserialize u key s target turns ms = .returned true obj) ∧
  ∃ ms, serializeCompressEncrypt u fetch messageId obj level key = .ok ms ∧
    ∃ enough, ∀ turns ≥ enough, deserialize u key s target turns ms = .returned true obj

/-- What zlib makes of the chunks the value is cut into, in the buffers it is given on both sides,
makes the object into `obj`. -/
def Survives (u : Setup) (level : Int8) (s : Schema) (target obj : s.Val) : Prop :=
  ∃ cs written ys, s.chunks u.env obj = some cs ∧
    u.zlib.deflated u.env.maxBody level (lastFlagged cs) = some written ∧
    u.zlib.Inflates u.env.maxBody (pieces u.env.maxBody written) ys ∧ Arrives s target obj ys

/-- With a `MAX_MESSAGE_BODY_LENGTH` of whole blocks and a zlib that keeps its contract,
compressed messages take an object there and back exactly when the lengths in it fit in
`int32_t`, no sum in `EnsureBuffer` leaves `int32_t`, and what comes out of zlib arrives. -/
theorem compressedRoundTrips_iff_survives (u : Setup) (hz : u.zlib.Contract) (fetch : ℕ → Int32)
    (messageId : Int32) (level : Int8) (key : AesKey) (s : Schema) (target obj : s.Val)
    (hfresh : Schema.Fresh s target) (hpod : s.largestPod ≤ u.env.maxBody)
    (hblock : aesBlockSize ∣ u.env.maxBody) :
    CompressedRoundTrips u fetch messageId level key s target obj ↔
      Schema.Fits s obj ∧ SumsFit u.env s obj ∧ Survives u level s target obj := by
  constructor
  · rintro ⟨⟨ms, hserialize, hrun⟩, -⟩
    obtain ⟨enough, hall⟩ := hrun
    have hfits := fits_of_deserialize hfresh (hall enough le_rfl)
    have hwritable := writable_of_blocks hfits hpod hblock
    have hsums : SumsFit u.env s obj := by
      obtain ⟨chunks, hwrite, -⟩ := exists_of_bind_eq_ok hserialize
      exact sumsFit_of_serializeObject hwritable hwrite
    obtain ⟨cs, raw, hcs, hwrite, hraw, hoffered⟩ := serializeObject_offered hwritable hsums
    cases hwritten : u.zlib.deflated u.env.maxBody level (offered raw) with
    | none =>
      obtain ⟨e, herror⟩ := serializeCompress_error hz hraw hwrite hwritten
      rw [herror] at hserialize
      cases hserialize
    | some written =>
      obtain ⟨⟨ms', hserialize', hne, hopen⟩, -, hbegins⟩ :=
        serializeCompress_spec fetch messageId hz hblock hraw hwrite hwritten key
      obtain rfl := Except.ok.inj (hserialize.symm.trans hserialize')
      obtain ⟨ys, hys, htakes, hobj⟩ :=
        (deserialize_inflates_eventually_iff hopen hne).mp ⟨enough, hall⟩
      rw [hoffered] at hwritten
      exact ⟨hfits, hsums, cs, written, ys, hcs, hwritten, hys,
        (arrives_iff hfresh hfits (hbegins ys hys)).mp ⟨htakes, hobj⟩⟩
  · rintro ⟨hfits, hsums, cs, written, ys, hcs, hwritten, hys, harrives⟩
    obtain ⟨cs', raw, hcs', hwrite, hraw, hoffered⟩ :=
      serializeObject_offered (writable_of_blocks hfits hpod hblock) hsums
    obtain rfl := Option.some.inj (hcs.symm.trans hcs')
    rw [← hoffered] at hwritten
    obtain ⟨⟨ms₁, hserialize₁, hne₁, hopen₁⟩, ⟨ms₂, hserialize₂, hne₂, hopen₂⟩, hbegins⟩ :=
      serializeCompress_spec fetch messageId hz hblock hraw hwrite hwritten key
    obtain ⟨htakes, hobj⟩ := (arrives_iff hfresh hfits (hbegins ys hys)).mpr harrives
    exact ⟨⟨ms₁, hserialize₁,
        (deserialize_inflates_eventually_iff hopen₁ hne₁).mpr ⟨ys, hys, htakes, hobj⟩⟩,
      ms₂, hserialize₂,
        (deserialize_inflates_eventually_iff hopen₂ hne₂).mpr ⟨ys, hys, htakes, hobj⟩⟩

/-! ## Two objects -/

/-- A build with buffers of one block that stores instead of compressing. -/
def Setup.stored (crypto : Crypto) : Setup where
  env := (Setup.plain 16 sixteen_lt).env
  crypto := crypto
  zlib := Zlib.stored

/-- `"abcd"`. -/
def abcd : Schema.string.Val := [97, 98, 99, 100]

/-- The stream of a string of four letters takes nineteen bytes.  All of the encoding is in the
first body, and the reader returns on it; the second body has the rest of the checksum, for
which `Deserialize` pushes an empty chunk. -/
theorem not_compressedRoundTrips_abcd :
    Zlib.stored.Contract ∧ Schema.Fits .string abcd ∧
      SumsFit (Setup.stored .unused).env .string abcd ∧
      Schema.string.largestPod ≤ 16 ∧ aesBlockSize ∣ 16 ∧
      ¬CompressedRoundTrips (Setup.stored .unused) (fun i => .ofNat i) 1 0 zeroKey .string
        Schema.string.zero abcd := by
  refine ⟨Stored.contract, by decide, by decide, by decide, by decide, ?_⟩
  rintro ⟨⟨ms, hserialize, enough, hrun⟩, -⟩
  have hms : serializeCompress (Setup.stored .unused) (fun i => .ofNat i) 1 abcd 0 =
      .ok (makeMessageFromBuf ⟨1, SerializeMethod.compress, 0⟩ (fun i => .ofNat i)
        [⟨⟨[0x78, 0x01, 0x01, 8, 0, 0xf7, 0xff, 4, 0, 0, 0, 97, 98, 99, 100, 0x03], 16⟩, 0, 0,
            false⟩,
          ⟨⟨[0xfc, 0x01, 0x8f, 0, 0, 0, 0, 0, 0, 0, 0, 0, 0, 0, 0, 0], 3⟩, 0, 0, true⟩]) := by
    rfl
  obtain rfl := Except.ok.inj (hms.symm.trans hserialize)
  cases hrun (enough + 2) (by omega)

/-- An `int32_t`. -/
def oneToFour : Schema.fourBytes.Val := ⟨[1, 2, 3, 4], rfl⟩

/-- What AES makes of the stream of that value and a byte behind it under a key of zeros, and
the checksum of the stream. -/
def Crypto.ofOneToFour : Crypto :=
  .ofBlock
    ⟨[0x78, 0x01, 0x01, 4, 0, 0xfb, 0xff, 1, 2, 3, 4, 0x00, 0x18, 0x00, 0x0b, 0], rfl⟩
    ⟨[0x8f, 0xc6, 0xe6, 0x7b, 0x6a, 0x23, 0x70, 0x5a, 0x65, 0xc3, 0xf3, 0xcd, 0xcb, 0x1b, 0xf1,
      0xec], rfl⟩ 0x51bc83fc

/-- Four bytes and what zlib puts around them fill a body but for one byte. -/
theorem compressedRoundTrips_oneToFour :
    CompressedRoundTrips (Setup.stored .ofOneToFour) (fun i => .ofNat i) 1 0 zeroKey
      Schema.fourBytes Schema.fourBytes.zero oneToFour :=
  (compressedRoundTrips_iff_survives (Setup.stored .ofOneToFour) Stored.contract
    (fun i => .ofNat i) 1 0 zeroKey Schema.fourBytes Schema.fourBytes.zero oneToFour
    (Schema.fresh_zero _) (by decide) (by decide)).mpr
    ⟨trivial, by decide, [[1, 2, 3, 4]],
      [0x78, 0x01, 0x01, 4, 0, 0xfb, 0xff, 1, 2, 3, 4, 0x00, 0x18, 0x00, 0x0b], [[1, 2, 3, 4]],
      rfl, rfl, ⟨1, rfl⟩, by decide, Schema.suffices_of_le _ _ (by decide), by decide⟩

end OldPart
