import OldPart.Proto.WriteCorrect
import OldPart.Serializer.DeserializeCorrect

/-!
# Plain messages there and back

What `Serialize` makes of an object without compression or encryption, `Deserialize` makes
into that object again: the chunks of the writer cut no POD and no length prefix, so the
reader takes them, and it returns on the last one because that is not empty.
-/

namespace OldPart

/-! ## A cut that the reader takes to its end -/

/-- The reader returns with `v`, and on the last of the chunks. -/
def ReturnsOnLast (s : Schema) (target v : s.Val) (chunks : List (List UInt8)) : Prop :=
  (∃ c, s.readCoro target chunks = .done v c ∧ c.rest = []) ∧
    ∀ k < chunks.length, ∃ w, s.readCoro target (chunks.take k) = .wait w

section Takes

variable {s : Schema} {target v : s.Val} {chunks : List (List UInt8)}

lemma ReturnsOnLast.takes (h : ReturnsOnLast s target v chunks) : Takes s target [] chunks := by
  obtain ⟨⟨c, hdone, -⟩, hwait⟩ := h
  constructor
  · intro k hk
    obtain ⟨w, hw⟩ := hwait k hk
    rw [List.nil_append, hw]
    exact Outcome.not_settled_wait w
  · intro _
    rw [List.nil_append, hdone]
    exact id

/-- A cut of an encoding whose last chunk is not empty: the reader returns on that chunk. -/
lemma returnsOnLast_of_atMostOneCut (target : s.Val) (hfits : Schema.Fits s v)
    (hflat : chunks.flatten = Schema.flat s v)
    (hcut : AtMostOneCut (Schema.podSpans s 0 v) (chunkEnds 0 (chunks.map List.length)))
    {front : List (List UInt8)} {last : List UInt8} (hchunks : chunks = front ++ [last])
    (hlast : last ≠ []) : ReturnsOnLast s target (Schema.overlay s target v) chunks := by
  obtain ⟨x, xs, rfl⟩ := Schema.exists_cons_of_flatten_eq_flat hflat
  have hrem : (Cursor.mk x 0 xs).remaining = Schema.flat s v ++ [] := by
    rw [List.append_nil]
    exact hflat
  obtain ⟨c, hdone, hadv⟩ := (s.read_spec 0 target v hfits hrem).done_of hcut
  have hrest : c.rest = [] := by
    rw [← hflat] at hadv
    exact Cursor.Advance.rest_eq_nil hchunks hlast hadv
  have hstatus : status (s.read target) target (x :: xs) = .done (s.overlay target v) c := hdone
  exact ⟨⟨c, hdone, hrest⟩, fun k hk => status_take_eq_wait (s.read_local target) hstatus hrest hk⟩

end Takes

/-! ## Messages of the writer's chunks -/

section RawChunks

variable {env : Env} {s : Schema} {obj : s.Val} {chunks : List BufT}

/-- The chunks of the writer are a cut the reader takes to its end. -/
lemma RawChunks.returnsOnLast (h : RawChunks env s obj chunks) (hfits : Schema.Fits s obj)
    (target : s.Val) :
    ReturnsOnLast s target (Schema.overlay s target obj) (chunks.map BufT.bytes) := by
  obtain ⟨front, t, rfl, -, -⟩ := h.last
  have hpos : ∀ l ∈ ((front ++ [t]).map BufT.bytes).map List.length, 0 < l := by
    intro l hl
    obtain ⟨bs, hbs, rfl⟩ := List.mem_map.mp hl
    obtain ⟨b, hb, rfl⟩ := List.mem_map.mp hbs
    rw [(h.raw b hb).length_bytes]
    exact (h.raw b hb).bufLen_pos
  have huncut := h.uncut
  have hmap : (front ++ [t]).map (fun t => t.bytes.length) =
      ((front ++ [t]).map BufT.bytes).map List.length := by
    rw [List.map_map]
    rfl
  rw [hmap] at huncut
  refine returnsOnLast_of_atMostOneCut target hfits h.flatten_eq
    (huncut.atMostOneCut (chunkEnds_pairwise_lt hpos)) List.map_append ?_
  apply List.ne_nil_of_length_pos
  exact hpos _ (by simp)

lemma RawChunks.forall₂ (h : RawChunks env s obj chunks) :
    List.Forall₂ (fun body t => body = t ∧ t.RawChunk env) chunks chunks :=
  List.forall₂_same.mpr fun t ht => ⟨rfl, h.raw t ht⟩

lemma RawChunks.ne_nil (h : RawChunks env s obj chunks) : chunks ≠ [] := by
  obtain ⟨front, t, rfl, -, -⟩ := h.last
  simp

end RawChunks

/-- When each message of a stream opens to a chunk of the writer, `Deserialize` returns
`true` and has read the object over what there was. -/
lemma RawChunks.deserialize_overlay {u : Setup} {key : AesKey} {turns : ℕ} {s : Schema}
    {obj : s.Val} {chunks : List BufT} {ms : List OMessage} (h : RawChunks u.env s obj chunks)
    (hfits : Schema.Fits s obj) (target : s.Val)
    (hopen : List.Forall₂ (fun m t => OpensTo u key m t.bytes) ms chunks) :
    deserialize u key s target turns ms = .returned true (Schema.overlay s target obj) := by
  have hreturns := h.returnsOnLast hfits target
  obtain ⟨c, hdone, -⟩ := hreturns.1
  have hopen' : List.Forall₂ (OpensTo u key) ms (chunks.map BufT.bytes) :=
    List.forall₂_map_right_iff.mpr hopen
  refine (deserialize_eq_true_iff hopen').mpr ⟨?_, hreturns.takes, by rw [hdone]; rfl⟩
  rintro rfl
  exact h.ne_nil (List.forall₂_nil_left_iff.mp hopen)

/-- With a fresh object, that is the object written. -/
lemma RawChunks.deserialize_eq {u : Setup} {key : AesKey} {turns : ℕ} {s : Schema}
    {target obj : s.Val} {chunks : List BufT} {ms : List OMessage}
    (h : RawChunks u.env s obj chunks) (hfits : Schema.Fits s obj) (hfresh : Schema.Fresh s target)
    (hopen : List.Forall₂ (fun m t => OpensTo u key m t.bytes) ms chunks) :
    deserialize u key s target turns ms = .returned true obj := by
  rw [h.deserialize_overlay hfits target hopen, Schema.overlay_of_fresh hfresh]

/-! ## The round trip -/

/-- The messages of `Serialize(messageId, obj)`, fed to `Deserialize` in order, make it
return `true` with `obj`; the reader returns on the last of them and waits before. -/
def RoundTrips (u : Setup) (fetch : ℕ → Int32) (messageId : Int32) (key : AesKey) (turns : ℕ)
    (s : Schema) (target obj : s.Val) : Prop :=
  ∃ ms, serialize u fetch messageId obj = .ok ms ∧
    deserialize u key s target turns ms = .returned true obj ∧
    ReturnsOnLast s target obj (ms.map OMessage.bytes)

/-- The body of a message made of a chunk of the writer is that chunk. -/
lemma BufT.RawChunk.bytes_makeMessage {env : Env} {t : BufT} (h : t.RawChunk env) (stamp : Stamp)
    (sequenceId messageSequenceId : Int32) :
    (makeMessage stamp sequenceId messageSequenceId t).bytes = t.bytes := by
  have hlt := lt_of_le_of_lt h.bufLen_le env.maxBody_lt
  rw [OMessage.bytes, makeMessage_body stamp sequenceId messageSequenceId hlt]
  rfl

/-- Plain messages of the writer's chunks open to them. -/
lemma RawChunks.opens_plain {u : Setup} {s : Schema} {obj : s.Val}
    {chunks : List BufT} (h : RawChunks u.env s obj chunks) (key : AesKey) (fetch : ℕ → Int32)
    (messageId : Int32) :
    List.Forall₂ (fun m t => m.bytes = t.bytes ∧ OpensTo u key m t.bytes)
      (makeMessageFromBuf ⟨messageId, SerializeMethod.none, 0⟩ fetch chunks) chunks := by
  refine forall₂_makeMessages ?_ h.forall₂ fetch 0 1
  rintro t _ ⟨rfl, ht⟩ sequenceId messageSequenceId
  have hbytes := ht.bytes_makeMessage ⟨messageId, SerializeMethod.none, 0⟩ sequenceId
    messageSequenceId
  refine ⟨hbytes, ?_⟩
  rw [← hbytes]
  exact opensTo_of_plain SerializeMethod.hasFlag_none.1 SerializeMethod.hasFlag_none.2

/-- Plain messages take an object there and back exactly when no sum in `EnsureBuffer`
leaves `int32_t`. -/
theorem roundTrips_iff_sumsFit (u : Setup) (fetch : ℕ → Int32) (messageId : Int32) (key : AesKey)
    (turns : ℕ) (s : Schema) (target obj : s.Val) (hfresh : Schema.Fresh s target)
    (h : Writable u.env s obj) :
    RoundTrips u fetch messageId key turns s target obj ↔ SumsFit u.env s obj := by
  constructor
  · rintro ⟨ms, hserialize, -, -⟩
    obtain ⟨chunks, hwrite, -⟩ := exists_of_bind_eq_ok hserialize
    exact sumsFit_of_serializeObject h hwrite
  · intro hsums
    obtain ⟨chunks, hwrite, hraw⟩ := serializeObject_spec h hsums
    have hopen := hraw.opens_plain key fetch messageId
    refine ⟨makeMessageFromBuf ⟨messageId, SerializeMethod.none, 0⟩ fetch chunks, ?_, ?_, ?_⟩
    · rw [serialize, hwrite]
      rfl
    · exact hraw.deserialize_eq h.fits hfresh (hopen.imp fun _ _ hm => hm.2)
    · have hbytes : (makeMessageFromBuf ⟨messageId, SerializeMethod.none, 0⟩ fetch chunks).map
          OMessage.bytes = chunks.map BufT.bytes := by
        rw [← List.forall₂_eq_eq_eq, List.forall₂_map_left_iff, List.forall₂_map_right_iff]
        exact hopen.imp fun _ _ hm => hm.1
      have hreturns := hraw.returnsOnLast h.fits target
      rwa [Schema.overlay_of_fresh hfresh, ← hbytes] at hreturns

/-! ## Two objects -/

/-- A zlib that refuses every level, for runs that do not compress. -/
def Zlib.unused : Zlib where
  Deflate := Unit
  Inflate := Unit
  deflateInit _ := none
  deflate _ _ _ _ := ⟨(), 0, [], .streamError⟩
  inflateInit := ()
  inflate _ _ _ := ⟨(), 0, [], .streamError⟩
  deflate_consumed_le _ _ _ _ := Nat.zero_le _
  deflate_out_le _ _ _ _ := Nat.zero_le _
  inflate_consumed_le _ _ _ := Nat.zero_le _
  inflate_out_le _ _ _ := Nat.zero_le _

/-- A cipher and a checksum for runs that do not encrypt. -/
def Crypto.unused : Crypto where
  aes _ := Equiv.refl _
  cbcTail _ _ _ := List.Vector.replicate _ 0
  crc _ := 0

/-- A build with the given `MAX_MESSAGE_BODY_LENGTH` for runs with plain messages. -/
def Setup.plain (maxBody : ℕ) (h : maxBody < 2 ^ 31) : Setup where
  env := ⟨maxBody, h, fun _ => 0, fun _ _ _ => 0⟩
  crypto := Crypto.unused
  zlib := Zlib.unused

/-- A `MAX_MESSAGE_BODY_LENGTH` of one block. -/
lemma sixteen_lt : 16 < 2 ^ 31 := by decide

/-- A key for runs that do not encrypt. -/
def zeroKey : AesKey := List.Vector.replicate 16 0

/-- One byte and then a POD as large as the largest buffer. -/
def byteAndHuge : Schema := .field (.pod ⟨1, by decide⟩) (.pod ⟨2 ^ 31 - 1, by decide⟩)

/-- Zeros. -/
def byteAndHugeValue : byteAndHuge.Val :=
  (List.Vector.replicate 1 0, List.Vector.replicate (2 ^ 31 - 1) 0)

/-- With the largest `MAX_MESSAGE_BODY_LENGTH` there is, `offset + eleSize` overflows behind
the byte, and the large POD is written behind it instead of into a new buffer. -/
theorem not_roundTrips_byteAndHuge :
    Writable (Setup.plain (2 ^ 31 - 1) (by decide)).env byteAndHuge byteAndHugeValue ∧
      ¬RoundTrips (Setup.plain (2 ^ 31 - 1) (by decide)) (fun i => .ofNat i) 1 zeroKey 0
        byteAndHuge byteAndHuge.zero byteAndHugeValue := by
  have hwritable : Writable (Setup.plain (2 ^ 31 - 1) (by decide)).env byteAndHuge
      byteAndHugeValue := ⟨⟨trivial, trivial⟩, by decide, by decide⟩
  refine ⟨hwritable, ?_⟩
  rintro ⟨ms, hserialize, -, -⟩
  obtain ⟨chunks, hwrite, -⟩ := exists_of_bind_eq_ok hserialize
  exact absurd (sumsFit_of_serializeObject hwritable hwrite) (by decide)

/-- An `int32_t`, a string and a vector of bytes. -/
def intStringBytes : Schema :=
  .field (.pod int32Size) (.field .string (.vector (.pod ⟨1, by decide⟩)))

/-- A value of it that takes four buffers of eight bytes. -/
def intStringBytesValue : intStringBytes.Val :=
  (⟨[2, 0, 0, 0], rfl⟩, [111, 107, 44, 32, 105, 39, 109], [⟨[7], rfl⟩, ⟨[8], rfl⟩, ⟨[9], rfl⟩])

theorem roundTrips_intStringBytes :
    RoundTrips (Setup.plain 8 (by decide)) (fun i => .ofNat i) 1 zeroKey 0 intStringBytes
      intStringBytes.zero intStringBytesValue :=
  (roundTrips_iff_sumsFit (Setup.plain 8 (by decide)) (fun i => .ofNat i) 1 zeroKey 0
    intStringBytes intStringBytes.zero intStringBytesValue (Schema.fresh_zero _)
    ⟨by decide, by decide, by decide⟩).mpr (by decide)

end OldPart
