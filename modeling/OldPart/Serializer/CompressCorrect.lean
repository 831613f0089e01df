import OldPart.Proto.WriteCorrect
import OldPart.Serializer.Serialize
import OldPart.Serializer.ZLibContract

/-!
# What `CompressBuf` yields

`CompressBuf` gives the chunks of the writer to `deflate` and yields the buffers it fills.
Put together they are what `deflate` writes when it is called in this way, in pieces of
`MAX_MESSAGE_BODY_LENGTH` bytes; and where a call takes nothing, an assertion fails.
-/

namespace OldPart

variable {u : Setup}

/-! ## One call -/

/-- A buffer as `MakeBuffer` makes it. -/
structure Buf.Whole (env : Env) (b : Buf) : Prop where
  bufLen_eq : b.bufLen = env.maxBody
  length_eq : b.buf.length = env.maxBody

lemma Env.whole_makeBuffer (env : Env) (who : Maker) (i : ℕ) : (env.makeBuffer who i).Whole env :=
  ⟨env.bufLen_makeBuffer who i, env.length_makeBuffer who i⟩

/-- What is in the buffer so far. -/
def ZLibCompressBuf.pending {zlib : Zlib} (b : ZLibCompressBuf zlib) : List UInt8 :=
  b.outBuf.buf.take b.getOutLen

/-- `compressedBuf` is at work as `f` is. -/
structure ZLibCompressBuf.Fills (env : Env) {zlib : Zlib} (b : ZLibCompressBuf zlib)
    (f : Zlib.Filling zlib) : Prop where
  strm_eq : b.strm = f.strm
  availOut_eq : b.availOut = f.room
  room_le : f.room ≤ env.maxBody
  whole : b.outBuf.Whole env

namespace ZLibCompressBuf.Fills

variable {env : Env} {zlib : Zlib} {b : ZLibCompressBuf zlib} {f : Zlib.Filling zlib}

lemma getOutLen_eq (h : b.Fills env f) : b.getOutLen = env.maxBody - f.room := by
  rw [getOutLen, h.whole.bufLen_eq, h.availOut_eq]

lemma isFull_iff (h : b.Fills env f) : b.isFull = true ↔ f.room = 0 := by
  have hle := h.room_le
  rw [isFull, beq_iff_eq, h.getOutLen_eq, h.whole.bufLen_eq]
  omega

lemma length_pending (h : b.Fills env f) : b.pending.length = env.maxBody - f.room := by
  rw [pending, h.getOutLen_eq, List.length_take, h.whole.length_eq]
  omega

/-- `Compress`, when `deflate` does not refuse. -/
lemma compress_eq (h : b.Fills env f) (input : List UInt8) (isLast : Bool)
    (hret : (zlib.deflate f.strm input f.room isLast).ret ≠ .streamError) :
    ∃ b', b.compress input isLast =
        .ok ((zlib.deflate f.strm input f.room isLast).consumed, b') ∧
      b'.Fills env (f.call input isLast) ∧
      b'.pending = b.pending ++ (zlib.deflate f.strm input f.room isLast).out ∧
      b'.needMoreMemory4Tail =
        (isLast && (zlib.deflate f.strm input f.room isLast).ret == .ok) := by
  have hout := zlib.deflate_out_le f.strm input f.room isLast
  have hroom := h.room_le
  have hlen := h.getOutLen_eq
  have hfits : b.getOutLen + (zlib.deflate f.strm input f.room isLast).out.length ≤
      b.outBuf.buf.length := by
    rw [hlen, h.whole.length_eq]
    omega
  obtain ⟨buf, hcopy, hbufLen, hlength, htake⟩ := Buf.copyN_spec hfits
  have hfills : ZLibCompressBuf.Fills env ⟨(zlib.deflate f.strm input f.room isLast).state, buf,
      f.room - (zlib.deflate f.strm input f.room isLast).out.length,
      isLast && (zlib.deflate f.strm input f.room isLast).ret == .ok⟩ (f.call input isLast) :=
    ⟨rfl, rfl, (Nat.sub_le _ _).trans hroom, hbufLen.trans h.whole.bufLen_eq,
      hlength.trans h.whole.length_eq⟩
  refine ⟨_, ?_, hfills, ?_, rfl⟩
  · simp only [compress, h.strm_eq, h.availOut_eq, if_neg hret, hcopy, ok_bind]
    rfl
  · have hsum : env.maxBody - (f.call input isLast).room =
        b.getOutLen + (zlib.deflate f.strm input f.room isLast).out.length := by
      rw [hlen, Zlib.Filling.call]
      dsimp only
      omega
    rw [pending, hfills.getOutLen_eq, hsum]
    exact htake

/-- `Reset` to a new buffer. -/
lemma reset (h : b.Fills env f) (who : Maker) (i : ℕ) :
    (b.reset (env.makeBuffer who i)).Fills env { f with room := env.maxBody } ∧
      (b.reset (env.makeBuffer who i)).pending = [] := by
  have hfills : (b.reset (env.makeBuffer who i)).Fills env { f with room := env.maxBody } :=
    ⟨h.strm_eq, rfl, le_rfl, env.whole_makeBuffer who i⟩
  refine ⟨hfills, List.eq_nil_of_length_eq_zero ?_⟩
  rw [hfills.length_pending, Nat.sub_self]

end ZLibCompressBuf.Fills

/-! ## One chunk -/

/-- A buffer that was yielded because it was full. -/
structure BufT.Full (env : Env) (t : BufT) : Prop where
  raw : t.RawChunk env
  bufLen_eq : t.buf.bufLen = env.maxBody
  not_last : t.isLast = false

/-- `CompressBuf` has come as far as `f`: it has yielded full buffers, and is filling another. -/
structure Compressor.Holds (w : Compressor u.zlib) (f : Zlib.Filling u.zlib) : Prop where
  full : ∀ t ∈ w.yielded, t.Full u.env
  fills : w.compressedBuf.Fills u.env f
  written_eq : f.written = (w.yielded.map BufT.bytes).flatten ++ w.compressedBuf.pending

/-- `CompressBuf` is through, and `written` is what it has yielded: full buffers and a last
one. -/
structure Compressed (env : Env) (written : List UInt8) (yielded : List BufT) : Prop where
  raw : ∀ t ∈ yielded, t.RawChunk env
  last : ∃ front t, yielded = front ++ [t] ∧ t.isLast = true ∧ ∀ t ∈ front, t.Full env
  flatten_eq : (yielded.map BufT.bytes).flatten = written

namespace Compressor.Holds

variable {w : Compressor u.zlib} {f : Zlib.Filling u.zlib}

/-- A call of `Compress`. -/
lemma compress (h : Holds w f) (input : List UInt8) (isLast : Bool)
    (hret : (u.zlib.deflate f.strm input f.room isLast).ret ≠ .streamError) :
    ∃ b', w.compressedBuf.compress input isLast =
        .ok ((u.zlib.deflate f.strm input f.room isLast).consumed, b') ∧
      Holds { w with compressedBuf := b' } (f.call input isLast) ∧
      b'.needMoreMemory4Tail =
        (isLast && (u.zlib.deflate f.strm input f.room isLast).ret == .ok) := by
  obtain ⟨b', hrun, hfills, hpending, hmore⟩ := h.fills.compress_eq input isLast hret
  refine ⟨b', hrun, ⟨h.full, hfills, ?_⟩, hmore⟩
  rw [Zlib.Filling.call, h.written_eq, hpending, List.append_assoc]

/-- Yielding a full buffer. -/
lemma flush (h : Holds w f) (hfull : f.room = 0) (hpos : 0 < u.env.maxBody) :
    Holds w.flush { f with room := u.env.maxBody } := by
  obtain ⟨hfills, hpending⟩ := h.fills.reset .compressBuf w.made
  have hlen := h.fills.getOutLen_eq
  have hbytes : BufT.bytes ⟨w.compressedBuf.outBuf, 0, 0, false⟩ = w.compressedBuf.pending := by
    rw [BufT.bytes, Buf.bytes, ZLibCompressBuf.pending, hlen, h.fills.whole.bufLen_eq, hfull,
      Nat.sub_zero]
  refine ⟨fun t ht => ?_, hfills, ?_⟩
  · rcases List.mem_append.mp ht with ht | ht
    · exact h.full t ht
    · obtain rfl := List.mem_singleton.mp ht
      have hbufLen := h.fills.whole.bufLen_eq
      exact ⟨⟨hbufLen.symm ▸ hpos, hbufLen.le, h.fills.whole.length_eq, rfl, rfl⟩, hbufLen, rfl⟩
  · rw [Compressor.flush, hpending, List.map_append, List.flatten_append, List.append_nil,
      h.written_eq]
    simp [hbytes]

/-- Yielding the last buffer. -/
lemma finish (h : Holds w f) (hroom : f.room < u.env.maxBody) :
    Compressed u.env f.written (w.yielded ++
      [⟨{ w.compressedBuf.outBuf with bufLen := w.compressedBuf.getOutLen }, 0, 0, true⟩]) := by
  have hlen := h.fills.getOutLen_eq
  refine ⟨fun t ht => ?_, ⟨w.yielded, _, rfl, rfl, h.full⟩, ?_⟩
  · rcases List.mem_append.mp ht with ht | ht
    · exact (h.full t ht).raw
    · obtain rfl := List.mem_singleton.mp ht
      exact ⟨by dsimp only; omega, by dsimp only; omega, h.fills.whole.length_eq, rfl, rfl⟩
  · rw [List.map_append, List.flatten_append, h.written_eq]
    simp [BufT.bytes, Buf.bytes, ZLibCompressBuf.pending]

end Compressor.Holds

section CompressBody

variable {w : Compressor u.zlib} {f : Zlib.Filling u.zlib} {taken : List UInt8}

/-- Behind a call that leaves something, or is not one of the last chunk, a full buffer is
yielded. -/
lemma afterCompress_renew (hw : w.Holds f) (hpos : 0 < u.env.maxBody) {isLast : Bool}
    {inBuf : List UInt8} (hmore : (isLast && inBuf.isEmpty) = false) :
    ∃ w', w.afterCompress u isLast inBuf = .ok w' ∧ w'.Holds (f.renew u.env.maxBody) ∧
      0 < (f.renew u.env.maxBody).room := by
  have hbranch : (!isLast || !inBuf.isEmpty) = true := by
    rw [← Bool.not_and, hmore]
    rfl
  rw [Compressor.afterCompress, hbranch, Bool.true_and, hmore, Zlib.Filling.renew]
  by_cases hfull : f.room = 0
  · rw [if_pos (hw.fills.isFull_iff.mpr hfull), if_pos hfull]
    exact ⟨w.flush, rfl, hw.flush hfull hpos, hpos⟩
  · rw [if_neg fun h => hfull (hw.fills.isFull_iff.mp h), if_neg hfull]
    exact ⟨w, rfl, hw, by omega⟩

@[simp] lemma strm_renew (size : ℕ) (f : Zlib.Filling u.zlib) : (f.renew size).strm = f.strm := by
  unfold Zlib.Filling.renew
  split <;> rfl

@[simp] lemma written_renew (size : ℕ) (f : Zlib.Filling u.zlib) :
    (f.renew size).written = f.written := by
  unfold Zlib.Filling.renew
  split <;> rfl

/-- The stream does not notice a new buffer. -/
lemma deflating_renew {phase : Zlib.Phase} (hd : u.zlib.Deflating f.strm taken f.written phase)
    (size : ℕ) :
    u.zlib.Deflating (f.renew size).strm taken (f.renew size).written phase := by
  rw [strm_renew, written_renew]
  exact hd

/-- A chunk of which nothing is left. -/
lemma compressBody_feed_nil (turns : ℕ) (hw : w.Holds f) (hroom : 0 < f.room)
    (hd : u.zlib.Deflating f.strm taken f.written .feeding) :
    (f.chunk u.env.maxBody false turns [] = none →
      ∃ e, compressBody u false turns [] w = .error e) ∧
    ∀ f', f.chunk u.env.maxBody false turns [] = some f' →
      ∃ w', compressBody u false turns [] w = .ok w' ∧ w'.Holds f' ∧ 0 < f'.room ∧
        u.zlib.Deflating f'.strm (taken ++ []) f'.written .feeding := by
  have hchunk : f.chunk u.env.maxBody false turns [] = some f := by cases turns <;> rfl
  have hrun : compressBody u false turns [] w = .ok w := by cases turns <;> rfl
  rw [hchunk, hrun]
  refine ⟨fun hnone => (nomatch hnone), fun f' hf' => ?_⟩
  obtain rfl := Option.some.inj hf'
  exact ⟨w, rfl, hw, hroom, by rwa [List.append_nil]⟩

/-- A chunk that is not the last. -/
lemma compressBody_feed (hz : u.zlib.DeflateCalls) (turns : ℕ) {x : List UInt8} (hw : w.Holds f)
    (hroom : 0 < f.room) (hd : u.zlib.Deflating f.strm taken f.written .feeding) :
    (f.chunk u.env.maxBody false turns x = none →
      ∃ e, compressBody u false turns x w = .error e) ∧
    ∀ f', f.chunk u.env.maxBody false turns x = some f' →
      ∃ w', compressBody u false turns x w = .ok w' ∧ w'.Holds f' ∧ 0 < f'.room ∧
        u.zlib.Deflating f'.strm (taken ++ x) f'.written .feeding := by
  induction turns generalizing x w f taken with
  | zero =>
    cases x with
    | nil => exact compressBody_feed_nil 0 hw hroom hd
    | cons c cs => exact ⟨fun _ => ⟨.hang, rfl⟩, by simp [Zlib.Filling.chunk]⟩
  | succ turns ih =>
    cases x with
    | nil => exact compressBody_feed_nil (turns + 1) hw hroom hd
    | cons c cs =>
      have hadmits : Zlib.Phase.feeding.Admits false (c :: cs) := Or.inr (by simp)
      obtain ⟨b', hrun, hholds, -⟩ := hw.compress (c :: cs) false (hz.feed hd hadmits hroom)
      have hd' := hd.call (c :: cs) f.room false hadmits hroom
      rw [Zlib.Filling.chunk, compressBody, hrun, ok_bind]
      dsimp only
      by_cases hzero : (u.zlib.deflate f.strm (c :: cs) f.room false).consumed = 0
      · rw [if_pos hzero, if_pos hzero]
        exact ⟨fun _ => ⟨.assertFailed, rfl⟩, by simp⟩
      · have hmore : (false && ((c :: cs).drop
            (u.zlib.deflate f.strm (c :: cs) f.room false).consumed).isEmpty) = false := rfl
        obtain ⟨w₁, hw₁, hholds₁, hroom₁⟩ := afterCompress_renew hholds
          (hroom.trans_le hw.fills.room_le) hmore
        rw [if_neg hzero, if_neg hzero, hw₁, ok_bind, Bool.false_and, if_neg (by simp)]
        have hsession := deflating_renew (f := f.call (c :: cs) false) hd' u.env.maxBody
        have hrest := ih (x := (c :: cs).drop
          (u.zlib.deflate f.strm (c :: cs) f.room false).consumed) hholds₁ hroom₁ hsession
        rwa [List.append_assoc, List.take_append_drop] at hrest

/-- What `CompressBuf` has yielded when it is through. -/
def Yields (w : Compressor u.zlib) (f : Zlib.Filling u.zlib) (taken : List UInt8) : Prop :=
  Compressed u.env f.written w.yielded ∧
    ∃ phase, u.zlib.Deflating f.strm taken f.written phase ∧ phase.rest = []

/-- A full buffer with more to come is yielded, and one more is filled. -/
lemma tail_of_full (hz : u.zlib.DeflateCalls) (hw : w.Holds f) (hpos : 0 < u.env.maxBody)
    (hmore : w.compressedBuf.needMoreMemory4Tail = true) (hfull : f.room = 0)
    (hd : u.zlib.Deflating f.strm taken f.written (.finishing [])) :
    ∃ w', Compressor.tail u w = .ok w' ∧
      w'.Holds ({ f with room := u.env.maxBody }.call [] true) ∧
      ({ f with room := u.env.maxBody }.call [] true).room < u.env.maxBody ∧
      ∃ phase, u.zlib.Deflating ({ f with room := u.env.maxBody }.call [] true).strm taken
        ({ f with room := u.env.maxBody }.call [] true).written phase ∧ phase.rest = [] := by
  have hadmits : (Zlib.Phase.finishing []).Admits true [] := ⟨rfl, rfl⟩
  obtain ⟨hout, hret⟩ := hz.finish hd hadmits hpos
  have hd' := hd.call [] u.env.maxBody true hadmits hpos
  rw [List.take_nil, List.append_nil] at hd'
  obtain ⟨b', hrun, hholds, -⟩ := (hw.flush hfull hpos).compress [] true
    (by rcases hret with ⟨h, -⟩ | ⟨h, -⟩ <;> exact fun hne => by cases h.symm.trans hne)
  refine ⟨{ w.flush with compressedBuf := b' }, ?_, hholds, ?_, _, hd', ?_⟩
  · rw [Compressor.tail, hmore, if_neg (by simp), if_pos (hw.fills.isFull_iff.mpr hfull)]
    dsimp only
    rw [hrun, ok_bind]
    rfl
  · rw [Zlib.Filling.call]
    exact Nat.sub_lt hpos (List.length_pos_of_ne_nil hout)
  · simp only [Zlib.Phase.after, if_true, List.drop_nil]
    split <;> rfl

/-- The end of the last chunk: the buffer is yielded, after one more when the stream has not
ended. -/
lemma finish_spec (hz : u.zlib.DeflateCalls) (hw : w.Holds f) (hroom : 0 < f.room) {x : List UInt8}
    {phase : Zlib.Phase} (hd : u.zlib.Deflating f.strm taken f.written phase)
    (hadmits : phase.Admits true x)
    (hall : (u.zlib.deflate f.strm x f.room true).consumed = x.length) :
    ∃ b' w', w.compressedBuf.compress x true = .ok (x.length, b') ∧
      Compressor.finish u { w with compressedBuf := b' } = .ok w' ∧
      Yields w' (if (u.zlib.deflate f.strm x f.room true).ret = .streamEnd then f.call x true
        else { f.call x true with room := u.env.maxBody }.call [] true) (taken ++ x) := by
  have hpos : 0 < u.env.maxBody := hroom.trans_le hw.fills.room_le
  obtain ⟨hout, hret⟩ := hz.finish hd hadmits hroom
  have hd' := hd.call x f.room true hadmits hroom
  rw [hall, List.take_length] at hd'
  obtain ⟨b', hrun, hholds, hmore⟩ :=
    hw.compress x true (by rcases hret with ⟨h, -⟩ | ⟨h, -⟩ <;> simp [h])
  rw [hall] at hrun
  by_cases hend : (u.zlib.deflate f.strm x f.room true).ret = .streamEnd
  · have htail : Compressor.tail u { w with compressedBuf := b' } =
        .ok { w with compressedBuf := b' } := by
      rw [Compressor.tail, hmore, hend]
      rfl
    refine ⟨b', _, hrun, by rw [Compressor.finish, htail, ok_bind]; rfl, ?_, ?_⟩
    · rw [if_pos hend]
      refine hholds.finish ?_
      have hle := hw.fills.room_le
      have houtLen := List.length_pos_of_ne_nil hout
      rw [Zlib.Filling.call]
      dsimp only
      omega
    · rw [if_pos hend]
      exact ⟨_, hd', by simp [Zlib.Phase.after, hend, Zlib.Phase.rest]⟩
  · obtain ⟨hok, hfullOut⟩ := hret.resolve_left fun h => hend h.1
    have hfull : (f.call x true).room = 0 := by
      rw [Zlib.Filling.call, hfullOut, Nat.sub_self]
    -- the call for the tail is allowed, since nothing of the input is left
    have hphase : Zlib.Phase.after u.zlib true x (u.zlib.deflate f.strm x f.room true) =
        .finishing [] := by
      simp [Zlib.Phase.after, hend, hall]
    rw [hphase] at hd'
    rw [hok] at hmore
    obtain ⟨w', htail, hholds', hroom', hyields⟩ := tail_of_full hz hholds hpos hmore hfull hd'
    refine ⟨b', _, hrun, by rw [Compressor.finish, htail, ok_bind]; rfl, ?_, ?_⟩
    · rw [if_neg hend]
      exact hholds'.finish hroom'
    · rw [if_neg hend]
      exact hyields

/-- The last chunk. -/
lemma compressBody_last (hz : u.zlib.DeflateCalls) (turns : ℕ) {x : List UInt8} (hx : x ≠ [])
    (hw : w.Holds f) (hroom : 0 < f.room) {phase : Zlib.Phase}
    (hd : u.zlib.Deflating f.strm taken f.written phase) (hadmits : phase.Admits true x) :
    (f.chunk u.env.maxBody true turns x = none →
      ∃ e, compressBody u true turns x w = .error e) ∧
    ∀ f', f.chunk u.env.maxBody true turns x = some f' →
      ∃ w', compressBody u true turns x w = .ok w' ∧ Yields w' f' (taken ++ x) := by
  induction turns generalizing x w f taken phase with
  | zero =>
    cases x with
    | nil => exact (hx rfl).elim
    | cons c cs => exact ⟨fun _ => ⟨.hang, rfl⟩, by simp [Zlib.Filling.chunk]⟩
  | succ turns ih =>
    cases x with
    | nil => exact (hx rfl).elim
    | cons c cs =>
      rw [Zlib.Filling.chunk, compressBody]
      dsimp only
      by_cases hall : (u.zlib.deflate f.strm (c :: cs) f.room true).consumed = (c :: cs).length
      · obtain ⟨b', w', hrun, hfinish, hyields⟩ := finish_spec hz hw hroom hd hadmits hall
        have hbranch :
            Compressor.afterCompress u true [] { w with compressedBuf := b' } = .ok w' := by
          simpa [Compressor.afterCompress] using hfinish
        have hne : (c :: cs).length ≠ 0 := by simp
        rw [hrun, ok_bind, hall, List.drop_length]
        dsimp only
        rw [if_neg hne, if_neg hne, hbranch, ok_bind, List.isEmpty_nil, Bool.and_self, if_pos rfl,
          ← apply_ite some]
        refine ⟨by simp, fun f' hf' => ?_⟩
        obtain rfl := Option.some.inj hf'
        exact ⟨w', by cases turns <;> rfl, hyields⟩
      · -- something is left, so the buffer is full and the stream goes on in a new one
        obtain ⟨-, hret⟩ := hz.finish hd hadmits hroom
        obtain ⟨hok, -⟩ := hret.resolve_left fun h => hall h.2
        have hle := u.zlib.deflate_consumed_le f.strm (c :: cs) f.room true
        obtain ⟨b', hrun, hholds, -⟩ := hw.compress (c :: cs) true (by simp [hok])
        have hrest :
            (c :: cs).drop (u.zlib.deflate f.strm (c :: cs) f.room true).consumed ≠ [] := by
          rw [Ne, List.drop_eq_nil_iff]
          omega
        have hmore : (true && ((c :: cs).drop
            (u.zlib.deflate f.strm (c :: cs) f.room true).consumed).isEmpty) = false := by
          simpa using hrest
        obtain ⟨w₁, hw₁, hholds₁, hroom₁⟩ := afterCompress_renew hholds
          (hroom.trans_le hw.fills.room_le) hmore
        rw [hrun, ok_bind]
        dsimp only
        by_cases hzero : (u.zlib.deflate f.strm (c :: cs) f.room true).consumed = 0
        · rw [if_pos hzero, if_pos hzero]
          exact ⟨fun _ => ⟨.assertFailed, rfl⟩, by simp⟩
        · have hd' := hd.call (c :: cs) f.room true hadmits hroom
          have hphase : Zlib.Phase.after u.zlib true (c :: cs)
              (u.zlib.deflate f.strm (c :: cs) f.room true) = .finishing ((c :: cs).drop
                (u.zlib.deflate f.strm (c :: cs) f.room true).consumed) := by
            simp [Zlib.Phase.after, hok]
          rw [hphase] at hd'
          rw [if_neg hzero, if_neg hzero, hw₁, ok_bind, hmore, if_neg (by simp)]
          have hsession := deflating_renew (f := f.call (c :: cs) true) hd' u.env.maxBody
          have hrec := ih hrest hholds₁ hroom₁ hsession ⟨rfl, rfl⟩
          rwa [List.append_assoc, List.take_append_drop] at hrec

end CompressBody

/-! ## All chunks -/

/-- The chunks of the writer as they are given to `deflate`. -/
def offered (raw : List BufT) : List (List UInt8 × Bool) := raw.map fun t => (t.bytes, t.isLast)

/-- A body that is not empty, and not longer than `MAX_MESSAGE_BODY_LENGTH` or its memory. -/
structure BufT.Body (env : Env) (t : BufT) : Prop where
  bufLen_pos : 0 < t.buf.bufLen
  bufLen_le : t.buf.bufLen ≤ env.maxBody
  bufLen_le_length : t.buf.bufLen ≤ t.buf.buf.length

lemma BufT.Body.length_bytes {env : Env} {t : BufT} (h : t.Body env) :
    t.bytes.length = t.buf.bufLen :=
  Buf.length_bytes h.bufLen_le_length

lemma BufT.RawChunk.body {env : Env} {t : BufT} (h : t.RawChunk env) : t.Body env :=
  ⟨h.bufLen_pos, h.bufLen_le, by rw [h.length_buf]; exact h.bufLen_le⟩

/-- Bodies of which the last one is flagged, and no other. -/
structure Bodies (env : Env) (bodies : List BufT) : Prop where
  body : ∀ t ∈ bodies, t.Body env
  last : ∃ front t, bodies = front ++ [t] ∧ t.isLast = true ∧ ∀ u ∈ front, u.isLast = false

lemma compressBodies_spec (hz : u.zlib.DeflateCalls) {front : List BufT} {t : BufT}
    (hfront : ∀ t ∈ front, t.Body u.env ∧ t.isLast = false) (ht : t.Body u.env)
    (hlast : t.isLast = true) {w : Compressor u.zlib} {f : Zlib.Filling u.zlib}
    {taken : List UInt8} (hw : w.Holds f) (hroom : 0 < f.room)
    (hd : u.zlib.Deflating f.strm taken f.written .feeding) :
    (f.chunks u.env.maxBody (offered (front ++ [t])) = none →
      ∃ e, compressBodies u (front ++ [t]) w = .error e) ∧
    ∀ f', f.chunks u.env.maxBody (offered (front ++ [t])) = some f' →
      ∃ w', compressBodies u (front ++ [t]) w = .ok w' ∧
        Yields w' f' (taken ++ ((front ++ [t]).map BufT.bytes).flatten) := by
  induction front generalizing w f taken with
  | nil =>
    have hne : t.bytes ≠ [] := by
      apply List.ne_nil_of_length_pos
      rw [ht.length_bytes]
      exact ht.bufLen_pos
    obtain ⟨hnone, hsome⟩ := compressBody_last hz t.bytes.length hne hw hroom hd (Or.inl rfl)
    simp only [List.nil_append, offered, List.map_cons, List.map_nil, Zlib.Filling.chunks,
      compressBodies, hlast, if_pos ht.bufLen_le, List.flatten_singleton]
    cases hchunk : f.chunk u.env.maxBody true t.bytes.length t.bytes with
    | none =>
      obtain ⟨e, he⟩ := hnone hchunk
      exact ⟨fun _ => ⟨e, by rw [he, error_bind]⟩, by simp⟩
    | some f₁ =>
      obtain ⟨w', hrun, hyields⟩ := hsome f₁ hchunk
      refine ⟨by simp, fun f' hf' => ⟨w', by rw [hrun, ok_bind], ?_⟩⟩
      obtain rfl : f₁ = f' := by simpa using hf'
      exact hyields
  | cons x front ih =>
    obtain ⟨hx, hmore⟩ := hfront x (by simp)
    obtain ⟨hnone, hsome⟩ := compressBody_feed hz x.bytes.length (x := x.bytes) hw hroom hd
    simp only [List.cons_append, offered, List.map_cons, Zlib.Filling.chunks, compressBodies,
      hmore, if_pos hx.bufLen_le, List.flatten_cons]
    cases hchunk : f.chunk u.env.maxBody false x.bytes.length x.bytes with
    | none =>
      obtain ⟨e, he⟩ := hnone hchunk
      exact ⟨fun _ => ⟨e, by rw [he, error_bind]⟩, by simp⟩
    | some f₁ =>
      obtain ⟨w₁, hrun, hholds, hroom₁, hd₁⟩ := hsome f₁ hchunk
      have hrest := ih (fun t ht => hfront t (by simp [ht])) hholds hroom₁ hd₁
      rw [hrun, ok_bind, Option.bind_some, ← List.append_assoc]
      exact hrest

/-- What `CompressBuf` makes of bodies: where `deflate` writes `written`, it yields that in
pieces, and where there is nothing, it fails. -/
lemma compressBuf_bodies (hz : u.zlib.DeflateCalls) {bodies : List BufT} (h : Bodies u.env bodies)
    (level : Int8) :
    (u.zlib.deflated u.env.maxBody level (offered bodies) = none →
      ∃ e, compressBuf u level bodies = .error e) ∧
    ∀ written, u.zlib.deflated u.env.maxBody level (offered bodies) = some written →
      ∃ emitted, compressBuf u level bodies = .ok emitted ∧ Compressed u.env written emitted ∧
        ∃ st phase, u.zlib.Deflating st (bodies.map BufT.bytes).flatten written phase ∧
          phase.rest = [] := by
  obtain ⟨front, t, rfl, hlast, hfront⟩ := h.last
  have ht := h.body t (by simp)
  have hpos : 0 < u.env.maxBody := ht.bufLen_pos.trans_le ht.bufLen_le
  rw [Zlib.deflated, compressBuf]
  cases hinit : u.zlib.deflateInit level with
  | none => exact ⟨fun _ => ⟨.deflateInitFailed, rfl⟩, by simp⟩
  | some strm =>
    have hw : Compressor.Holds (u := u) ⟨[], ⟨strm, u.env.makeBuffer .compressBuf 0,
        (u.env.makeBuffer .compressBuf 0).bufLen, false⟩, 1⟩ ⟨strm, u.env.maxBody, []⟩ := by
      refine ⟨by simp, ⟨rfl, rfl, le_rfl, u.env.whole_makeBuffer _ _⟩, ?_⟩
      simp [ZLibCompressBuf.pending, ZLibCompressBuf.getOutLen]
    obtain ⟨hnone, hsome⟩ := compressBodies_spec hz
      (fun x hx => ⟨h.body x (by simp [hx]), hfront x hx⟩) ht hlast hw hpos (.init hinit)
    simp only [Option.bind_some]
    cases hchunks : Zlib.Filling.chunks u.env.maxBody (offered (front ++ [t]))
        ⟨strm, u.env.maxBody, []⟩ with
    | none =>
      obtain ⟨e, he⟩ := hnone hchunks
      exact ⟨fun _ => ⟨e, by rw [he, error_bind]⟩, by simp⟩
    | some f =>
      obtain ⟨w', hrun, hcompressed, phase, hd, hrest⟩ := hsome f hchunks
      refine ⟨by simp, fun written hwritten => ?_⟩
      obtain rfl : f.written = written := by simpa using hwritten
      rw [List.nil_append] at hd
      exact ⟨w'.yielded, by rw [hrun, ok_bind]; rfl, hcompressed, f.strm, phase, hd, hrest⟩

/-- What `CompressBuf` makes of the chunks of an object. -/
lemma compressBuf_spec (hz : u.zlib.Contract) {s : Schema} {obj : s.Val} {raw : List BufT}
    (hraw : RawChunks u.env s obj raw) (level : Int8) :
    (u.zlib.deflated u.env.maxBody level (offered raw) = none →
      ∃ e, compressBuf u level raw = .error e) ∧
    ∀ written, u.zlib.deflated u.env.maxBody level (offered raw) = some written →
      ∃ bodies, compressBuf u level raw = .ok bodies ∧ Compressed u.env written bodies ∧
        ∃ st phase, u.zlib.Deflating st (Schema.flat s obj) written phase ∧ phase.rest = [] := by
  have hspec := compressBuf_bodies hz.deflateCalls
    (⟨fun t ht => (hraw.raw t ht).body, hraw.last⟩ : Bodies u.env raw) level
  rwa [hraw.flatten_eq] at hspec

/-- The bodies are pieces of one size. -/
lemma Compressed.map_bytes {env : Env} {written : List UInt8} {bodies : List BufT}
    (h : Compressed env written bodies) : bodies.map BufT.bytes = pieces env.maxBody written := by
  obtain ⟨front, t, rfl, -, hfront⟩ := h.last
  have ht := h.raw t (by simp)
  have hlen := ht.length_bytes
  rw [← h.flatten_eq, List.map_append, List.map_singleton, List.flatten_append,
    List.flatten_singleton]
  refine (pieces_flatten (fun x hx => ?_) ?_ ?_).symm
  · obtain ⟨b, hb, rfl⟩ := List.mem_map.mp hx
    rw [(hfront b hb).raw.length_bytes, (hfront b hb).bufLen_eq]
  · rw [hlen]
    exact ht.bufLen_pos
  · rw [hlen]
    exact ht.bufLen_le

end OldPart
