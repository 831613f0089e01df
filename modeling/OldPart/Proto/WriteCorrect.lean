import OldPart.Proto.Write
import OldPart.Proto.Layout

/-!
# What the writers yield

The chunks `SerializeObject` yields, put together, are the flat encoding; none is empty or
longer than `MAX_MESSAGE_BODY_LENGTH`, and none ends inside a POD or a length prefix.

The one thing that can go wrong is the sum in `EnsureBuffer`, an `int32_t`.  `Schema.pack`
follows the offset in unbounded integers and has no result when such a sum would leave the
range; the writer succeeds exactly when it has one.
-/

namespace OldPart

/-! ## The state between two writes -/

/-- A chunk as the writers yield it. -/
structure BufT.RawChunk (env : Env) (t : BufT) : Prop where
  bufLen_pos : 0 < t.buf.bufLen
  bufLen_le : t.buf.bufLen ≤ env.maxBody
  length_buf : t.buf.buf.length = env.maxBody
  padNum_eq : t.padNum = 0
  checksum_eq : t.checksum = 0

namespace Writer

variable {env : Env} {w w' w'' : Writer}

/-- What holds of a writer between two writes. -/
structure Inv (env : Env) (w : Writer) : Prop where
  raw : ∀ t ∈ w.yielded, t.RawChunk env ∧ t.isLast = false
  buffer : ∀ b, w.buf = some b →
    b.bufLen = env.maxBody ∧ b.buf.length = env.maxBody ∧ w.offset ≤ env.maxBody
  no_buffer : w.buf = none → w.yielded = [] ∧ w.offset = 0

/-- The bytes in the current buffer. -/
def pending (w : Writer) : List UInt8 := w.buf.elim [] fun b => b.buf.take w.offset

/-- The bytes written so far. -/
def written (w : Writer) : List UInt8 := (w.yielded.map BufT.bytes).flatten ++ w.pending

/-- Where the chunks yielded so far end. -/
def ends (w : Writer) : List ℕ := chunkEnds 0 (w.yielded.map fun t => t.bytes.length)

/-- A write can start: there is no buffer yet, or there is something in it. -/
def Ready (w : Writer) : Prop := w.buf ≠ none → 0 < w.offset

lemma length_yielded_le (w : Writer) :
    (w.yielded.map fun t => t.bytes.length).sum ≤ w.written.length := by
  rw [written, List.length_append, List.length_flatten, List.map_map]
  exact Nat.le_add_right _ _

lemma ends_le {e : ℕ} (h : e ∈ w.ends) : e ≤ w.written.length := by
  have := mem_chunkEnds_le h
  have := length_yielded_le w
  omega

end Writer

/-! ## Making room -/

/-- The writer `w'` is `w` after a call of `EnsureBuffer`. -/
structure Ensured (env : Env) (w w' : Writer) : Prop where
  inv : w'.Inv env
  buf : w'.buf ≠ none
  written_eq : w'.written = w.written
  ends_eq : ∃ new, w'.ends = w.ends ++ new ∧ ∀ e ∈ new, e = w.written.length

section EnsureBuffer

variable {env : Env} {w : Writer} {b : Buf}

/-- `EnsureBuffer` flushes the buffer it has. -/
def Flushes (ele : ℤ) (w : Writer) (b : Buf) : Prop := wrap32 (w.offset + ele) > b.bufLen

lemma ensureBuffer_none (h : w.buf = none) (ele : ℤ) :
    ensureBuffer env ele w =
      { w with buf := some (env.makeBuffer .ensureBuffer w.yielded.length), offset := 0 } := by
  simp [ensureBuffer, h]

lemma ensureBuffer_keep (h : w.buf = some b) {ele : ℤ} (hkeep : ¬Flushes ele w b) :
    ensureBuffer env ele w = w := by
  unfold Flushes at hkeep
  simp [ensureBuffer, h, hkeep]

lemma ensureBuffer_flush (h : w.buf = some b) {ele : ℤ} (hflush : Flushes ele w b) :
    ensureBuffer env ele w =
      { yielded := w.yielded ++ [⟨{ b with bufLen := w.offset }, 0, 0, false⟩]
        buf := some (env.makeBuffer .ensureBuffer (w.yielded.length + 1))
        offset := 0 } := by
  unfold Flushes at hflush
  simp [ensureBuffer, h, hflush]

/-- `EnsureBuffer` loses no byte and flushes at the current position, provided it does not
flush an empty buffer. -/
lemma ensureBuffer_spec (hw : w.Inv env) {ele : ℤ}
    (hpos : ∀ b, w.buf = some b → Flushes ele w b → 0 < w.offset) :
    Ensured env w (ensureBuffer env ele w) := by
  cases hb : w.buf with
  | none =>
    rw [ensureBuffer_none hb]
    obtain ⟨hyield, -⟩ := hw.no_buffer hb
    refine ⟨⟨hw.raw, ?_, by simp⟩, by simp, ?_, [], by simp [Writer.ends], by simp⟩
    · rintro b' hb'
      obtain rfl := Option.some.inj hb'
      exact ⟨rfl, Env.length_makeBuffer _ _ _, Nat.zero_le _⟩
    · simp [Writer.written, Writer.pending, hb]
  | some b =>
    by_cases hflush : Flushes ele w b
    · rw [ensureBuffer_flush hb hflush]
      obtain ⟨-, hlen, hoffset⟩ := hw.buffer b hb
      have hbytes : BufT.bytes ⟨{ b with bufLen := w.offset }, 0, 0, false⟩ = w.pending := by
        simp [BufT.bytes, Buf.bytes, Writer.pending, hb]
      refine ⟨⟨?_, ?_, by simp⟩, by simp, ?_, [w.written.length], ?_, by simp⟩
      · intro t ht
        rcases List.mem_append.mp ht with ht | ht
        · exact hw.raw t ht
        · obtain rfl := List.mem_singleton.mp ht
          exact ⟨⟨hpos b hb hflush, hoffset, hlen, rfl, rfl⟩, rfl⟩
      · rintro b' hb'
        obtain rfl := Option.some.inj hb'
        exact ⟨rfl, Env.length_makeBuffer _ _ _, Nat.zero_le _⟩
      · simp [Writer.written, Writer.pending, hb, BufT.bytes, Buf.bytes]
      · have hsum : (w.yielded.map fun t => t.bytes.length).sum + w.pending.length
            = w.written.length := by
          rw [Writer.written, List.length_append, List.length_flatten, List.map_map]
          rfl
        simp [Writer.ends, chunkEnds_append, hbytes, ← hsum]
    · rw [ensureBuffer_keep hb hflush]
      exact ⟨hw, by simp [hb], rfl, [], by simp, by simp⟩

/-- Where `EnsureBuffer` leaves the offset. -/
lemma ensureBuffer_offset (hw : w.Inv env) (ele : ℤ) :
    (ensureBuffer env ele w).offset = packRoom env.maxBody ele w.offset := by
  cases hb : w.buf with
  | none =>
    obtain ⟨-, hoffset⟩ := hw.no_buffer hb
    rw [ensureBuffer_none hb, packRoom, hoffset, ite_self]
  | some b =>
    obtain ⟨hcap, -, -⟩ := hw.buffer b hb
    by_cases hflush : Flushes ele w b
    · rw [ensureBuffer_flush hb hflush]
      rw [Flushes, hcap] at hflush
      rw [packRoom, if_pos hflush]
    · rw [ensureBuffer_keep hb hflush]
      rw [Flushes, hcap] at hflush
      rw [packRoom, if_neg hflush]

end EnsureBuffer

/-- Room for a block, when the sum is in range. -/
lemma packRoom_of_lt (maxBody : ℕ) {n o : ℕ} (h : o + n < 2 ^ 31) :
    packRoom maxBody n o = if maxBody < o + n then 0 else o := by
  have hsum : wrap32 ((o : ℤ) + n) = (o + n : ℕ) := by
    rw [← Nat.cast_add]
    exact wrap32_natCast h
  simp only [packRoom, hsum, gt_iff_lt, Nat.cast_lt]

/-- When the sum of an offset and a size overflows, no room is made. -/
lemma packRoom_of_le {maxBody n o : ℕ} (h : 2 ^ 31 ≤ o + n) (hlt : o + n < 2 ^ 32) :
    packRoom maxBody n o = o := by
  have hneg : wrap32 ((o : ℤ) + n) < 0 := wrap32_neg_of_le (by omega) (by omega)
  have hkeep : ¬wrap32 ((o : ℤ) + n) > maxBody := by omega
  rw [packRoom, if_neg hkeep]

/-! ## Writing -/

/-- The writer `w'` is `w` after `bs` has been written, in which `spans` lie. -/
structure Writes (env : Env) (spans : List Span) (bs : List UInt8) (w w' : Writer) : Prop where
  inv : w'.Inv env
  buf : w'.buf ≠ none
  written_eq : w'.written = w.written ++ bs
  ends_eq : ∃ new, w'.ends = w.ends ++ new ∧ (∀ e ∈ new, w.written.length ≤ e) ∧ Uncut spans new

lemma Ensured.writes {env : Env} {w w' : Writer} (h : Ensured env w w') :
    Writes env [] [] w w' where
  inv := h.inv
  buf := h.buf
  written_eq := by rw [h.written_eq, List.append_nil]
  ends_eq := by
    obtain ⟨new, hends, hnew⟩ := h.ends_eq
    exact ⟨new, hends, fun e he => (hnew e he).ge, by simp [Uncut]⟩

lemma Writes.refl {env : Env} {w : Writer} (hw : w.Inv env) (hbuf : w.buf ≠ none) :
    Writes env [] [] w w :=
  ⟨hw, hbuf, by simp, [], by simp, by simp, by simp [Uncut]⟩

lemma Writes.length_eq {env : Env} {spans : List Span} {bs : List UInt8} {w w' : Writer}
    (h : Writes env spans bs w w') : w'.written.length = w.written.length + bs.length := by
  rw [h.written_eq, List.length_append]

lemma Writes.trans {env : Env} {spans spans' : List Span} {bs bs' : List UInt8} {w w' w'' : Writer}
    (h : Writes env spans bs w w') (h' : Writes env spans' bs' w' w'')
    (hle : ∀ q ∈ spans, q.stop ≤ w.written.length + bs.length)
    (hge : ∀ q ∈ spans', w.written.length + bs.length ≤ q.start) :
    Writes env (spans ++ spans') (bs ++ bs') w w'' where
  inv := h'.inv
  buf := h'.buf
  written_eq := by rw [h'.written_eq, h.written_eq, List.append_assoc]
  ends_eq := by
    obtain ⟨new, hends, hnew, huncut⟩ := h.ends_eq
    obtain ⟨new', hends', hnew', huncut'⟩ := h'.ends_eq
    have hlen := h.length_eq
    have hnewle : ∀ e ∈ new, e ≤ w.written.length + bs.length := by
      intro e he
      rw [← hlen]
      exact Writer.ends_le (by rw [hends]; exact List.mem_append_right _ he)
    refine ⟨new ++ new', by rw [hends', hends, List.append_assoc], ?_, ?_⟩
    · intro e he
      rcases List.mem_append.mp he with he | he
      · exact hnew e he
      · have := hnew' e he
        omega
    · intro q hq e he
      rcases List.mem_append.mp hq with hq | hq
      · rcases List.mem_append.mp he with he | he
        · exact huncut q hq e he
        · have := hnew' e he
          have := hle q hq
          exact Or.inr (by omega)
      · rcases List.mem_append.mp he with he | he
        · have := hnewle e he
          have := hge q hq
          exact Or.inl (by omega)
        · exact huncut' q hq e he

/-- The run of a writer from `w` on agrees with the offset in unbounded integers: it writes
`bs` and stands there, or there is none and it fails. -/
structure Follows (env : Env) (spans : List Span) (bs : List UInt8) (w : Writer)
    (packed : Option ℕ) (run : Except Fault Writer) : Prop where
  some_of : ∀ o, packed = some o →
    ∃ w', run = .ok w' ∧ Writes env spans bs w w' ∧ w'.offset = o ∧ 0 < o
  none_of : packed = none → ∃ e, run = .error e

lemma Follows.bind {env : Env} {spans spans' : List Span} {bs bs' : List UInt8} {w : Writer}
    {packed : Option ℕ} {run : Except Fault Writer} {f : ℕ → Option ℕ}
    {k : Writer → Except Fault Writer} (h : Follows env spans bs w packed run)
    (hle : ∀ q ∈ spans, q.stop ≤ w.written.length + bs.length)
    (hge : ∀ q ∈ spans', w.written.length + bs.length ≤ q.start)
    (hk : ∀ w', Writes env spans bs w w' → 0 < w'.offset →
      Follows env spans' bs' w' (f w'.offset) (k w')) :
    Follows env (spans ++ spans') (bs ++ bs') w (packed.bind f) (run >>= k) := by
  cases hpacked : packed with
  | none =>
    obtain ⟨e, rfl⟩ := h.none_of hpacked
    exact ⟨by simp, fun _ => ⟨e, rfl⟩⟩
  | some o =>
    obtain ⟨w', rfl, hwrites, rfl, hpos⟩ := h.some_of o hpacked
    have hrest := hk w' hwrites hpos
    constructor
    · intro o' ho'
      obtain ⟨w'', hrun, hwrites', hoffset, hpos'⟩ := hrest.some_of o' ho'
      exact ⟨w'', hrun, hwrites.trans hwrites' hle hge, hoffset, hpos'⟩
    · exact hrest.none_of

/-- Making room first changes nothing. -/
lemma Follows.of_ensured {env : Env} {spans : List Span} {bs : List UInt8} {w w₁ : Writer}
    {packed : Option ℕ} {run : Except Fault Writer} (hens : Ensured env w w₁)
    (h : Follows env spans bs w₁ packed run) (hge : ∀ q ∈ spans, w.written.length ≤ q.start) :
    Follows env spans bs w packed run where
  some_of o ho := by
    obtain ⟨w', hrun, hwrites, hoffset, hpos⟩ := h.some_of o ho
    exact ⟨w', hrun, hens.writes.trans hwrites (by simp) (by simpa using hge), hoffset, hpos⟩
  none_of := h.none_of

/-- Copying what there is room for. -/
lemma Writer.put_spec {env : Env} {w : Writer} (hw : w.Inv env) (hb : w.buf ≠ none)
    (src : List UInt8) (hroom : w.offset + src.length ≤ env.maxBody) :
    ∃ w', w.put src = .ok w' ∧ w'.Inv env ∧ w'.buf ≠ none ∧ w'.written = w.written ++ src ∧
      w'.ends = w.ends ∧ w'.offset = w.offset + src.length := by
  obtain ⟨b, hb⟩ := Option.ne_none_iff_exists'.mp hb
  obtain ⟨hcap, hlen, hoffset⟩ := hw.buffer b hb
  have hfit : w.offset + src.length ≤ b.buf.length := by rw [hlen]; exact hroom
  obtain ⟨b', hcopy, hcap', hlen', htake⟩ := Buf.copyN_spec hfit
  refine ⟨{ w with buf := some b', offset := w.offset + src.length }, ?_, ?_, by simp, ?_, rfl, rfl⟩
  · simp only [Writer.put, hb, hcopy]
    rfl
  · refine ⟨hw.raw, ?_, by simp⟩
    rintro b'' hb''
    obtain rfl := Option.some.inj hb''
    exact ⟨hcap'.trans hcap, hlen'.trans hlen, hroom⟩
  · simp [Writer.written, Writer.pending, hb, htake]

/-- Copying what there is no room for. -/
lemma Writer.put_pastBuffer {env : Env} {w : Writer} (hw : w.Inv env) (hb : w.buf ≠ none)
    {src : List UInt8} (hroom : env.maxBody < w.offset + src.length) :
    w.put src = .error .pastBuffer := by
  obtain ⟨b, hb⟩ := Option.ne_none_iff_exists'.mp hb
  obtain ⟨-, hlen, -⟩ := hw.buffer b hb
  have hno : ¬w.offset + src.length ≤ b.buf.length := by omega
  simp only [Writer.put, hb, Buf.copyN, if_neg hno]
  rfl

section Writes

variable {env : Env} {w : Writer}

lemma offset_le (hw : w.Inv env) : w.offset ≤ env.maxBody := by
  cases hb : w.buf with
  | none =>
    obtain ⟨-, hoffset⟩ := hw.no_buffer hb
    omega
  | some b => exact (hw.buffer b hb).2.2

/-- Writing a POD that fits a buffer: it ends up in one chunk, or past the end of one. -/
lemma writePod_spec (hw : w.Inv env) {v : List UInt8} (hpos : 0 < v.length)
    (hbody : v.length ≤ env.maxBody) :
    Follows env [⟨w.written.length, v.length⟩] v w (packBlock env.maxBody v.length w.offset)
      (writePod env v w) := by
  have hmax := env.maxBody_lt
  have hcast : wrap32 v.length = v.length := wrap32_natCast (by omega)
  have hle := offset_le hw
  -- a flush is caused by what does not fit behind `offset`, and `v` fits behind `0`
  have hflush : ∀ b, w.buf = some b → Flushes v.length w b → 0 < w.offset := by
    intro b hb hflush
    by_contra hzero
    obtain ⟨hcap, -, -⟩ := hw.buffer b hb
    have hoffset : w.offset = 0 := by omega
    rw [Flushes, hoffset, Nat.cast_zero, zero_add, hcast, hcap] at hflush
    omega
  have hens := ensureBuffer_spec hw hflush
  have hoffset := ensureBuffer_offset hw v.length
  rw [writePod, hcast]
  by_cases hsum : w.offset + v.length < 2 ^ 31
  · rw [packRoom_of_lt env.maxBody hsum] at hoffset
    have hroom : (ensureBuffer env v.length w).offset + v.length ≤ env.maxBody := by
      rw [hoffset]
      split <;> omega
    obtain ⟨w', hput, hinv, hbuf, hwritten, hends, hoffset'⟩ :=
      Writer.put_spec hens.inv hens.buf v hroom
    have hpacked : packBlock env.maxBody v.length w.offset = some w'.offset := by
      rw [packBlock, if_pos hsum, hoffset', hoffset]
      refine congrArg some ?_
      split <;> omega
    rw [hpacked]
    refine ⟨?_, by simp⟩
    rintro o ho
    obtain rfl := Option.some.inj ho
    refine ⟨w', hput, ⟨hinv, hbuf, by rw [hwritten, hens.written_eq], ?_⟩, rfl, by omega⟩
    obtain ⟨new, hnew, hat⟩ := hens.ends_eq
    refine ⟨new, by rw [hends, hnew], fun e he => (hat e he).ge, fun q hq e he => ?_⟩
    obtain rfl := List.mem_singleton.mp hq
    exact Or.inl (hat e he).le
  · -- the sum wraps around, and the copy starts behind what is already there
    rw [packRoom_of_le (by omega) (by omega)] at hoffset
    rw [packBlock, if_neg hsum]
    exact ⟨by simp, fun _ => ⟨.pastBuffer, Writer.put_pastBuffer hens.inv hens.buf (by omega)⟩⟩

lemma writeInt32_spec (hw : w.Inv env) (n : ℕ) (hbody : int32Size.val ≤ env.maxBody) :
    Follows env [⟨w.written.length, int32Size.val⟩] (le32 n) w
      (packBlock env.maxBody int32Size.val w.offset) (writeInt32 env n w) :=
  writePod_spec (v := le32 n) hw int32Size.property.1 hbody

/-- A full buffer of `2 ^ 31 - 1` bytes: the request for one more byte does not flush it,
and the string loop turns without moving. -/
lemma writeChars_hang (hw : w.Inv env) (hbuf : w.buf ≠ none) (hfull : w.offset = env.maxBody)
    (hmax : ¬env.maxBody + 1 < 2 ^ 31) (turns : ℕ) (c : UInt8) (cs : List UInt8) :
    ∃ e, writeChars env turns (c :: cs) w = .error e := by
  have hlt := env.maxBody_lt
  obtain ⟨b, hb⟩ := Option.ne_none_iff_exists'.mp hbuf
  obtain ⟨hcap, hlen, -⟩ := hw.buffer b hb
  induction turns generalizing w b with
  | zero => exact ⟨.hang, rfl⟩
  | succ turns ih =>
    have hkeep : ensureBuffer env 1 w = w := by
      refine ensureBuffer_keep hb ?_
      have hneg : wrap32 ((w.offset : ℤ) + 1) < 0 := wrap32_neg_of_le (by omega) (by omega)
      rw [Flushes, hcap]
      omega
    obtain ⟨w', hput, hinv, hbuf', -, -, hoffset⟩ :=
      Writer.put_spec hw hbuf [] (by simp [hfull])
    rw [writeChars.eq_def]
    simp only [hb, hkeep, ite_self, Option.elim_some, hcap, hfull, Nat.sub_self, Nat.min_zero,
      List.take_zero, List.drop_zero, hput, bind, Except.bind]
    obtain ⟨b', hb'⟩ := Option.ne_none_iff_exists'.mp hbuf'
    obtain ⟨hcap', hlen', -⟩ := hinv.buffer b' hb'
    exact ih hinv hbuf' (by simpa [hfull] using hoffset) b' hb' hcap' hlen'

lemma writeChars_nil_spec (hw : w.Inv env) (hbuf : w.buf ≠ none) (hready : 0 < w.offset)
    (turns : ℕ) :
    Follows env [] [] w (packBytes env.maxBody 0 w.offset) (writeChars env turns [] w) := by
  rw [writeChars_nil, packBytes, Nat.add_zero, if_pos (offset_le hw)]
  refine ⟨fun o ho => ?_, by simp⟩
  obtain rfl := Option.some.inj ho
  exact ⟨w, rfl, Writes.refl hw hbuf, rfl, hready⟩

/-- A turn of the string loop starts with room for a byte, in a new buffer when the old one is
full. -/
lemma ensure_one_spec (hw : w.Inv env) (hready : 0 < w.offset) {b : Buf} (hb : w.buf = some b)
    (hlarge : w.offset = env.maxBody → env.maxBody + 1 < 2 ^ 31) :
    Ensured env w (if w.offset = b.bufLen then ensureBuffer env 1 w else w) ∧
      (if w.offset = b.bufLen then ensureBuffer env 1 w else w).offset =
        if w.offset = env.maxBody then 0 else w.offset := by
  obtain ⟨hcap, -, -⟩ := hw.buffer b hb
  rw [hcap]
  split
  · next hfull =>
    have hlt : w.offset + 1 < 2 ^ 31 := hfull.symm ▸ hlarge hfull
    have hroom := packRoom_of_lt env.maxBody hlt
    rw [Nat.cast_one] at hroom
    refine ⟨ensureBuffer_spec hw fun _ _ _ => hready, ?_⟩
    rw [ensureBuffer_offset hw, hroom, if_pos (by omega)]
  · exact ⟨⟨hw, by simp [hb], rfl, [], by simp, by simp⟩, rfl⟩

/-- The string loop writes its bytes, across as many buffers as it takes. -/
lemma writeChars_spec (hw : w.Inv env) (hbuf : w.buf ≠ none) (hready : 0 < w.offset) {turns : ℕ}
    {v : List UInt8} (hturns : v.length ≤ turns) :
    Follows env [] v w (packBytes env.maxBody v.length w.offset) (writeChars env turns v w) := by
  have hle := offset_le hw
  have hmax := env.maxBody_lt
  induction turns generalizing v w with
  | zero =>
    obtain rfl := List.eq_nil_of_length_eq_zero (Nat.le_zero.mp hturns)
    exact writeChars_nil_spec hw hbuf hready 0
  | succ turns ih =>
    cases v with
    | nil => exact writeChars_nil_spec hw hbuf hready (turns + 1)
    | cons c cs =>
      by_cases hstuck : w.offset = env.maxBody ∧ ¬env.maxBody + 1 < 2 ^ 31
      · obtain ⟨hfull, hlarge⟩ := hstuck
        have hover : ¬w.offset + (c :: cs).length ≤ env.maxBody := by
          rw [List.length_cons]
          omega
        rw [packBytes, if_neg hover, if_neg hlarge]
        exact ⟨by simp, fun _ => writeChars_hang hw hbuf hfull hlarge _ _ _⟩
      · obtain ⟨b, hb⟩ := Option.ne_none_iff_exists'.mp hbuf
        obtain ⟨hcap, -, -⟩ := hw.buffer b hb
        have hlarge : w.offset = env.maxBody → env.maxBody + 1 < 2 ^ 31 := fun hfull => by
          by_contra hlarge
          exact hstuck ⟨hfull, hlarge⟩
        obtain ⟨hens, hstart⟩ := ensure_one_spec hw hready hb hlarge
        rw [writeChars.eq_def]
        simp only [hb]
        generalize (if w.offset = b.bufLen then ensureBuffer env 1 w else w) = w₁ at hens hstart ⊢
        obtain ⟨b₁, hb₁⟩ := Option.ne_none_iff_exists'.mp hens.buf
        obtain ⟨hcap₁, -, -⟩ := hens.inv.buffer b₁ hb₁
        simp only [hb₁, Option.elim_some, hcap₁]
        generalize hlen : min (c :: cs).length (env.maxBody - w₁.offset) = writeLen
        have hbody : 0 < env.maxBody := by omega
        have hlt₁ : w₁.offset < env.maxBody := by
          rw [hstart]
          split <;> omega
        have hcons : (c :: cs).length = cs.length + 1 := rfl
        have hstep := packBytes_step hbody (n := (c :: cs).length) (by omega) hle hlarge hstart
          hlen.symm
        have htake : ((c :: cs).take writeLen).length = writeLen := by
          rw [List.length_take]
          omega
        obtain ⟨w₂, hput, hinv₂, hbuf₂, hwritten₂, hends₂, hoffset₂⟩ :=
          Writer.put_spec hens.inv hens.buf ((c :: cs).take writeLen) (by omega)
        have hwrites₂ : Writes env [] ((c :: cs).take writeLen) w w₂ := by
          refine ⟨hinv₂, hbuf₂, by rw [hwritten₂, hens.written_eq], ?_⟩
          rw [hends₂]
          exact hens.writes.ends_eq
        have hdrop : ((c :: cs).drop writeLen).length = (c :: cs).length - writeLen :=
          List.length_drop
        rw [htake] at hoffset₂
        have hrest := ih (v := (c :: cs).drop writeLen) hinv₂ hbuf₂ (by omega) (by omega)
          (offset_le hinv₂)
        rw [hdrop, hoffset₂, ← hstep] at hrest
        have hput' : (w₁.put ((c :: cs).take writeLen) >>= fun w =>
            writeChars env turns ((c :: cs).drop writeLen) w) =
            writeChars env turns ((c :: cs).drop writeLen) w₂ := by
          rw [hput]
          rfl
        rw [hput']
        refine ⟨fun o ho => ?_, hrest.none_of⟩
        obtain ⟨w', hrun, hwrites', hoffset', hpos'⟩ := hrest.some_of o ho
        refine ⟨w', hrun, ?_, hoffset', hpos'⟩
        have := hwrites₂.trans hwrites' (by simp) (by simp)
        rwa [List.take_append_drop] at this

lemma writeString_spec (hw : w.Inv env) {v : List UInt8} (hfits : v.length < 2 ^ 31)
    (hbody : int32Size.val ≤ env.maxBody) :
    Follows env [⟨w.written.length, int32Size.val⟩] (le32 v.length ++ v) w
      ((packBlock env.maxBody int32Size.val w.offset).bind (packBytes env.maxBody v.length))
      (writeString env v w) := by
  have htotal : totalLen v = v.length := by
    rw [totalLen, wrap32_natCast hfits, Int.toNat_natCast]
  rw [writeString, htotal, List.take_length]
  refine (writeInt32_spec hw v.length hbody).bind ?_ (by simp)
    fun w' hwrites hpos => writeChars_spec hwrites.inv hwrites.buf hpos le_rfl
  intro q hq
  obtain rfl := List.mem_singleton.mp hq
  simp [Span.stop, int32Size]

/-- The loop over the elements, from a specification of the element writer. -/
lemma writeItems_spec {α : Type} {flat : α → List UInt8} {spans : ℕ → α → List Span}
    {fits : α → Prop} {write : α → Writer → Except Fault Writer} {pack : α → ℕ → Option ℕ}
    (hspans : ∀ p x, ∀ q ∈ spans p x, p ≤ q.start ∧ q.stop ≤ p + (flat x).length)
    (hwrite : ∀ w x, w.Inv env → w.Ready → fits x →
      Follows env (spans w.written.length x) (flat x) w (pack x w.offset) (write x w))
    (hw : w.Inv env) (hbuf : w.buf ≠ none) (hpos : 0 < w.offset) {xs : List α}
    (hfits : ∀ x ∈ xs, fits x) :
    Follows env (Schema.itemSpans (fun x => (flat x).length) spans w.written.length xs)
      (xs.flatMap flat) w (packItems pack xs w.offset)
      (xs.foldlM (fun w item => write item w) w) := by
  induction xs generalizing w with
  | nil =>
    refine ⟨fun o ho => ?_, by simp [packItems]⟩
    obtain rfl := Option.some.inj ho
    exact ⟨w, rfl, Writes.refl hw hbuf, rfl, hpos⟩
  | cons x xs ih =>
    rw [List.foldlM_cons, List.flatMap_cons, Schema.itemSpans]
    refine (hwrite w x hw (fun _ => hpos) (hfits x (by simp))).bind
      (fun q hq => (hspans _ x q hq).2)
      (fun q hq => (Schema.itemSpans_bounds hspans _ _ q hq).1) fun w' hwrites hpos' => ?_
    rw [← hwrites.length_eq]
    exact ih hwrites.inv hwrites.buf hpos' fun y hy => hfits y (by simp [hy])

end Writes

/-! ## Whole values -/

namespace Schema

variable {env : Env}

/-- The writer of a field type writes the flat encoding, as far as the offset in unbounded
integers goes. -/
lemma write_spec (s : Schema) {w : Writer} (hw : w.Inv env) (hready : w.Ready) {v : s.Val}
    (hfits : Fits s v) (hbody : max int32Size.val s.largestPod ≤ env.maxBody) :
    Follows env (podSpans s w.written.length v) (flat s v) w (s.pack env v w.offset)
      (s.write env v w) := by
  induction s generalizing w with
  | pod size =>
    have hlen : (flat (pod size) v).length = size.val := List.Vector.toList_length v
    have h := writePod_spec hw (v := flat (pod size) v) (hlen ▸ size.property.1)
      (hlen ▸ (le_max_right _ _).trans hbody)
    rw [hlen] at h
    exact h
  | string => exact writeString_spec hw hfits ((le_max_left _ _).trans hbody)
  | vector elem ih =>
    change List elem.Val at v
    obtain ⟨hsize, hitems⟩ := hfits
    simp only [largestPod, max_self, ← max_assoc] at hbody
    have hens : Ensured env w (ensureBuffer env (wrap32 (env.sizeof elem)) w) :=
      ensureBuffer_spec hw fun b hb _ => hready (by simp [hb])
    have hoffset := ensureBuffer_offset hw (wrap32 (env.sizeof elem))
    have hsize := writeInt32_spec hens.inv v.length ((le_max_left _ _).trans hbody)
    rw [hoffset, hens.written_eq] at hsize
    rw [Schema.write, writeVector, pack, podSpans, flat_vector, ← List.singleton_append]
    refine Follows.of_ensured hens (hsize.bind ?_ ?_ fun w' hwrites hpos => ?_) ?_
    · intro q hq
      obtain rfl := List.mem_singleton.mp hq
      simp [Span.stop, int32Size, hens.written_eq]
    · rw [hens.written_eq]
      exact fun q hq => (itemSpans_bounds (podSpans_bounds elem) _ _ q hq).1
    · have hlen := hwrites.length_eq
      rw [hens.written_eq, length_le32] at hlen
      have hitems' := writeItems_spec (podSpans_bounds elem)
        (fun w x hw hr hx => ih hw hr hx hbody) hwrites.inv hwrites.buf hpos hitems
      rw [hlen] at hitems'
      exact hitems'
    · intro q hq
      exact (podSpans_bounds (vector elem) w.written.length v q hq).1
  | proto fields ih => exact ih hw hready hfits hbody
  | field first rest ih₁ ih₂ =>
    obtain ⟨hfits₁, hfits₂⟩ := hfits
    simp only [largestPod, max_le_iff] at hbody ih₁ ih₂
    refine (ih₁ hw hready hfits₁ ⟨hbody.1, hbody.2.1⟩).bind stop_le_of_mem_podSpans
      le_start_of_mem_podSpans fun w' hwrites hpos => ?_
    rw [← hwrites.length_eq]
    exact ih₂ hwrites.inv (fun _ => hpos) hfits₂ ⟨hbody.1, hbody.2.2⟩

end Schema

/-! ## The chunks of an object -/

/-- The chunks `SerializeObject` yields for `obj`. -/
structure RawChunks (env : Env) (s : Schema) (obj : s.Val) (chunks : List BufT) : Prop where
  raw : ∀ t ∈ chunks, t.RawChunk env
  last : ∃ front t, chunks = front ++ [t] ∧ t.isLast = true ∧ ∀ u ∈ front, u.isLast = false
  flatten_eq : (chunks.map BufT.bytes).flatten = Schema.flat s obj
  uncut : Uncut (Schema.podSpans s 0 obj) (chunkEnds 0 (chunks.map fun t => t.bytes.length))

lemma BufT.RawChunk.length_bytes {env : Env} {t : BufT} (h : t.RawChunk env) :
    t.bytes.length = t.buf.bufLen :=
  Buf.length_bytes (by rw [h.length_buf]; exact h.bufLen_le)

/-- An object and a `MAX_MESSAGE_BODY_LENGTH` the code is meant for. -/
structure Writable (env : Env) (s : Schema) (obj : s.Val) : Prop where
  fits : Schema.Fits s obj
  four_le : int32Size.val ≤ env.maxBody
  pod_le : s.largestPod ≤ env.maxBody

/-- No sum of an offset and a size on which the writing of `obj` depends leaves `int32_t`. -/
def SumsFit (env : Env) (s : Schema) (obj : s.Val) : Prop := (s.pack env obj 0).isSome

instance (env : Env) (s : Schema) (obj : s.Val) : Decidable (SumsFit env s obj) :=
  inferInstanceAs (Decidable ((s.pack env obj 0).isSome = true))

section SerializeObject

variable {env : Env} {s : Schema} {obj : s.Val}

/-- The sums fit when the whole encoding is shorter than `2 ^ 31`, and when the largest
block behind a full buffer is. -/
lemma Writable.sumsFit (h : Writable env s obj)
    (hsize : NoOverflow env.maxBody (max int32Size.val s.largestPod) (Schema.flat s obj).length) :
    SumsFit env s obj := by
  obtain ⟨o, hpack, -, -⟩ := s.pack_packs env obj (Nat.zero_le _) (max_le h.four_le h.pod_le)
    le_rfl (by rwa [Nat.zero_add])
  rw [SumsFit, hpack]
  rfl

lemma Writable.follows (h : Writable env s obj) :
    Follows env (Schema.podSpans s 0 obj) (Schema.flat s obj) ⟨[], none, 0⟩ (s.pack env obj 0)
      (s.write env obj ⟨[], none, 0⟩) :=
  s.write_spec (w := ⟨[], none, 0⟩) ⟨by simp, by simp, by simp⟩ (by simp [Writer.Ready]) h.fits
    (max_le h.four_le h.pod_le)

/-- When a sum does not fit, the writer does not get to the end. -/
lemma sumsFit_of_serializeObject (h : Writable env s obj) {chunks : List BufT}
    (hwrite : serializeObject env s obj = .ok chunks) : SumsFit env s obj := by
  by_contra hsums
  have hnone : s.pack env obj 0 = none := by simpa [SumsFit] using hsums
  obtain ⟨e, hrun⟩ := h.follows.none_of hnone
  rw [serializeObject, hrun] at hwrite
  cases hwrite

/-- When they fit, its chunks are a cut of the encoding. -/
theorem serializeObject_spec (h : Writable env s obj) (hsums : SumsFit env s obj) :
    ∃ chunks, serializeObject env s obj = .ok chunks ∧ RawChunks env s obj chunks := by
  obtain ⟨o, hpack⟩ := Option.isSome_iff_exists.mp hsums
  obtain ⟨w, hrun, hwrites, rfl, hpos⟩ := h.follows.some_of o hpack
  obtain ⟨b, hb⟩ := Option.ne_none_iff_exists'.mp hwrites.buf
  obtain ⟨-, hlen, hoffset⟩ := hwrites.inv.buffer b hb
  have hbytes : BufT.bytes ⟨{ b with bufLen := w.offset }, 0, 0, true⟩ = w.pending := by
    simp [BufT.bytes, Buf.bytes, Writer.pending, hb]
  refine ⟨w.yielded ++ [⟨{ b with bufLen := w.offset }, 0, 0, true⟩], ?_, ?_,
    ⟨w.yielded, _, rfl, rfl, fun u hu => (hwrites.inv.raw u hu).2⟩, ?_, ?_⟩
  · simp only [serializeObject, hrun, bind, Except.bind, hb]
  · intro t ht
    rcases List.mem_append.mp ht with ht | ht
    · exact (hwrites.inv.raw t ht).1
    · obtain rfl := List.mem_singleton.mp ht
      exact ⟨hpos, hoffset, hlen, rfl, rfl⟩
  · have hall : w.written = Schema.flat s obj := by
      simpa [Writer.written, Writer.pending] using hwrites.written_eq
    simp [hbytes, ← hall, Writer.written]
  · obtain ⟨new, hends, -, huncut⟩ := hwrites.ends_eq
    have hall : w.written.length = (Schema.flat s obj).length := by
      rw [hwrites.written_eq]
      simp [Writer.written, Writer.pending]
    have hsum : (w.yielded.map fun t => t.bytes.length).sum + w.pending.length
        = w.written.length := by
      rw [Writer.written, List.length_append, List.length_flatten, List.map_map]
      rfl
    rw [List.map_append, chunkEnds_append, uncut_append_ends]
    have hends' : chunkEnds 0 (w.yielded.map fun t => t.bytes.length) = new := by
      simpa [Writer.ends] using hends
    rw [hends']
    refine ⟨by simpa [Writer.written, Writer.pending] using huncut, ?_⟩
    refine uncut_of_ge Schema.stop_le_of_mem_podSpans fun e he => ?_
    simp only [List.map_cons, List.map_nil, chunkEnds_cons, chunkEnds_nil, List.mem_singleton,
      hbytes] at he
    omega

end SerializeObject

end OldPart
