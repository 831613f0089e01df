import OldPart.Proto.WriteCorrect

/-!
# The writer without its memory

How an object is cut into chunks, and what they hold, does not depend on the memory they are
written to.  `Schema.fill` cuts it without any.  A writer stands where that does: each of its
buffers begins with what is written to it, and behind that it is what `MakeBuffer` handed out.
-/

namespace OldPart

/-- The chunks that are complete, and what the one behind them holds so far. -/
structure Chunked where
  chunks : List (List UInt8)
  cur : List UInt8
deriving DecidableEq, Repr

namespace Chunked

/-- Nothing so far. -/
def empty : Chunked := ⟨[], []⟩

/-- The current chunk is complete. -/
def flush (f : Chunked) : Chunked := ⟨f.chunks ++ [f.cur], []⟩

/-- Bytes go into the current chunk. -/
def add (f : Chunked) (bs : List UInt8) : Chunked := { f with cur := f.cur ++ bs }

/-- Room is made for a number of bytes that nothing is written to. -/
def room (maxBody : ℕ) (eleSize : ℤ) (f : Chunked) : Chunked :=
  if 0 < f.cur.length ∧ wrap32 (f.cur.length + eleSize) > maxBody then f.flush else f

/-- Bytes that stay together. -/
def block (maxBody : ℕ) (bs : List UInt8) (f : Chunked) : Option Chunked :=
  if f.cur.length + bs.length < 2 ^ 31 then
    some ((if maxBody < f.cur.length + bs.length then f.flush else f).add bs)
  else none

/-- Bytes that fill one chunk after the other. -/
def chars (maxBody : ℕ) : List UInt8 → Chunked → Option Chunked
  | [], f => some f
  | c :: cs, f =>
      if f.cur.length = maxBody then
        if maxBody + 1 < 2 ^ 31 then chars maxBody cs (f.flush.add [c]) else none
      else chars maxBody cs (f.add [c])

/-- Bytes for which there is room go into the current chunk. -/
lemma chars_append {maxBody : ℕ} {bs : List UInt8} {f : Chunked}
    (h : f.cur.length + bs.length ≤ maxBody) (cs : List UInt8) :
    chars maxBody (bs ++ cs) f = chars maxBody cs (f.add bs) := by
  induction bs generalizing f with
  | nil => simp [add]
  | cons b bs ih =>
    rw [List.length_cons] at h
    have hroom : f.cur.length ≠ maxBody := by omega
    have hadd : (f.add [b]).add bs = f.add (b :: bs) := by simp [add]
    rw [List.cons_append, chars, if_neg hroom, ih, hadd]
    simp only [add, List.length_append, List.length_singleton]
    omega

end Chunked

/-- The chunks of a value that is written behind others. -/
def Schema.fill (env : Env) : (s : Schema) → s.Val → Chunked → Option Chunked
  | pod _, v => Chunked.block env.maxBody v.toList
  | string, v => fun f =>
      (Chunked.block env.maxBody (le32 (List.length v)) f).bind
        (Chunked.chars env.maxBody (List.take (totalLen v) v))
  | vector elem, v => fun f =>
      (Chunked.block env.maxBody (le32 (List.length v))
        (f.room env.maxBody (wrap32 (env.sizeof elem)))).bind
        fun f => List.foldlM (fun f item => fill env elem item f) f v
  | proto fields, v => fill env fields v
  | field first rest, v => fun f => (fill env first v.1 f).bind (fill env rest v.2)

/-- The chunks of an object, unless a sum in `EnsureBuffer` that matters leaves `int32_t`. -/
def Schema.chunks (env : Env) (s : Schema) (obj : s.Val) : Option (List (List UInt8)) :=
  (s.fill env obj .empty).map fun f => f.chunks ++ [f.cur]

/-! ## The writer that stands there -/

/-- The `i`-th buffer of the writer with `c` in it. -/
def Env.filled (env : Env) (i : ℕ) (c : List UInt8) : Buf where
  buf := c ++ (env.makeBuffer .ensureBuffer i).buf.drop c.length
  bufLen := env.maxBody

/-- The same when it is yielded. -/
def Env.chunkBuf (env : Env) (i : ℕ) (c : List UInt8) : Buf :=
  { env.filled i c with bufLen := c.length }

/-- The writer that has got there. -/
def Chunked.writer (env : Env) (f : Chunked) : Writer where
  yielded := (f.chunks.mapIdx env.chunkBuf).map fun b => ⟨b, 0, 0, false⟩
  buf := some (env.filled f.chunks.length f.cur)
  offset := f.cur.length

/-- Every chunk holds something, and the current one fits a buffer. -/
structure Chunked.Sound (maxBody : ℕ) (f : Chunked) : Prop where
  chunks : ∀ c ∈ f.chunks, 0 < c.length ∧ c.length ≤ maxBody
  cur : f.cur.length ≤ maxBody

/-- A writer stands where `f` does, or neither has begun. -/
def Stands (env : Env) (f : Chunked) (w : Writer) : Prop :=
  f.Sound env.maxBody ∧ (w = ⟨[], none, 0⟩ ∧ f = .empty ∨ w = f.writer env)

/-- A run of the writer gets where the value gets without memory, or both fail. -/
structure Fills (env : Env) (filled : Option Chunked) (run : Except Fault Writer) : Prop where
  some_of : ∀ f, filled = some f → run = .ok (f.writer env) ∧ f.Sound env.maxBody ∧
    0 < f.cur.length
  none_of : filled = none → ∃ e, run = .error e

section Fills

variable {env : Env} {f : Chunked} {w : Writer}

lemma Chunked.sound_empty (maxBody : ℕ) : Chunked.empty.Sound maxBody :=
  ⟨by simp [Chunked.empty], Nat.zero_le _⟩

lemma Chunked.Sound.flush {maxBody : ℕ} (h : f.Sound maxBody) (hpos : 0 < f.cur.length) :
    f.flush.Sound maxBody := by
  refine ⟨?_, Nat.zero_le _⟩
  intro c hc
  rcases List.mem_append.mp hc with hc | hc
  · exact h.chunks c hc
  · obtain rfl := List.mem_singleton.mp hc
    exact ⟨hpos, h.cur⟩

lemma Chunked.Sound.add {maxBody : ℕ} (h : f.Sound maxBody) {bs : List UInt8}
    (hroom : f.cur.length + bs.length ≤ maxBody) : (f.add bs).Sound maxBody :=
  ⟨h.chunks, by simpa [Chunked.add] using hroom⟩

lemma Fills.intro (hf : f.Sound env.maxBody) (hpos : 0 < f.cur.length) :
    Fills env (some f) (.ok (f.writer env)) := by
  refine ⟨?_, by simp⟩
  intro f' hf'
  obtain rfl := Option.some.inj hf'
  exact ⟨rfl, hf, hpos⟩

lemma Fills.bind {filled : Option Chunked} {run : Except Fault Writer}
    {g : Chunked → Option Chunked} {k : Writer → Except Fault Writer} (h : Fills env filled run)
    (hk : ∀ f, f.Sound env.maxBody → 0 < f.cur.length → Fills env (g f) (k (f.writer env))) :
    Fills env (filled.bind g) (run >>= k) := by
  cases hfilled : filled with
  | none =>
    obtain ⟨e, rfl⟩ := h.none_of hfilled
    exact ⟨by simp, fun _ => ⟨e, rfl⟩⟩
  | some f =>
    obtain ⟨rfl, hf, hpos⟩ := h.some_of f hfilled
    exact hk f hf hpos

/-- `EnsureBuffer` completes the current chunk when the sum is too large. -/
lemma ensureBuffer_writer (env : Env) (f : Chunked) (ele : ℤ) :
    ensureBuffer env ele (f.writer env) =
      (if wrap32 (f.cur.length + ele) > env.maxBody then f.flush else f).writer env := by
  have hbuf : (f.writer env).buf = some (env.filled f.chunks.length f.cur) := rfl
  by_cases hflush : wrap32 (f.cur.length + ele) > env.maxBody
  · rw [ensureBuffer_flush hbuf hflush, if_pos hflush, Chunked.writer, Chunked.writer,
      Chunked.flush, List.mapIdx_concat, List.map_append, List.length_append, List.length_map,
      List.length_mapIdx]
    rfl
  · rw [ensureBuffer_keep hbuf hflush, if_neg hflush]

/-- The first call makes a buffer. -/
lemma ensureBuffer_start (env : Env) (ele : ℤ) :
    ensureBuffer env ele ⟨[], none, 0⟩ = Chunked.empty.writer env := rfl

/-- Room for bytes that fit a buffer. -/
lemma Stands.ensureBuffer (h : Stands env f w) {n : ℕ} (hn : n ≤ env.maxBody) :
    ensureBuffer env n w =
      (if wrap32 (f.cur.length + n) > env.maxBody then f.flush else f).writer env := by
  obtain ⟨-, ⟨rfl, rfl⟩ | rfl⟩ := h
  · have hmax := env.maxBody_lt
    have hsum : wrap32 (((Chunked.empty.cur.length : ℕ) : ℤ) + n) = n := by
      rw [Chunked.empty, List.length_nil, Nat.cast_zero, zero_add]
      exact wrap32_natCast (by omega)
    have hkeep : ¬wrap32 (((Chunked.empty.cur.length : ℕ) : ℤ) + n) > env.maxBody := by
      rw [hsum]
      omega
    rw [if_neg hkeep]
    exact ensureBuffer_start env n
  · exact ensureBuffer_writer env f n

/-- Room that nothing is written to. -/
lemma Stands.ensureRoom (h : Stands env f w) (hready : w.Ready) (ele : ℤ) :
    OldPart.ensureBuffer env ele w = (f.room env.maxBody ele).writer env := by
  obtain ⟨-, ⟨rfl, rfl⟩ | rfl⟩ := h
  · exact ensureBuffer_start env ele
  · have hpos : 0 < f.cur.length := hready (by simp [Chunked.writer])
    rw [ensureBuffer_writer, Chunked.room]
    simp only [hpos, true_and]

lemma Chunked.Sound.room (h : f.Sound env.maxBody) (ele : ℤ) :
    (f.room env.maxBody ele).Sound env.maxBody := by
  unfold Chunked.room
  split
  · next hroom => exact h.flush hroom.1
  · exact h

lemma Env.drop_length_filled (env : Env) (i : ℕ) (c : List UInt8) :
    (env.filled i c).buf.drop c.length = (env.makeBuffer .ensureBuffer i).buf.drop c.length :=
  List.drop_left

lemma Env.length_filled (env : Env) (i : ℕ) {c : List UInt8} (hc : c.length ≤ env.maxBody) :
    (env.filled i c).buf.length = env.maxBody := by
  rw [filled, List.length_append, List.length_drop, length_makeBuffer]
  omega

/-- Copying what there is room for. -/
lemma put_writer {src : List UInt8} (hroom : f.cur.length + src.length ≤ env.maxBody) :
    (f.writer env).put src = .ok ((f.add src).writer env) := by
  have hfit : f.cur.length + src.length ≤ (env.filled f.chunks.length f.cur).buf.length := by
    rw [Env.length_filled env _ (by omega)]
    exact hroom
  have hrest : (env.filled f.chunks.length f.cur).buf.drop (f.cur.length + src.length) =
      (env.makeBuffer .ensureBuffer f.chunks.length).buf.drop (f.cur ++ src).length := by
    rw [← List.drop_drop, Env.drop_length_filled, List.drop_drop, List.length_append]
  have hfront : (env.filled f.chunks.length f.cur).buf.take f.cur.length = f.cur := List.take_left
  have hcopy : (env.filled f.chunks.length f.cur).copyN f.cur.length src =
      .ok (env.filled f.chunks.length (f.cur ++ src)) := by
    rw [Buf.copyN, if_pos hfit, hfront, hrest]
    rfl
  simp only [Writer.put, Chunked.writer, hcopy, ok_bind, Chunked.add, List.length_append]
  rfl

/-- What is true of every writer that stands somewhere. -/
lemma Chunked.Sound.inv (h : f.Sound env.maxBody) : (f.writer env).Inv env := by
  refine ⟨?_, ?_, by simp [Chunked.writer]⟩
  · intro t ht
    obtain ⟨b, hb, rfl⟩ := List.mem_map.mp ht
    obtain ⟨i, hi, rfl⟩ := List.mem_mapIdx.mp hb
    obtain ⟨hpos, hle⟩ := h.chunks _ (List.getElem_mem hi)
    exact ⟨⟨hpos, hle, Env.length_filled env i hle, rfl, rfl⟩, rfl⟩
  · intro b hb
    obtain rfl := Option.some.inj hb
    exact ⟨rfl, Env.length_filled env _ h.cur, h.cur⟩

lemma Chunked.writer_buf_ne_none (env : Env) (f : Chunked) : (f.writer env).buf ≠ none := by
  simp [writer]

/-! ## Every writer fills -/

/-- A POD that fits a buffer is a block. -/
lemma writePod_fills (h : Stands env f w) {v : List UInt8} (hpos : 0 < v.length)
    (hbody : v.length ≤ env.maxBody) : Fills env (f.block env.maxBody v) (writePod env v w) := by
  have hmax := env.maxBody_lt
  have hcast : wrap32 v.length = v.length := wrap32_natCast (by omega)
  rw [writePod, hcast, h.ensureBuffer hbody, Chunked.block]
  by_cases hsum : f.cur.length + v.length < 2 ^ 31
  · have hwrap : wrap32 ((f.cur.length : ℤ) + v.length) = (f.cur.length + v.length : ℕ) := by
      rw [← Nat.cast_add]
      exact wrap32_natCast hsum
    simp only [if_pos hsum, hwrap, gt_iff_lt, Nat.cast_lt]
    have hadd : ∀ g : Chunked, 0 < (g.add v).cur.length := by
      intro g
      rw [Chunked.add, List.length_append]
      omega
    by_cases hflush : env.maxBody < f.cur.length + v.length
    · have hroom : f.flush.cur.length + v.length ≤ env.maxBody := by simpa [Chunked.flush]
      simp only [if_pos hflush, put_writer hroom]
      exact Fills.intro ((h.1.flush (by omega)).add hroom) (hadd _)
    · have hroom : f.cur.length + v.length ≤ env.maxBody := by omega
      simp only [if_neg hflush, put_writer hroom]
      exact Fills.intro (h.1.add hroom) (hadd _)
  · -- the sum wraps around, and the copy starts behind what is already there
    have hcur := h.1.cur
    have hneg : wrap32 ((f.cur.length : ℤ) + v.length) < 0 :=
      wrap32_neg_of_le (by omega) (by omega)
    have hkeep : ¬wrap32 ((f.cur.length : ℤ) + v.length) > env.maxBody := by omega
    have hover : env.maxBody < (f.writer env).offset + v.length := by
      change env.maxBody < f.cur.length + v.length
      omega
    rw [if_neg hsum, if_neg hkeep,
      Writer.put_pastBuffer h.1.inv (f.writer_buf_ne_none env) hover]
    exact ⟨by simp, fun _ => ⟨_, rfl⟩⟩

lemma writeInt32_fills (h : Stands env f w) (n : ℕ) (hfour : int32Size.val ≤ env.maxBody) :
    Fills env (f.block env.maxBody (le32 n)) (writeInt32 env n w) :=
  writePod_fills h int32Size.property.1 hfour

/-- A turn of the string loop starts with room for a byte. -/
lemma ensure_one_writer (hlarge : f.cur.length = env.maxBody → env.maxBody + 1 < 2 ^ 31) :
    (if (f.writer env).offset = env.maxBody then ensureBuffer env 1 (f.writer env)
      else f.writer env) =
      (if f.cur.length = env.maxBody then f.flush else f).writer env := by
  have hoffset : (f.writer env).offset = f.cur.length := rfl
  rw [hoffset]
  split
  · next hfull =>
    have hlt := hlarge hfull
    have hsum : wrap32 ((f.cur.length : ℤ) + 1) = (f.cur.length + 1 : ℕ) := by
      rw [← Nat.cast_one, ← Nat.cast_add]
      exact wrap32_natCast (by omega)
    have hflush : wrap32 ((f.cur.length : ℤ) + 1) > env.maxBody := by
      rw [hsum]
      omega
    rw [ensureBuffer_writer, if_pos hflush]
  · rfl

/-- Characters behind a full chunk are characters in a new one. -/
lemma chars_flush {maxBody : ℕ} (hbody : 0 < maxBody)
    (hlarge : f.cur.length = maxBody → maxBody + 1 < 2 ^ 31) (c : UInt8) (cs : List UInt8) :
    Chunked.chars maxBody (c :: cs) f =
      Chunked.chars maxBody (c :: cs) (if f.cur.length = maxBody then f.flush else f) := by
  split
  · next hfull =>
    have hempty : f.flush.cur.length ≠ maxBody := hbody.ne
    rw [Chunked.chars, if_pos hfull, if_pos (hlarge hfull), Chunked.chars, if_neg hempty]
  · rfl

/-- The string loop fills one buffer after the other. -/
lemma writeChars_fills (hbody : 0 < env.maxBody) (hf : f.Sound env.maxBody)
    (hpos : 0 < f.cur.length) {turns : ℕ} {v : List UInt8} (hturns : v.length ≤ turns) :
    Fills env (f.chars env.maxBody v) (writeChars env turns v (f.writer env)) := by
  induction turns generalizing v f with
  | zero =>
    obtain rfl := List.eq_nil_of_length_eq_zero (Nat.le_zero.mp hturns)
    exact Fills.intro hf hpos
  | succ turns ih =>
    cases v with
    | nil => exact Fills.intro hf hpos
    | cons c cs =>
      by_cases hstuck : f.cur.length = env.maxBody ∧ ¬env.maxBody + 1 < 2 ^ 31
      · obtain ⟨hfull, hlarge⟩ := hstuck
        rw [Chunked.chars, if_pos hfull, if_neg hlarge]
        have hhang := writeChars_hang hf.inv (f.writer_buf_ne_none env) hfull hlarge turns.succ c cs
        exact ⟨by simp, fun _ => hhang⟩
      · have hlarge : f.cur.length = env.maxBody → env.maxBody + 1 < 2 ^ 31 := fun hfull => by
          by_contra hlarge
          exact hstuck ⟨hfull, hlarge⟩
        have hroom : (if f.cur.length = env.maxBody then f.flush else f).cur.length <
            env.maxBody := by
          have hcur := hf.cur
          split
          · exact hbody
          · omega
        have hsound : (if f.cur.length = env.maxBody then f.flush else f).Sound env.maxBody := by
          split
          · exact hf.flush hpos
          · exact hf
        have hbuf : (f.writer env).buf = some (env.filled f.chunks.length f.cur) := rfl
        have hcap : (env.filled f.chunks.length f.cur).bufLen = env.maxBody := rfl
        rw [chars_flush hbody hlarge, writeChars.eq_def]
        simp only [hbuf, hcap, ensure_one_writer hlarge]
        generalize (if f.cur.length = env.maxBody then f.flush else f) = f₁ at hroom hsound ⊢
        have hbuf₁ : (f₁.writer env).buf.elim 0 Buf.bufLen = env.maxBody := rfl
        have hoffset₁ : (f₁.writer env).offset = f₁.cur.length := rfl
        rw [hbuf₁, hoffset₁]
        generalize hn : min (c :: cs).length (env.maxBody - f₁.cur.length) = n
        have hcons : (c :: cs).length = cs.length + 1 := rfl
        have htake : ((c :: cs).take n).length = n := by
          rw [List.length_take]
          omega
        have hfit : f₁.cur.length + ((c :: cs).take n).length ≤ env.maxBody := by omega
        have hadd : 0 < (f₁.add ((c :: cs).take n)).cur.length := by
          rw [Chunked.add, List.length_append]
          omega
        have hsplit := Chunked.chars_append hfit ((c :: cs).drop n)
        rw [List.take_append_drop] at hsplit
        rw [hsplit, put_writer hfit]
        refine ih (hsound.add hfit) hadd ?_
        rw [List.length_drop]
        omega

lemma writeString_fills (h : Stands env f w) (v : List UInt8)
    (hfour : int32Size.val ≤ env.maxBody) :
    Fills env ((f.block env.maxBody (le32 v.length)).bind
      (Chunked.chars env.maxBody (v.take (totalLen v)))) (writeString env v w) := by
  have hbody : 0 < env.maxBody := int32Size.property.1.trans_le hfour
  refine (writeInt32_fills h v.length hfour).bind fun f hf hpos =>
    writeChars_fills hbody hf hpos ?_
  exact List.length_take_le _ _

/-- The loop over the elements, from a specification of the element writer. -/
lemma writeItems_fills {α : Type} {fill : α → Chunked → Option Chunked}
    {write : α → Writer → Except Fault Writer}
    (hwrite : ∀ x f w, Stands env f w → w.Ready → Fills env (fill x f) (write x w)) (xs : List α)
    (hf : f.Sound env.maxBody) (hpos : 0 < f.cur.length) :
    Fills env (xs.foldlM (fun f item => fill item f) f)
      (xs.foldlM (fun w item => write item w) (f.writer env)) := by
  induction xs generalizing f with
  | nil => exact Fills.intro hf hpos
  | cons x xs ih =>
    rw [List.foldlM_cons, List.foldlM_cons]
    exact (hwrite x f _ ⟨hf, Or.inr rfl⟩ fun _ => hpos).bind fun f' hf' hpos' => ih hf' hpos'

namespace Schema

/-- The writer of a field type fills as the value does. -/
lemma write_fills (s : Schema) (v : s.Val) (h : Stands env f w) (hready : w.Ready)
    (hbody : max int32Size.val s.largestPod ≤ env.maxBody) :
    Fills env (s.fill env v f) (s.write env v w) := by
  induction s generalizing f w with
  | pod size =>
    have hlen : (List.Vector.toList v).length = size.val := List.Vector.toList_length v
    refine writePod_fills h ?_ ?_
    · rw [hlen]
      exact size.property.1
    · rw [hlen]
      exact (le_max_right _ _).trans hbody
  | string => exact writeString_fills h v ((le_max_left _ _).trans hbody)
  | vector elem ih =>
    simp only [largestPod, max_self, ← max_assoc] at hbody
    have hsize := writeInt32_fills ⟨h.1.room (wrap32 (env.sizeof elem)), Or.inr rfl⟩
      (List.length v) ((le_max_left _ _).trans hbody)
    rw [Schema.write, writeVector, h.ensureRoom hready]
    exact hsize.bind fun f' hf hpos =>
      writeItems_fills (fun x f w hw hr => ih x hw hr hbody) v hf hpos
  | proto fields ih => exact ih v h hready hbody
  | field first rest ih₁ ih₂ =>
    simp only [largestPod, max_le_iff] at hbody ih₁ ih₂
    refine (ih₁ v.1 h hready ⟨hbody.1, hbody.2.1⟩).bind fun f' hf hpos => ?_
    exact ih₂ v.2 ⟨hf, Or.inr rfl⟩ (fun _ => hpos) ⟨hbody.1, hbody.2.2⟩

end Schema

end Fills

/-! ## The chunks of an object -/

section SerializeObject

lemma stands_start (env : Env) : Stands env .empty ⟨[], none, 0⟩ :=
  ⟨Chunked.sound_empty env.maxBody, Or.inl ⟨rfl, rfl⟩⟩

lemma ready_start : Writer.Ready ⟨[], none, 0⟩ := fun hbuf => (hbuf rfl).elim

variable {env : Env} {s : Schema} {obj : s.Val}

/-- A chunk fits a buffer. -/
lemma length_le_of_mem_chunks (hbody : max int32Size.val s.largestPod ≤ env.maxBody)
    {cs : List (List UInt8)} (hcs : s.chunks env obj = some cs) {c : List UInt8} (hc : c ∈ cs) :
    c.length ≤ env.maxBody := by
  obtain ⟨f, hf, rfl⟩ := Option.map_eq_some_iff.mp hcs
  obtain ⟨-, hsound, -⟩ := (s.write_fills obj (stands_start env) ready_start hbody).some_of f hf
  rcases List.mem_append.mp hc with hc | hc
  · exact (hsound.chunks c hc).2
  · obtain rfl := List.mem_singleton.mp hc
    exact hsound.cur

/-- `SerializeObject` yields the chunks of the object, each in a buffer of its own, if there are
any. -/
lemma serializeObject_fills (hbody : max int32Size.val s.largestPod ≤ env.maxBody) :
    (∀ cs, s.chunks env obj = some cs → ∃ raw, serializeObject env s obj = .ok raw ∧
      raw.map BufT.buf = cs.mapIdx env.chunkBuf ∧ ∀ t ∈ raw, t.RawChunk env) ∧
    (s.chunks env obj = none → ∃ e, serializeObject env s obj = .error e) := by
  have hfills := s.write_fills obj (stands_start env) ready_start hbody
  constructor
  · intro cs hcs
    obtain ⟨f, hf, rfl⟩ := Option.map_eq_some_iff.mp hcs
    obtain ⟨hrun, hsound, hpos⟩ := hfills.some_of f hf
    refine ⟨(f.writer env).yielded ++ [⟨env.chunkBuf f.chunks.length f.cur, 0, 0, true⟩],
      ?_, ?_, ?_⟩
    · rw [serializeObject, hrun]
      rfl
    · rw [List.map_append, List.mapIdx_concat, Chunked.writer, List.map_map]
      exact congrArg (· ++ [env.chunkBuf f.chunks.length f.cur]) (List.map_id _)
    · intro t ht
      rcases List.mem_append.mp ht with ht | ht
      · exact (hsound.inv.raw t ht).1
      · obtain rfl := List.mem_singleton.mp ht
        exact ⟨hpos, hsound.cur, Env.length_filled env _ hsound.cur, rfl, rfl⟩
  · intro hnone
    obtain ⟨e, hrun⟩ := hfills.none_of (Option.map_eq_none_iff.mp hnone)
    refine ⟨e, ?_⟩
    rw [serializeObject, hrun]
    rfl

end SerializeObject

end OldPart
