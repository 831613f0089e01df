import OldPart.Serializer.Serialize

/-!
# How the messages of a proto are numbered

Where `Serialize` does not fail, `MakeMessageFromBuf` is given bodies of which the last one, and
no other, is marked as the last.  So the messages of a proto are numbered from one on, and the
last number is negative.
-/

namespace OldPart

/-- There are `n` bodies and a last one, and only that is marked. -/
def MarksLast (n : ℕ) (bodies : List BufT) : Prop :=
  bodies.map BufT.isLast = List.replicate n false ++ [true]

/-- None of the bodies is marked as the last. -/
def Unmarked (bodies : List BufT) : Prop := ∀ t ∈ bodies, t.isLast = false

lemma unmarked_nil : Unmarked [] := by simp [Unmarked]

lemma Unmarked.concat {bodies : List BufT} (h : Unmarked bodies) {t : BufT}
    (ht : t.isLast = false) : Unmarked (bodies ++ [t]) := by
  intro x hx
  rcases List.mem_append.mp hx with hx | hx
  · exact h x hx
  · rwa [List.mem_singleton.mp hx]

lemma Unmarked.marksLast {bodies : List BufT} (h : Unmarked bodies) {t : BufT}
    (ht : t.isLast = true) : MarksLast bodies.length (bodies ++ [t]) := by
  rw [MarksLast, List.map_append, List.map_singleton, ht,
    List.map_eq_replicate_iff.mpr h]

/-! ## The writer -/

/-- The writer has just written something. -/
structure Writer.Wrote (w : Writer) : Prop where
  unmarked : Unmarked w.yielded
  filled : ∃ b, w.buf = some b ∧ 0 < w.offset ∧ w.offset ≤ b.buf.length

section Writer

variable {env : Env} {w w' : Writer}

lemma unmarked_ensureBuffer (env : Env) (ele : ℤ) (h : Unmarked w.yielded) :
    Unmarked (ensureBuffer env ele w).yielded := by
  cases hb : w.buf with
  | none => simpa [ensureBuffer, hb] using h
  | some b =>
    by_cases hflush : wrap32 (w.offset + ele) > b.bufLen
    · simpa [ensureBuffer, hb, hflush] using h.concat rfl
    · simpa [ensureBuffer, hb, hflush] using h

lemma unmarked_put {src : List UInt8} (h : Unmarked w.yielded) (hput : w.put src = .ok w') :
    Unmarked w'.yielded ∧ (src ≠ [] → w'.Wrote) := by
  unfold Writer.put at hput
  cases hb : w.buf with
  | none =>
    rw [hb] at hput
    cases hput
  | some b =>
    rw [hb] at hput
    dsimp only at hput
    by_cases hroom : w.offset + src.length ≤ b.buf.length
    · obtain ⟨b', hcopy, -, hlength, -⟩ := Buf.copyN_spec hroom
      rw [hcopy, ok_bind] at hput
      obtain rfl := Except.ok.inj hput
      refine ⟨h, fun hsrc => ⟨h, b', rfl, ?_, hroom.trans_eq hlength.symm⟩⟩
      have := List.length_pos_of_ne_nil hsrc
      dsimp only
      omega
    · rw [Buf.copyN, if_neg hroom] at hput
      cases hput

lemma wrote_writePod {v : List UInt8} (hv : v ≠ []) (h : Unmarked w.yielded)
    (hwrite : writePod env v w = .ok w') : w'.Wrote :=
  (unmarked_put (unmarked_ensureBuffer env _ h) hwrite).2 hv

lemma wrote_writeInt32 {n : ℕ} (h : Unmarked w.yielded) (hwrite : writeInt32 env n w = .ok w') :
    w'.Wrote :=
  wrote_writePod (List.cons_ne_nil _ _) h hwrite

lemma wrote_writeChars {turns : ℕ} {v : List UInt8} (hv : v ≠ []) (h : Unmarked w.yielded)
    (hwrite : writeChars env turns v w = .ok w') : w'.Wrote := by
  induction turns generalizing v w with
  | zero =>
    cases v with
    | nil => exact (hv rfl).elim
    | cons c cs => cases hwrite
  | succ turns ih =>
    cases v with
    | nil => exact (hv rfl).elim
    | cons c cs =>
      rw [writeChars] at hwrite
      cases hb : w.buf with
      | none =>
        rw [hb] at hwrite
        cases hwrite
      | some b =>
        rw [hb] at hwrite
        dsimp only at hwrite
        have hunmarked :
            Unmarked (if w.offset = b.bufLen then ensureBuffer env 1 w else w).yielded := by
          split
          · exact unmarked_ensureBuffer env 1 h
          · exact h
        generalize (if w.offset = b.bufLen then ensureBuffer env 1 w else w) = w₁
          at hwrite hunmarked
        generalize min (c :: cs).length (w₁.buf.elim 0 Buf.bufLen - w₁.offset) = n at hwrite
        obtain ⟨w₂, hput, hwrite⟩ := exists_of_bind_eq_ok hwrite
        obtain ⟨hunmarked₂, hwrote⟩ := unmarked_put hunmarked hput
        by_cases hrest : (c :: cs).drop n = []
        · -- the turn has taken all that was left, so it has taken something
          have htake : (c :: cs).take n ≠ [] := by
            intro htake
            have hall := List.take_append_drop n (c :: cs)
            rw [htake, hrest] at hall
            cases hall
          rw [hrest, writeChars_nil] at hwrite
          exact Except.ok.inj hwrite ▸ hwrote htake
        · exact ih hrest hunmarked₂ hwrite

lemma wrote_writeString {v : List UInt8} (h : Unmarked w.yielded)
    (hwrite : writeString env v w = .ok w') : w'.Wrote := by
  obtain ⟨w₁, hsize, hwrite⟩ := exists_of_bind_eq_ok hwrite
  have hwrote := wrote_writeInt32 h hsize
  by_cases hchars : v.take (totalLen v) = []
  · rw [hchars, writeChars_nil] at hwrite
    exact Except.ok.inj hwrite ▸ hwrote
  · exact wrote_writeChars hchars hwrote.unmarked hwrite

lemma wrote_foldlM {α : Type} {write : α → Writer → Except Fault Writer}
    (hitem : ∀ x w w', Unmarked w.yielded → write x w = .ok w' → w'.Wrote) {items : List α}
    (h : w.Wrote) (hwrite : items.foldlM (fun w item => write item w) w = .ok w') : w'.Wrote := by
  induction items generalizing w with
  | nil => exact Except.ok.inj hwrite ▸ h
  | cons x xs ih =>
    rw [List.foldlM_cons] at hwrite
    obtain ⟨w₁, hx, hwrite⟩ := exists_of_bind_eq_ok hwrite
    exact ih (hitem x w w₁ h.unmarked hx) hwrite

lemma wrote_write (s : Schema) {v : s.Val} (h : Unmarked w.yielded)
    (hwrite : s.write env v w = .ok w') : w'.Wrote := by
  induction s generalizing w w' with
  | pod size =>
    refine wrote_writePod (List.ne_nil_of_length_pos ?_) h hwrite
    rw [List.Vector.toList_length]
    exact size.property.1
  | string => exact wrote_writeString h hwrite
  | vector elem ih =>
    obtain ⟨w₁, hsize, hwrite⟩ := exists_of_bind_eq_ok hwrite
    exact wrote_foldlM (fun x w w' hw => ih hw)
      (wrote_writeInt32 (unmarked_ensureBuffer env _ h) hsize) hwrite
  | proto fields ih => exact ih h hwrite
  | field first rest ih₁ ih₂ =>
    obtain ⟨w₁, hfirst, hwrite⟩ := exists_of_bind_eq_ok hwrite
    exact ih₂ (ih₁ h hfirst).unmarked hwrite

/-- The last body of the writer is marked, and it is not empty. -/
lemma serializeObject_marksLast {s : Schema} {obj : s.Val} {raw : List BufT}
    (hwrite : serializeObject env s obj = .ok raw) :
    ∃ front t, raw = front ++ [t] ∧ t.isLast = true ∧ Unmarked front ∧ t.bytes ≠ [] := by
  obtain ⟨w, hobj, hwrite⟩ := exists_of_bind_eq_ok hwrite
  obtain ⟨hunmarked, b, hb, hpos, hle⟩ := wrote_write s unmarked_nil hobj
  rw [hb] at hwrite
  obtain rfl := Except.ok.inj hwrite
  refine ⟨_, _, rfl, rfl, hunmarked, List.ne_nil_of_length_pos ?_⟩
  change 0 < (b.buf.take w.offset).length
  rw [List.length_take]
  omega

end Writer

/-! ## `CompressBuf` and `EncryptBuf` -/

section CompressBuf

variable {u : Setup} {w w' : Compressor u.zlib}

lemma Compressor.unmarked_flush (h : Unmarked w.yielded) : Unmarked w.flush.yielded :=
  h.concat rfl

lemma Compressor.unmarked_tail (h : Unmarked w.yielded) (htail : w.tail = .ok w') :
    Unmarked w'.yielded := by
  unfold tail at htail
  split at htail
  · exact Except.ok.inj htail ▸ h
  · split at htail
    · obtain ⟨result, -, htail⟩ := exists_of_bind_eq_ok htail
      exact Except.ok.inj htail ▸ unmarked_flush h
    · cases htail

lemma Compressor.marksLast_finish (h : Unmarked w.yielded) (hfinish : w.finish = .ok w') :
    ∃ n, MarksLast n w'.yielded := by
  obtain ⟨w₁, htail, hfinish⟩ := exists_of_bind_eq_ok hfinish
  obtain rfl := Except.ok.inj hfinish
  exact ⟨_, (unmarked_tail h htail).marksLast rfl⟩

/-- In front of the end nothing is marked. -/
lemma unmarked_afterCompress {isLast : Bool} {inBuf : List UInt8}
    (hmore : (isLast && inBuf.isEmpty) = false) (h : Unmarked w.yielded)
    (hafter : w.afterCompress u isLast inBuf = .ok w') : Unmarked w'.yielded := by
  rw [Compressor.afterCompress, hmore] at hafter
  split at hafter
  · exact Except.ok.inj hafter ▸ Compressor.unmarked_flush h
  · exact Except.ok.inj hafter ▸ h

/-- A turn of the loop over a body that does not fail. -/
lemma compressBody_ok {isLast : Bool} {turns : ℕ} {c : UInt8} {cs : List UInt8}
    (hrun : compressBody u isLast (turns + 1) (c :: cs) w = .ok w') :
    ∃ (rest : List UInt8) (w₁ w₂ : Compressor u.zlib), w₁.yielded = w.yielded ∧
      w₁.afterCompress u isLast rest = .ok w₂ ∧ compressBody u isLast turns rest w₂ = .ok w' := by
  rw [compressBody] at hrun
  obtain ⟨⟨compressedLen, b⟩, -, hrun⟩ := exists_of_bind_eq_ok hrun
  dsimp only at hrun
  split at hrun
  · cases hrun
  · obtain ⟨w₂, hafter, hrun⟩ := exists_of_bind_eq_ok hrun
    exact ⟨_, { w with compressedBuf := b }, w₂, rfl, hafter, hrun⟩

lemma compressBody_nil (isLast : Bool) (turns : ℕ) (w : Compressor u.zlib) :
    compressBody u isLast turns [] w = .ok w := by
  cases turns <;> rfl

lemma unmarked_compressBody {turns : ℕ} {x : List UInt8} (h : Unmarked w.yielded)
    (hrun : compressBody u false turns x w = .ok w') : Unmarked w'.yielded := by
  induction turns generalizing x w with
  | zero =>
    cases x with
    | nil => exact Except.ok.inj hrun ▸ h
    | cons c cs => cases hrun
  | succ turns ih =>
    cases x with
    | nil => exact Except.ok.inj hrun ▸ h
    | cons c cs =>
      obtain ⟨rest, w₁, w₂, hyielded, hafter, hrest⟩ := compressBody_ok hrun
      exact ih (unmarked_afterCompress rfl (hyielded ▸ h) hafter) hrest

lemma marksLast_compressBody {turns : ℕ} {x : List UInt8} (hx : x ≠ []) (h : Unmarked w.yielded)
    (hrun : compressBody u true turns x w = .ok w') : ∃ n, MarksLast n w'.yielded := by
  induction turns generalizing x w with
  | zero =>
    cases x with
    | nil => exact (hx rfl).elim
    | cons c cs => cases hrun
  | succ turns ih =>
    cases x with
    | nil => exact (hx rfl).elim
    | cons c cs =>
      obtain ⟨rest, w₁, w₂, hyielded, hafter, hrest⟩ := compressBody_ok hrun
      have h₁ : Unmarked w₁.yielded := hyielded ▸ h
      cases rest with
      | nil =>
        have hfinish : w₁.finish = .ok w₂ := by
          simpa [Compressor.afterCompress] using hafter
        rw [compressBody_nil] at hrest
        exact Except.ok.inj hrest ▸ Compressor.marksLast_finish h₁ hfinish
      | cons c' cs' => exact ih (List.cons_ne_nil _ _) (unmarked_afterCompress rfl h₁ hafter) hrest

lemma marksLast_compressBodies {front : List BufT} {t : BufT} (hfront : Unmarked front)
    (ht : t.isLast = true) (hbytes : t.bytes ≠ []) (h : Unmarked w.yielded)
    (hrun : compressBodies u (front ++ [t]) w = .ok w') : ∃ n, MarksLast n w'.yielded := by
  induction front generalizing w with
  | nil =>
    rw [List.nil_append, compressBodies] at hrun
    split at hrun
    · obtain ⟨w₁, hbody, hrun⟩ := exists_of_bind_eq_ok hrun
      rw [ht] at hbody
      exact Except.ok.inj hrun ▸ marksLast_compressBody hbytes h hbody
    · cases hrun
  | cons x front ih =>
    rw [List.cons_append, compressBodies] at hrun
    split at hrun
    · obtain ⟨w₁, hbody, hrun⟩ := exists_of_bind_eq_ok hrun
      rw [hfront x (by simp)] at hbody
      exact ih (fun y hy => hfront y (by simp [hy])) (unmarked_compressBody h hbody) hrun
    · cases hrun

lemma compressBuf_marksLast {level : Int8} {front bodies : List BufT} {t : BufT}
    (hfront : Unmarked front) (ht : t.isLast = true) (hbytes : t.bytes ≠ [])
    (hrun : compressBuf u level (front ++ [t]) = .ok bodies) : ∃ n, MarksLast n bodies := by
  unfold compressBuf at hrun
  split at hrun
  · cases hrun
  · obtain ⟨w', hbodies, hrun⟩ := exists_of_bind_eq_ok hrun
    obtain rfl := Except.ok.inj hrun
    exact marksLast_compressBodies hfront ht hbytes unmarked_nil hbodies

/-- What the compressor makes of the writer's bodies. -/
lemma compressBuf_serializeObject_marksLast {s : Schema} {obj : s.Val} {level : Int8}
    {raw bodies : List BufT} (hwrite : serializeObject u.env s obj = .ok raw)
    (hrun : compressBuf u level raw = .ok bodies) : ∃ n, MarksLast n bodies := by
  obtain ⟨front, t, rfl, ht, hfront, hbytes⟩ := serializeObject_marksLast hwrite
  exact compressBuf_marksLast hfront ht hbytes hrun

end CompressBuf

lemma encryptBody_isLast {env : Env} {crypto : Crypto} {key : AesKey} {i : ℕ} {t e : BufT}
    (hrun : encryptBody env crypto key i t = .ok e) : e.isLast = t.isLast := by
  obtain ⟨result, -, hrun⟩ := exists_of_bind_eq_ok hrun
  cases result with
  | none => cases hrun
  | some encrypted =>
    obtain rfl := Except.ok.inj hrun
    rfl

lemma map_isLast_encryptBodies {env : Env} {crypto : Crypto} {key : AesKey} {i : ℕ}
    {bodies es : List BufT} (hrun : encryptBodies env crypto key i bodies = .ok es) :
    es.map BufT.isLast = bodies.map BufT.isLast := by
  induction bodies generalizing i es with
  | nil =>
    obtain rfl := Except.ok.inj hrun
    rfl
  | cons t rest ih =>
    rw [encryptBodies] at hrun
    obtain ⟨e, hbody, hrun⟩ := exists_of_bind_eq_ok hrun
    obtain ⟨more, hrest, hrun⟩ := exists_of_bind_eq_ok hrun
    obtain rfl := Except.ok.inj hrun
    rw [List.map_cons, List.map_cons, encryptBody_isLast hbody, ih hrest]

/-- The encryptor keeps the marks. -/
lemma MarksLast.encryptBodies {env : Env} {crypto : Crypto} {key : AesKey} {i n : ℕ}
    {bodies es : List BufT} (h : MarksLast n bodies)
    (hrun : OldPart.encryptBodies env crypto key i bodies = .ok es) : MarksLast n es :=
  (map_isLast_encryptBodies hrun).trans h

/-! ## The numbers -/

/-- The numbers from `k` on of `n` messages and a last one. -/
def numbersFrom : (k n : ℕ) → List Int32
  | k, 0 => [-Int32.ofNat k]
  | k, n + 1 => .ofNat k :: numbersFrom (k + 1) n

@[simp] lemma length_numbersFrom (k n : ℕ) : (numbersFrom k n).length = n + 1 := by
  induction n generalizing k with
  | zero => rfl
  | succ n ih => rw [numbersFrom, List.length_cons, ih]

lemma makeMessages_numbers {n : ℕ} {bodies : List BufT} (h : MarksLast n bodies) (stamp : Stamp)
    (fetch : ℕ → Int32) (i k : ℕ) :
    (makeMessages stamp fetch i (.ofNat k) bodies).map OMessage.messageSequenceId =
      numbersFrom k n := by
  induction n generalizing bodies i k with
  | zero =>
    obtain ⟨t, rest, rfl, ht, hrest⟩ := List.map_eq_cons_iff.mp h
    obtain rfl := List.map_eq_nil_iff.mp hrest
    simp [makeMessages, makeMessage, ht, numbersFrom]
  | succ n ih =>
    obtain ⟨t, rest, rfl, ht, hrest⟩ := List.map_eq_cons_iff.mp h
    have hnext : Int32.ofNat k + 1 = Int32.ofNat (k + 1) := (Int32.ofNat_add k 1).symm
    rw [makeMessages, List.map_cons, hnext, ih hrest, numbersFrom]
    simp [makeMessage, ht]

lemma stamp_of_mem {stamp : Stamp} {fetch : ℕ → Int32} {i : ℕ} {messageSequenceId : Int32}
    {bodies : List BufT} {m : OMessage}
    (h : m ∈ makeMessages stamp fetch i messageSequenceId bodies) :
    m.messageId = stamp.messageId ∧ m.bodySerializeMethod = stamp.serializeMethod.toInt16 ∧
      m.compressLevel = stamp.compressLevel := by
  induction bodies generalizing i messageSequenceId with
  | nil => simp [makeMessages] at h
  | cons t rest ih =>
    rcases List.mem_cons.mp h with rfl | h
    · exact ⟨rfl, rfl, rfl⟩
    · exact ih h

/-- The messages of a proto are numbered from one on. -/
lemma serializeCompressEncrypt_numbers {u : Setup} {fetch : ℕ → Int32} {messageId : Int32}
    {s : Schema} {obj : s.Val} {level : Int8} {key : AesKey} {ms : List OMessage}
    (hrun : serializeCompressEncrypt u fetch messageId obj level key = .ok ms) :
    (∃ n, ms.map OMessage.messageSequenceId = numbersFrom 1 n) ∧
      ∀ m ∈ ms, m.messageId = messageId := by
  obtain ⟨raw, hraw, hrun⟩ := exists_of_bind_eq_ok hrun
  obtain ⟨bodies, hcompress, hrun⟩ := exists_of_bind_eq_ok hrun
  obtain ⟨es, hencrypt, hrun⟩ := exists_of_bind_eq_ok hrun
  obtain rfl := Except.ok.inj hrun
  obtain ⟨n, hmarks⟩ := compressBuf_serializeObject_marksLast hraw hcompress
  exact ⟨⟨n, makeMessages_numbers (hmarks.encryptBodies hencrypt) _ fetch 0 1⟩,
    fun m hm => (stamp_of_mem hm).1⟩

/-! ## Numbers as a receiver sees them -/

section Numbers

variable {k : ℕ}

lemma toInt_ofNat (k : ℕ) : (Int32.ofNat k).toInt = (k : ℤ).bmod (2 ^ 32) := Int32.toInt_ofNat'

/-- The numbers behind the first are neither one nor that of a single frame. -/
lemma number_ne (hlo : 2 ≤ k) (hhi : k ≤ 2 ^ 31 + 1) :
    (Int32.ofNat k ≠ 1 ∧ Int32.ofNat k ≠ -1) ∧ -Int32.ofNat k ≠ 1 ∧ -Int32.ofNat k ≠ -1 := by
  have hone : (1 : Int32).toInt = 1 := rfl
  have hneg : (-1 : Int32).toInt = -1 := rfl
  have hk := toInt_ofNat k
  have hk' := Int32.toInt_neg (.ofNat k)
  rw [Int.bmod_def] at hk hk'
  refine ⟨⟨?_, ?_⟩, ?_, ?_⟩ <;>
    rw [Ne, ← Int32.toInt_inj] <;> split at hk <;> split at hk' <;> omega

lemma number_neg (hlo : 1 ≤ k) (hhi : k ≤ 2 ^ 31) : -Int32.ofNat k < 0 := by
  have hzero : (0 : Int32).toInt = 0 := rfl
  have hk := toInt_ofNat k
  have hk' := Int32.toInt_neg (.ofNat k)
  rw [Int.bmod_def] at hk hk'
  rw [Int32.lt_iff_toInt_lt]
  split at hk <;> split at hk' <;> omega

lemma number_nonneg (hhi : k < 2 ^ 31) : ¬Int32.ofNat k < 0 := by
  have hzero : (0 : Int32).toInt = 0 := rfl
  have hk := toInt_ofNat k
  rw [Int.bmod_def] at hk
  rw [Int32.lt_iff_toInt_lt]
  split at hk <;> omega

end Numbers

end OldPart
