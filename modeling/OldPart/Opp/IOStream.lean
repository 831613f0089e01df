import OldPart.Proto.ReadCorrect
import OldPart.Proto.WriterChunks

/-!
# `IOStream`

A proto that is written from a stream and read into one.  Its loops are those of the string, with
`std::iostream::read` and `write` where these copy and append, so that they produce and take the
same chunks.
-/

namespace OldPart

/-- The side of a `std::iostream` that is read: what is left, and whether nothing has failed. -/
structure InStream where
  left : List UInt8
  good : Bool
deriving DecidableEq, Repr

/-- `std::iostream::read`.  What is read when there is less fails the stream. -/
def InStream.read (s : InStream) (n : ℕ) : List UInt8 × InStream :=
  if s.good then (s.left.take n, ⟨s.left.drop n, n ≤ s.left.length⟩) else ([], s)

/-- The side of a `std::iostream` that is written: what has been, whether it can be, and whether
nothing has failed. -/
structure OutStream where
  written : List UInt8
  writable : Bool
  good : Bool
deriving DecidableEq, Repr

/-- `std::iostream::write`. -/
def OutStream.write (s : OutStream) (bs : List UInt8) : OutStream :=
  if s.good then
    if s.writable ∨ bs = [] then { s with written := s.written ++ bs } else { s with good := false }
  else s

/-- A read of `writeLen` bytes to the current position, and the new offset. -/
def Writer.putRead (w : Writer) (bytes : List UInt8) (writeLen : ℕ) : Except Fault Writer :=
  match w.buf with
  | none => .error .nullBuffer
  | some b => do
      let b ← b.copyN w.offset bytes
      return { w with buf := some b, offset := w.offset + writeLen }

/-- The loop of `IOStream::Write`, with as many turns as bytes. -/
def writeStream (env : Env) : ℕ → ℕ → InStream → Writer → Except Fault (InStream × Writer)
  | _, 0, stream, w => .ok (stream, w)
  | 0, _ + 1, _, _ => .error .hang
  | turns + 1, totalLen + 1, stream, w =>
      match w.buf with
      | none => .error .nullBuffer
      | some b =>
          let w := if w.offset = b.bufLen then ensureBuffer env 1 w else w
          let room := (w.buf.elim 0 Buf.bufLen) - w.offset
          let writeLen := min (totalLen + 1) room
          let (bytes, stream) := stream.read writeLen
          do
            let w ← w.putRead bytes writeLen
            writeStream env turns (totalLen + 1 - writeLen) stream w

/-- `IOStream::Write`. -/
def ioStreamWrite (env : Env) (size : Int32) (stream : InStream) (w : Writer) :
    Except Fault (InStream × Writer) := do
  let w ← writeInt32 env size.toUInt32.toNat w
  writeStream env size.toNatClampNeg size.toNatClampNeg stream w

/-- The loop of `IOStream::Read`. -/
def readStream (rest : List (List UInt8)) (len : ℕ) (stream : OutStream) (buf : List UInt8)
    (offset : ℕ) : Outcome Fault UInt8 OutStream :=
  let readable := min len (buf.length - offset)
  let stream := stream.write ((buf.drop offset).take readable)
  if len - readable = 0 then .done stream ⟨buf, offset + readable, rest⟩
  else
    match rest with
    | [] => .wait stream
    | x :: rest => readStream rest (len - readable) stream x 0

/-- `IOStream::Read`, into `size` and the stream. -/
def ioStreamRead (size : Int32) (stream : OutStream) : Reader (Int32 × OutStream) := fun c =>
  (readInt32 c).andThen (fun _ => (size, stream)) fun len c =>
    (readStream c.rest len.toNat stream c.buf c.offset).map fun stream => (.ofInt len, stream)

/-! ## Writing -/

section Write

variable {stream : InStream}

lemma InStream.read_of_le (hgood : stream.good = true) {n : ℕ} (hn : n ≤ stream.left.length) :
    stream.read n = (stream.left.take n, ⟨stream.left.drop n, true⟩) := by
  rw [read, if_pos hgood, decide_eq_true hn]

/-- A read that there is enough for is a copy. -/
lemma Writer.putRead_eq_put (w : Writer) {bytes : List UInt8} {writeLen : ℕ}
    (h : bytes.length = writeLen) : w.putRead bytes writeLen = w.put bytes := by
  obtain rfl := h
  rfl

/-- The loop copies what the string writer does, and leaves the rest of the stream. -/
lemma writeStream_eq (env : Env) (turns : ℕ) {totalLen : ℕ} (hgood : stream.good = true)
    (hlen : totalLen ≤ stream.left.length) (w : Writer) :
    writeStream env turns totalLen stream w =
      (writeChars env turns (stream.left.take totalLen) w).map
        fun w => (⟨stream.left.drop totalLen, true⟩, w) := by
  obtain ⟨left, good⟩ := stream
  obtain rfl : good = true := hgood
  induction turns generalizing totalLen left w with
  | zero =>
    cases totalLen with
    | zero => rw [writeStream, List.take_zero, writeChars_nil]; rfl
    | succ n =>
      obtain ⟨c, cs, rfl⟩ := List.exists_cons_of_length_pos (Nat.lt_of_lt_of_le n.succ_pos hlen)
      rfl
  | succ turns ih =>
    cases totalLen with
    | zero => rw [writeStream, List.take_zero, writeChars_nil]; rfl
    | succ n =>
      obtain ⟨c, cs, rfl⟩ := List.exists_cons_of_length_pos (Nat.lt_of_lt_of_le n.succ_pos hlen)
      rw [List.take_succ_cons, writeStream, writeChars]
      cases hbuf : w.buf with
      | none => rfl
      | some b =>
        dsimp only
        generalize (if w.offset = b.bufLen then ensureBuffer env 1 w else w) = w'
        have hcount : (c :: cs.take n).length = n + 1 := by
          rw [← List.take_succ_cons, List.length_take, Nat.min_eq_left hlen]
        have hle : min (n + 1) (w'.buf.elim 0 Buf.bufLen - w'.offset) ≤ n + 1 := Nat.min_le_left _ _
        rw [hcount]
        generalize min (n + 1) (w'.buf.elim 0 Buf.bufLen - w'.offset) = writeLen at hle
        rw [InStream.read_of_le rfl (hle.trans hlen), ← List.take_succ_cons, List.take_take,
          Nat.min_eq_left hle, List.drop_take]
        dsimp only
        rw [Writer.putRead_eq_put w' (by rw [List.length_take, Nat.min_eq_left (hle.trans hlen)])]
        cases w'.put ((c :: cs).take writeLen) with
        | error e => rfl
        | ok w'' =>
          have hrest : n + 1 - writeLen ≤ ((c :: cs).drop writeLen).length := by
            rw [List.length_drop]
            exact Nat.sub_le_sub_right hlen writeLen
          have hdrop :
              ((c :: cs).drop writeLen).drop (n + 1 - writeLen) = (c :: cs).drop (n + 1) := by
            rw [List.drop_drop, Nat.add_sub_cancel' hle]
          rw [ok_bind, ok_bind, ih w'' _ hrest, hdrop]

/-- `IOStream::Write` of as much as there is in the stream yields and leaves what the string writer
does. -/
lemma ioStreamWrite_eq (env : Env) {size : Int32} (hsize : 0 ≤ size) (hgood : stream.good = true)
    (hlen : size.toNatClampNeg ≤ stream.left.length) (w : Writer) :
    ioStreamWrite env size stream w =
      (writeString env (stream.left.take size.toNatClampNeg) w).map
        fun w => (⟨stream.left.drop size.toNatClampNeg, true⟩, w) := by
  have hlt := size.toNatClampNeg_lt
  have hunsigned : size.toUInt32.toNat = size.toNatClampNeg := by
    have h := toNat_toUInt32 size
    have hint := Int32.toInt_eq_toNatClampNeg hsize
    omega
  have hlength : (stream.left.take size.toNatClampNeg).length = size.toNatClampNeg := by
    rw [List.length_take, Nat.min_eq_left hlen]
  have htotal : totalLen (stream.left.take size.toNatClampNeg) = size.toNatClampNeg := by
    rw [totalLen, hlength, wrap32_natCast hlt, Int.toNat_natCast]
  rw [ioStreamWrite, writeString, hunsigned, hlength, htotal, List.take_take, Nat.min_self]
  cases writeInt32 env size.toNatClampNeg w with
  | error e => rfl
  | ok w' => exact writeStream_eq env _ hgood hlen w'

end Write

/-! ## Reading -/

section Read

/-- The loop writes to the stream what the string reader appends. -/
lemma readStream_eq {stream : OutStream} (hgood : stream.good = true)
    (hwritable : stream.writable = true) (front : List UInt8) (rest : List (List UInt8)) (len : ℕ)
    (v buf : List UInt8) (offset : ℕ) :
    readStream rest len { stream with written := front ++ v } buf offset =
      (readChars rest len v buf offset).map
        fun v => { stream with written := front ++ v } := by
  have hwrite : ∀ v bs : List UInt8,
      ({ stream with written := front ++ v } : OutStream).write bs =
        { stream with written := front ++ (v ++ bs) } := by
    intro v bs
    rw [OutStream.write, if_pos hgood, if_pos (Or.inl hwritable), List.append_assoc]
  induction rest generalizing len v buf offset with
  | nil =>
    rw [readStream, readChars, hwrite]
    split <;> rfl
  | cons x rest ih =>
    rw [readStream, readChars, hwrite]
    split
    · rfl
    · exact ih _ _ _ _

/-- A string that is read has the length that was asked for. -/
lemma length_of_readChars {rest : List (List UInt8)} {len : ℕ} {v v' buf : List UInt8} {offset : ℕ}
    {c' : Cursor UInt8} (h : readChars rest len v buf offset = .done v' c') :
    v'.length = v.length + len := by
  induction rest generalizing len v buf offset with
  | nil =>
    rw [readChars] at h
    split at h
    case isTrue hlast =>
      obtain ⟨rfl, -⟩ := Outcome.done.inj h
      rw [List.length_append, List.length_take, List.length_drop]
      omega
    case isFalse => cases h
  | cons x rest ih =>
    rw [readChars] at h
    split at h
    case isTrue hlast =>
      obtain ⟨rfl, -⟩ := Outcome.done.inj h
      rw [List.length_append, List.length_take, List.length_drop]
      omega
    case isFalse =>
      rw [ih h, List.length_append, List.length_take, List.length_drop]
      omega

/-- `IOStream::Read` recovers the size of a string, writes the string to its stream, and stops where
the string reader does. -/
lemma ioStreamRead_eq {stream : OutStream} (hgood : stream.good = true)
    (hwritable : stream.writable = true) (size : Int32) {v : List UInt8} {c c' : Cursor UInt8}
    (h : readString [] c = .done v c') :
    ∃ size' : Int32, ioStreamRead size stream c =
        .done (size', { stream with written := stream.written ++ v }) c' ∧
      size'.toInt = v.length := by
  rw [readString] at h
  rw [ioStreamRead]
  cases hlen : readInt32 c with
  | wait n => rw [hlen] at h; cases h
  | fault n e => rw [hlen] at h; cases h
  | done len d =>
    rw [hlen, Outcome.andThen_done, readContents] at h
    split at h
    case isTrue => cases h
    case isFalse hnonneg =>
      have hlength : v.length = len.toNat := by
        have := length_of_readChars h
        rwa [List.length_nil, Nat.zero_add] at this
      have hloop := readStream_eq hgood hwritable stream.written d.rest len.toNat [] d.buf d.offset
      rw [List.append_nil, h, Outcome.map_done] at hloop
      refine ⟨.ofInt len, ?_, ?_⟩
      · rw [Outcome.andThen_done, hloop, Outcome.map_done]
      · have hlt : len < 2 ^ 31 := by
          have h := readInt32_lt c
          rwa [hlen] at h
        rw [toInt_ofInt_eq_wrap32, wrap32_of_lt (by omega) hlt, hlength]
        omega

end Read

/-! ## The format of the string -/

/-- A stream with enough in it is written as the string of its bytes is, and what a string is read
from, a stream that can be written reads as its bytes. -/
theorem ioStream_eq_string :
    (∀ (env : Env) (size : Int32) (stream : InStream) (w : Writer), 0 ≤ size →
      stream.good = true → size.toNatClampNeg ≤ stream.left.length →
      (ioStreamWrite env size stream w).map Prod.snd =
        writeString env (stream.left.take size.toNatClampNeg) w) ∧
    ∀ (size : Int32) (stream : OutStream) (v : List UInt8) (c c' : Cursor UInt8),
      stream.good = true → stream.writable = true → readString [] c = .done v c' →
      ∃ size' : Int32, ioStreamRead size stream c =
          .done (size', { stream with written := stream.written ++ v }) c' ∧
        size'.toInt = v.length := by
  constructor
  · intro env size stream w hsize hgood hlen
    rw [ioStreamWrite_eq env hsize hgood hlen w]
    cases writeString env (stream.left.take size.toNatClampNeg) w with
    | error e => rfl
    | ok w' => rfl
  · intro size stream v c c' hgood hwritable h
    exact ioStreamRead_eq hgood hwritable size h

/-- Two bytes of a stream of three, cut by the end of a chunk, and back. -/
theorem ioStream_eq_string_two :
    (ioStreamWrite (Env.zeros 5 (by decide)) 2 ⟨[7, 8, 9], true⟩ ⟨[], none, 0⟩).map Prod.snd =
      writeString (Env.zeros 5 (by decide)) [7, 8] ⟨[], none, 0⟩ ∧
    ∃ size' : Int32, ioStreamRead 0 ⟨[6], true, true⟩ ⟨[2, 0, 0, 0, 7], 0, [[8]]⟩ =
        .done (size', ⟨[6, 7, 8], true, true⟩) ⟨[8], 1, []⟩ ∧
      size'.toInt = 2 :=
  ⟨ioStream_eq_string.1 _ 2 ⟨[7, 8, 9], true⟩ _ (by decide) rfl (by decide),
    ioStream_eq_string.2 0 ⟨[6], true, true⟩ [7, 8] _ _ rfl rfl rfl⟩

end OldPart
