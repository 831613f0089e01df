import OldPart.Proto.Schema

/-!
# Buffers

`OProtoSerializeHelperBase::Buf` and `BufT`, the memory behind them, and the ways in which
code working on them can leave defined behaviour.
-/

namespace OldPart

/-- How a step of the code can go wrong. -/
inductive Fault where
  /-- A reader copies bytes at or beyond the `bufLen` of its chunk. -/
  | pastBufLen
  /-- A write leaves the memory of its buffer. -/
  | pastBuffer
  /-- A null buffer pointer is dereferenced. -/
  | nullBuffer
  /-- `std::length_error`, from `reserve` or `resize` with a negative length. -/
  | lengthError
  /-- An `assert` does not hold. -/
  | assertFailed
  /-- A coroutine that has returned is resumed. -/
  | resumedAfterReturn
  /-- `get` on a message coroutine that holds no message. -/
  | noMessage
  /-- A loop repeats the same state for ever. -/
  | hang
  /-- `std::runtime_error` from the constructor of `ZLibCompressBuf`. -/
  | deflateInitFailed
  /-- `std::runtime_error` from `ZLibUnCompressBuf::UnCompress`. -/
  | inflateFailed
deriving DecidableEq, Repr

@[simp] lemma ok_bind {ε α β : Type} (a : α) (f : α → Except ε β) :
    (Except.ok a >>= f) = f a := rfl

@[simp] lemma error_bind {ε α β : Type} (e : ε) (f : α → Except ε β) :
    (Except.error e >>= f) = .error e := rfl

/-- A sequence that does not fail has a first part that does not. -/
lemma exists_of_bind_eq_ok {ε α β : Type} {x : Except ε α} {f : α → Except ε β} {r : β}
    (h : (x >>= f) = .ok r) : ∃ a, x = .ok a ∧ f a = .ok r := by
  cases x with
  | error e => cases h
  | ok a => exact ⟨a, rfl, h⟩

/-- Who calls `MakeBuffer`. -/
inductive Maker where
  | ensureBuffer
  | compressBuf
  | encryptBuf
  | decrypt
deriving DecidableEq, Repr

/-- What the code is built and configured with: `MAX_MESSAGE_BODY_LENGTH`, the `sizeof` of
the types that are not PODs, and what the memory `MakeBuffer` hands out holds before it is
written, for the `i`-th buffer of each caller and every offset. -/
structure Env where
  maxBody : ℕ
  maxBody_lt : maxBody < 2 ^ 31
  sizeofClass : Schema → ℕ
  prior : Maker → ℕ → ℕ → UInt8

/-- `sizeof(T)`. -/
def Env.sizeof (env : Env) : Schema → ℕ
  | .pod size => size.val
  | s => env.sizeofClass s

/-- `OProtoSerializeHelperBase::Buf`: the memory it points to, and `bufLen`. -/
structure Buf where
  buf : List UInt8
  bufLen : ℕ
deriving DecidableEq, Repr

structure BufT where
  buf : Buf
  padNum : Int32
  checksum : Int32
  isLast : Bool
deriving DecidableEq, Repr

/-- The bytes of a buffer that count. -/
def Buf.bytes (b : Buf) : List UInt8 := b.buf.take b.bufLen

/-- The bytes of a yielded buffer that count. -/
def BufT.bytes (t : BufT) : List UInt8 := t.buf.bytes

/-- `MakeBuffer(MAX_MESSAGE_BODY_LENGTH)`, the `i`-th one made for a caller. -/
def Env.makeBuffer (env : Env) (who : Maker) (i : ℕ) : Buf where
  buf := (List.range env.maxBody).map (env.prior who i)
  bufLen := env.maxBody

/-- `std::copy_n` of `src` to `offset` in a buffer. -/
def Buf.copyN (b : Buf) (offset : ℕ) (src : List UInt8) : Except Fault Buf :=
  if offset + src.length ≤ b.buf.length then
    .ok { b with buf := b.buf.take offset ++ src ++ b.buf.drop (offset + src.length) }
  else .error .pastBuffer

@[simp] lemma Env.length_makeBuffer (env : Env) (who : Maker) (i : ℕ) :
    (env.makeBuffer who i).buf.length = env.maxBody := by
  simp [Env.makeBuffer]

@[simp] lemma Env.bufLen_makeBuffer (env : Env) (who : Maker) (i : ℕ) :
    (env.makeBuffer who i).bufLen = env.maxBody := rfl

lemma Buf.length_bytes {b : Buf} (h : b.bufLen ≤ b.buf.length) : b.bytes.length = b.bufLen := by
  simp [Buf.bytes, h]

/-- A copy to the front of a buffer. -/
lemma Buf.copyN_zero {b : Buf} {src : List UInt8} (h : src.length ≤ b.buf.length) :
    b.copyN 0 src = .ok { b with buf := src ++ b.buf.drop src.length } := by
  rw [copyN, Nat.zero_add, if_pos h]
  rfl

/-- A copy that stays inside the buffer extends what was written so far. -/
lemma Buf.copyN_spec {b : Buf} {offset : ℕ} {src : List UInt8}
    (h : offset + src.length ≤ b.buf.length) :
    ∃ b', b.copyN offset src = .ok b' ∧ b'.bufLen = b.bufLen ∧ b'.buf.length = b.buf.length ∧
      b'.buf.take (offset + src.length) = b.buf.take offset ++ src := by
  have htake : (b.buf.take offset).length = offset := by
    rw [List.length_take]
    omega
  refine ⟨_, if_pos h, rfl, ?_, ?_⟩
  · simp only [List.length_append, htake, List.length_drop]
    omega
  · have hlen : (b.buf.take offset ++ src).length = offset + src.length := by
      rw [List.length_append, htake]
    exact List.take_left' hlen

end OldPart
