import OldPart.Proto.Buffer

/-!
# `ZLibCompressBuf` and `ZLibUnCompressBuf`

zlib is not code of this repository.  `Zlib` is its streaming interface as the two classes
use it: a stream state, and a call that is offered input and room and comes back with how
much of both it used and a return code.
-/

namespace OldPart

/-- The return codes of `deflate` and `inflate` the code tells apart. -/
inductive ZRet where
  /-- `Z_OK`. -/
  | ok
  /-- `Z_STREAM_END`. -/
  | streamEnd
  /-- `Z_BUF_ERROR`: no progress was possible. -/
  | bufError
  /-- `Z_STREAM_ERROR`. -/
  | streamError
  /-- `Z_NEED_DICT`, `Z_DATA_ERROR` or `Z_MEM_ERROR`. -/
  | dataError
deriving DecidableEq, Repr

/-- What a call of `deflate` or `inflate` came to: how many bytes of the input it took,
what it wrote, what it returned. -/
structure ZStep (σ : Type) where
  state : σ
  consumed : ℕ
  out : List UInt8
  ret : ZRet

/-- The part of zlib the code uses.  A call takes no more than it is offered and writes no
more than there is room for. -/
structure Zlib where
  Deflate : Type
  Inflate : Type
  /-- `deflateInit`, which refuses a level it does not know. -/
  deflateInit : Int8 → Option Deflate
  /-- `deflate`, with `Z_FINISH` or with `Z_NO_FLUSH`. -/
  deflate : Deflate → (input : List UInt8) → (availOut : ℕ) → (finish : Bool) → ZStep Deflate
  inflateInit : Inflate
  /-- `inflate` with `Z_NO_FLUSH`. -/
  inflate : Inflate → (input : List UInt8) → (availOut : ℕ) → ZStep Inflate
  deflate_consumed_le : ∀ st input availOut finish,
    (deflate st input availOut finish).consumed ≤ input.length
  deflate_out_le : ∀ st input availOut finish,
    (deflate st input availOut finish).out.length ≤ availOut
  inflate_consumed_le : ∀ st input availOut, (inflate st input availOut).consumed ≤ input.length
  inflate_out_le : ∀ st input availOut, (inflate st input availOut).out.length ≤ availOut

/-- `ZLibCompressBuf`: the stream, the output buffer, `avail_out` and
`mNeedMoreMemory4Tail`. -/
structure ZLibCompressBuf (zlib : Zlib) where
  strm : zlib.Deflate
  outBuf : Buf
  availOut : ℕ
  needMoreMemory4Tail : Bool

namespace ZLibCompressBuf

variable {zlib : Zlib}

def reset (z : ZLibCompressBuf zlib) (outBuf : Buf) : ZLibCompressBuf zlib :=
  { z with outBuf := outBuf, availOut := outBuf.bufLen }

def getOutLen (z : ZLibCompressBuf zlib) : ℕ := z.outBuf.bufLen - z.availOut

def isFull (z : ZLibCompressBuf zlib) : Bool := z.getOutLen == z.outBuf.bufLen

/-- `ZLibCompressBuf::Compress`: what it returns is how much of the input was taken. -/
def compress (z : ZLibCompressBuf zlib) (inBuf : List UInt8) (isLast : Bool) :
    Except Fault (ℕ × ZLibCompressBuf zlib) :=
  let step := zlib.deflate z.strm inBuf z.availOut isLast
  if step.ret = .streamError then .error .assertFailed
  else do
    let outBuf ← z.outBuf.copyN z.getOutLen step.out
    return (step.consumed,
      { strm := step.state
        outBuf := outBuf
        availOut := z.availOut - step.out.length
        needMoreMemory4Tail := isLast && step.ret == .ok })

end ZLibCompressBuf

end OldPart
