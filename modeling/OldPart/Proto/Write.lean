import OldPart.Proto.Buffer

/-!
# The generated writers

`EnsureBuffer`, `OProtoSerializeHelper::Write`, the `Write` of `PROTO_IMPLEMENTATION`, and
`OSerializer::SerializeObject`.  A writer runs in a coroutine that yields full buffers; it
reads nothing from the other side, so it is a function that appends to the list of what has
been yielded.
-/

namespace OldPart

/-- The writer coroutine: what it has yielded, its current buffer (null before the first
write) and the offset in it. -/
structure Writer where
  yielded : List BufT
  buf : Option Buf
  offset : ℕ
deriving Repr

def ensureBuffer (env : Env) (eleSize : ℤ) (w : Writer) : Writer :=
  -- both summands are `int32_t`, and so is their sum
  let totalLength := wrap32 (w.offset + eleSize)
  let w : Writer :=
    match w.buf with
    | some b =>
        if totalLength > b.bufLen then
          { yielded := w.yielded ++ [⟨{ b with bufLen := w.offset }, 0, 0, false⟩]
            buf := none
            offset := 0 }
        else w
    | none => w
  match w.buf with
  | some _ => w
  | none => { w with buf := some (env.makeBuffer .ensureBuffer w.yielded.length), offset := 0 }

/-- `std::copy_n` to the current position, and the new offset. -/
def Writer.put (w : Writer) (src : List UInt8) : Except Fault Writer :=
  match w.buf with
  | none => .error .nullBuffer
  | some b => do
      let b ← b.copyN w.offset src
      return { w with buf := some b, offset := w.offset + src.length }

/-- `OProtoSerializeHelper<POD>::Write` of a POD with the given object representation. -/
def writePod (env : Env) (v : List UInt8) (w : Writer) : Except Fault Writer :=
  (ensureBuffer env (wrap32 v.length) w).put v

/-- `OProtoSerializeHelper<int32_t>::Write` of a `size_t`. -/
def writeInt32 (env : Env) (n : ℕ) (w : Writer) : Except Fault Writer :=
  writePod env (le32 n) w

/-- The loop of `OProtoSerializeHelper<std::string>::Write` over the bytes still to be
copied.  Every turn that copies anything shortens them, so a loop with as many turns as
bytes that is not done by then is one that has stopped moving. -/
def writeChars (env : Env) : ℕ → List UInt8 → Writer → Except Fault Writer
  | _, [], w => .ok w
  | 0, _ :: _, _ => .error .hang
  | turns + 1, c :: cs, w =>
      match w.buf with
      | none => .error .nullBuffer
      | some b =>
          let w := if w.offset = b.bufLen then ensureBuffer env 1 w else w
          let room := (w.buf.elim 0 Buf.bufLen) - w.offset
          let writeLen := min (c :: cs).length room
          do
            let w ← w.put ((c :: cs).take writeLen)
            writeChars env turns ((c :: cs).drop writeLen) w

lemma writeChars_nil (env : Env) (turns : ℕ) (w : Writer) : writeChars env turns [] w = .ok w := by
  cases turns <;> rfl

/-- `int32_t totalLen = v.length()`, as the loop of the string writer counts it down. -/
def totalLen (v : List UInt8) : ℕ := (wrap32 v.length).toNat

/-- `OProtoSerializeHelper<std::string>::Write`. -/
def writeString (env : Env) (v : List UInt8) (w : Writer) : Except Fault Writer := do
  let w ← writeInt32 env v.length w
  writeChars env (totalLen v) (v.take (totalLen v)) w

/-- `OProtoSerializeHelper<std::vector<T>>::Write`, for elements of `sizeof(T)` bytes. -/
def writeVector {α : Type} (env : Env) (sizeofT : ℕ) (write : α → Writer → Except Fault Writer)
    (v : List α) (w : Writer) : Except Fault Writer := do
  let w ← writeInt32 env v.length (ensureBuffer env (wrap32 sizeofT) w)
  v.foldlM (fun w item => write item w) w

/-- `OProtoBase::WriteField`, and for a field list the body of the generated `Write`. -/
def Schema.write (env : Env) : (s : Schema) → s.Val → Writer → Except Fault Writer
  | pod _, v => writePod env v.toList
  | string, v => writeString env v
  | vector elem, v => writeVector env (env.sizeof elem) (write env elem) v
  | proto fields, v => write env fields v
  | field first rest, v => fun w => do
      let w ← write env first v.1 w
      write env rest v.2 w

/-- `OSerializer::SerializeObject`: everything its coroutine yields. -/
def serializeObject (env : Env) (s : Schema) (obj : s.Val) : Except Fault (List BufT) := do
  let w ← s.write env obj ⟨[], none, 0⟩
  match w.buf with
  | none => .error .nullBuffer
  | some b => .ok (w.yielded ++ [⟨{ b with bufLen := w.offset }, 0, 0, true⟩])

end OldPart
