import OldPart.Proto.Buffer
import OldPart.Lib.Pull

/-!
# The generated readers

`OProtoSerializeHelper::Read` and the `Read` of `PROTO_IMPLEMENTATION`.  A reader runs in a
coroutine that is pushed chunks; `pull()` takes the next chunk, or suspends the coroutine
when there is none yet.  The object is filled in place, so a reader is given the object as
it stands, and an outcome carries the object as it was left.
-/

namespace OldPart

/-- A reader of an object of type `α`. -/
abbrev Reader (α : Type) := Cursor UInt8 → Outcome Fault UInt8 α

/-- `memcpy` of `src` over the beginning of an object of `n` bytes. -/
def overwrite {n : ℕ} (src : List UInt8) (old : List.Vector UInt8 n) : List.Vector UInt8 n :=
  ⟨src.take n ++ old.toList.drop src.length, by
    simp only [List.length_append, List.length_take, List.length_drop, List.Vector.toList_length]
    omega⟩

/-- `OProtoSerializeHelper<POD>::Read`. -/
def readPod (n : ℕ) (old : List.Vector UInt8 n) : Reader (List.Vector UInt8 n) :=
  fun ⟨buf, offset, rest⟩ =>
    let readableLen := buf.length - offset
    if n ≤ readableLen then
      .done (overwrite ((buf.drop offset).take n) old) ⟨buf, offset + n, rest⟩
    else
      let v := overwrite (buf.drop offset) old
      match rest with
      | [] => .wait v
      | x :: rest =>
          let restLen := n - readableLen
          -- `copy_n(buf->buf, restLen, pV)` does not look at the length of the new chunk
          if restLen ≤ x.length then
            .done (overwrite (buf.drop offset ++ x.take restLen) old) ⟨x, restLen, rest⟩
          else .fault v .pastBufLen

/-- The read of a local `int32_t` that starts as `0`. -/
def readInt32 : Reader ℤ := fun c =>
  (readPod int32Size.val (List.Vector.replicate int32Size.val 0) c).map fun v => ofLe32 v.toList

/-- The loop of `OProtoSerializeHelper<std::string>::Read`.  A turn copies what the chunk
has; that leaves `len = 0`, or `offset = bufLen` and the next turn begins with a pull. -/
def readChars (rest : List (List UInt8)) (len : ℕ) (v buf : List UInt8) (offset : ℕ) :
    Outcome Fault UInt8 (List UInt8) :=
  let readable := min len (buf.length - offset)
  let v := v ++ (buf.drop offset).take readable
  if len - readable = 0 then .done v ⟨buf, offset + readable, rest⟩
  else
    match rest with
    | [] => .wait v
    | x :: rest => readChars rest (len - readable) v x 0

/-- `OProtoSerializeHelper<std::string>::Read` once it has the length. -/
def readContents (old : List UInt8) (len : ℤ) : Reader (List UInt8) := fun c =>
  -- `v.reserve(len)`: a negative `len` becomes a `size_t` beyond `max_size()`
  if len < 0 then .fault old .lengthError
  else readChars c.rest len.toNat old c.buf c.offset

/-- `OProtoSerializeHelper<std::string>::Read`. -/
def readString (old : List UInt8) : Reader (List UInt8) := fun c =>
  (readInt32 c).andThen (fun _ => old) fun len => readContents old len

/-- The loop of `OProtoSerializeHelper<std::vector<T>>::Read` over the elements in place. -/
def readItems {α : Type} (read : α → Reader α) : List α → Reader (List α)
  | [] => fun c => .done [] c
  | x :: xs => fun c =>
      (read x c).andThen (fun y => y :: xs) fun y c => (readItems read xs c).map fun ys => y :: ys

/-- `OProtoSerializeHelper<std::vector<T>>::Read` once it has the size. -/
def readElements {α : Type} (zero : α) (read : α → Reader α) (old : List α) (size : ℤ) :
    Reader (List α) := fun c =>
  if size < 0 then .fault old .assertFailed
  else readItems read (Schema.resize zero size.toNat old) c

/-- `OProtoSerializeHelper<std::vector<T>>::Read`. -/
def readVector {α : Type} (zero : α) (read : α → Reader α) (old : List α) : Reader (List α) :=
  fun c => (readInt32 c).andThen (fun _ => old) fun size => readElements zero read old size

/-- `OProtoBase::ReadField`, and for a field list the body of the generated `Read`. -/
def Schema.read : (s : Schema) → s.Val → Reader s.Val
  | pod size => readPod size.val
  | string => readString
  | vector elem => readVector elem.zero (read elem)
  | proto fields => read fields
  | field first rest => fun old c =>
      (read first old.1 c).andThen (fun x => (x, old.2)) fun x c =>
        (read rest old.2 c).map fun y => (x, y)

/-- The coroutine around `proto.Read(pull, nullptr, 0)`, as `Deserialize` makes it: the body
gets its first chunk from `pull.get()`. -/
def Schema.readCoro (s : Schema) (target : s.Val) (chunks : List (List UInt8)) :
    Outcome Fault UInt8 s.Val :=
  status (s.read target) target chunks

end OldPart
