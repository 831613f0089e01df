import Mathlib.Data.Vector.Basic
import OldPart.Lib.Rfc1321

/-!
# `Md5`

The digest of `Md5.cpp`.  What it calls `uint32` is `unsigned long int`, which has sixty-four bits:
the words and the counts run in twice the width the algorithm is made for.
-/

namespace OldPart

namespace MD5

/-! ## Words and bytes -/

/-- `GET_UINT32`. -/
def getUint32 (b : List UInt8) (i : ℕ) : UInt64 :=
  (b.getD i 0).toUInt64 ||| (b.getD (i + 1) 0).toUInt64 <<< 8
    ||| (b.getD (i + 2) 0).toUInt64 <<< 16 ||| (b.getD (i + 3) 0).toUInt64 <<< 24

/-- The four bytes that `PUT_UINT32` writes. -/
def putUint32 (n : UInt64) : List UInt8 :=
  [(n &&& 0xFF).toUInt8, (n >>> 8 &&& 0xFF).toUInt8, (n >>> 16 &&& 0xFF).toUInt8,
    (n >>> 24 &&& 0xFF).toUInt8]

/-! ## The rounds -/

/-- The variables of `md5_process`. -/
inductive Register where
  | A
  | B
  | C
  | D
deriving DecidableEq, Repr

/-- The one behind it, in every use of `P`. -/
def Register.next : Register → Register
  | A => B
  | B => C
  | C => D
  | D => A

/-- What a variable holds. -/
def get {α : Type} (w : Words α) : Register → α
  | .A => w.A
  | .B => w.B
  | .C => w.C
  | .D => w.D

/-- An assignment. -/
def set {α : Type} (w : Words α) (r : Register) (x : α) : Words α :=
  match r with
  | .A => { w with A := x }
  | .B => { w with B := x }
  | .C => { w with C := x }
  | .D => { w with D := x }

/-- A use of `P`, by the first of its variables. -/
structure Row where
  a : Register
  k : ℕ
  s : ℕ
  t : UInt64
deriving DecidableEq, Repr

/-- `S`. -/
def S (x : UInt64) (n : ℕ) : UInt64 := x <<< .ofNat n ||| (x &&& 0xFFFFFFFF) >>> .ofNat (32 - n)

/-- `P`. -/
def P (F : UInt64 → UInt64 → UInt64 → UInt64) (X : ℕ → UInt64) (w : Words UInt64) (row : Row) :
    Words UInt64 :=
  let b := row.a.next
  let c := b.next
  let d := c.next
  let a := get w row.a + (F (get w b) (get w c) (get w d) + X row.k + row.t)
  set w row.a (S a row.s + get w b)

/-- The four definitions of `F`. -/
def F₁ (x y z : UInt64) : UInt64 := z ^^^ (x &&& (y ^^^ z))

@[inherit_doc F₁]
def F₂ (x y z : UInt64) : UInt64 := y ^^^ (z &&& (x ^^^ y))

@[inherit_doc F₁]
def F₃ (x y z : UInt64) : UInt64 := x ^^^ y ^^^ z

@[inherit_doc F₁]
def F₄ (x y z : UInt64) : UInt64 := y ^^^ (x ||| ~~~z)

/-- The operations under the first `F`. -/
def round1 : List Row :=
  [⟨.A, 0, 7, 0xD76AA478⟩, ⟨.D, 1, 12, 0xE8C7B756⟩, ⟨.C, 2, 17, 0x242070DB⟩,
   ⟨.B, 3, 22, 0xC1BDCEEE⟩, ⟨.A, 4, 7, 0xF57C0FAF⟩, ⟨.D, 5, 12, 0x4787C62A⟩,
   ⟨.C, 6, 17, 0xA8304613⟩, ⟨.B, 7, 22, 0xFD469501⟩, ⟨.A, 8, 7, 0x698098D8⟩,
   ⟨.D, 9, 12, 0x8B44F7AF⟩, ⟨.C, 10, 17, 0xFFFF5BB1⟩, ⟨.B, 11, 22, 0x895CD7BE⟩,
   ⟨.A, 12, 7, 0x6B901122⟩, ⟨.D, 13, 12, 0xFD987193⟩, ⟨.C, 14, 17, 0xA679438E⟩,
   ⟨.B, 15, 22, 0x49B40821⟩]

/-- Those under the second. -/
def round2 : List Row :=
  [⟨.A, 1, 5, 0xF61E2562⟩, ⟨.D, 6, 9, 0xC040B340⟩, ⟨.C, 11, 14, 0x265E5A51⟩,
   ⟨.B, 0, 20, 0xE9B6C7AA⟩, ⟨.A, 5, 5, 0xD62F105D⟩, ⟨.D, 10, 9, 0x02441453⟩,
   ⟨.C, 15, 14, 0xD8A1E681⟩, ⟨.B, 4, 20, 0xE7D3FBC8⟩, ⟨.A, 9, 5, 0x21E1CDE6⟩,
   ⟨.D, 14, 9, 0xC33707D6⟩, ⟨.C, 3, 14, 0xF4D50D87⟩, ⟨.B, 8, 20, 0x455A14ED⟩,
   ⟨.A, 13, 5, 0xA9E3E905⟩, ⟨.D, 2, 9, 0xFCEFA3F8⟩, ⟨.C, 7, 14, 0x676F02D9⟩,
   ⟨.B, 12, 20, 0x8D2A4C8A⟩]

/-- Those under the third. -/
def round3 : List Row :=
  [⟨.A, 5, 4, 0xFFFA3942⟩, ⟨.D, 8, 11, 0x8771F681⟩, ⟨.C, 11, 16, 0x6D9D6122⟩,
   ⟨.B, 14, 23, 0xFDE5380C⟩, ⟨.A, 1, 4, 0xA4BEEA44⟩, ⟨.D, 4, 11, 0x4BDECFA9⟩,
   ⟨.C, 7, 16, 0xF6BB4B60⟩, ⟨.B, 10, 23, 0xBEBFBC70⟩, ⟨.A, 13, 4, 0x289B7EC6⟩,
   ⟨.D, 0, 11, 0xEAA127FA⟩, ⟨.C, 3, 16, 0xD4EF3085⟩, ⟨.B, 6, 23, 0x04881D05⟩,
   ⟨.A, 9, 4, 0xD9D4D039⟩, ⟨.D, 12, 11, 0xE6DB99E5⟩, ⟨.C, 15, 16, 0x1FA27CF8⟩,
   ⟨.B, 2, 23, 0xC4AC5665⟩]

/-- Those under the fourth. -/
def round4 : List Row :=
  [⟨.A, 0, 6, 0xF4292244⟩, ⟨.D, 7, 10, 0x432AFF97⟩, ⟨.C, 14, 15, 0xAB9423A7⟩,
   ⟨.B, 5, 21, 0xFC93A039⟩, ⟨.A, 12, 6, 0x655B59C3⟩, ⟨.D, 3, 10, 0x8F0CCC92⟩,
   ⟨.C, 10, 15, 0xFFEFF47D⟩, ⟨.B, 1, 21, 0x85845DD1⟩, ⟨.A, 8, 6, 0x6FA87E4F⟩,
   ⟨.D, 15, 10, 0xFE2CE6E0⟩, ⟨.C, 6, 15, 0xA3014314⟩, ⟨.B, 13, 21, 0x4E0811A1⟩,
   ⟨.A, 4, 6, 0xF7537E82⟩, ⟨.D, 11, 10, 0xBD3AF235⟩, ⟨.C, 2, 15, 0x2AD7D2BB⟩,
   ⟨.B, 9, 21, 0xEB86D391⟩]

/-! ## The context -/

/-- `md5_context`. -/
structure Context where
  total₀ : UInt64
  total₁ : UInt64
  state : Words UInt64
  buffer : List UInt8

namespace Context

/-- `md5_starts`, which leaves the buffer as it is. -/
def md5Starts (ctx : Context) : Context :=
  { ctx with
    total₀ := 0
    total₁ := 0
    state := ⟨0x67452301, 0xEFCDAB89, 0x98BADCFE, 0x10325476⟩ }

/-- `md5_process`. -/
def md5Process (ctx : Context) (data : List UInt8) : Context :=
  let X k := getUint32 data (4 * k)
  let w := round1.foldl (P F₁ X) ctx.state
  let w := round2.foldl (P F₂ X) w
  let w := round3.foldl (P F₃ X) w
  let w := round4.foldl (P F₄ X) w
  { ctx with state := ctx.state.zipWith (· + ·) w }

/-- `memcpy` to `buffer + left`.  What does not fit would make the buffer longer. -/
def memcpy (ctx : Context) (left : ℕ) (bytes : List UInt8) : Context :=
  { ctx with
    buffer := ctx.buffer.take left ++ bytes ++ ctx.buffer.drop (left + bytes.length) }

/-- The loop of `md5_update`, with as many turns as bytes: the context, and the input that is
left. -/
def processBlocks : ℕ → Context → List UInt8 → Context × List UInt8
  | 0, ctx, input => (ctx, input)
  | turns + 1, ctx, input =>
      if 64 ≤ input.length then
        processBlocks turns (ctx.md5Process (input.take 64)) (input.drop 64)
      else (ctx, input)

/-- How many bytes of the buffer are in use. -/
def left (ctx : Context) : ℕ := (ctx.total₀ >>> 3 &&& 0x3F).toNat

/-- The counts of `md5_update`. -/
def count (ctx : Context) (length : UInt64) : Context :=
  let total₀ := (ctx.total₀ + length <<< 3) &&& 0xFFFFFFFF
  { ctx with
    total₀ := total₀
    total₁ := ctx.total₁ + length >>> 29 + if total₀ < length <<< 3 then 1 else 0 }

/-- `md5_update`, when the counts are made. -/
def take (ctx : Context) (left : ℕ) (input : List UInt8) : Context :=
  let fill := 64 - left
  let (ctx, left, input) :=
    if left ≠ 0 ∧ fill ≤ input.length then
      let ctx := ctx.memcpy left (input.take fill)
      (ctx.md5Process ctx.buffer, 0, input.drop fill)
    else (ctx, left, input)
  let (ctx, input) := processBlocks input.length ctx input
  if input = [] then ctx else ctx.memcpy left input

/-- `md5_update`. -/
def md5Update (ctx : Context) (input : List UInt8) : Context :=
  if input = [] then ctx else (ctx.count (.ofNat input.length)).take ctx.left input

/-- `md5_padding`. -/
def md5Padding : List UInt8 := 0x80 :: List.replicate 63 0

/-- `md5_finish`. -/
def md5Finish (ctx : Context) : List UInt8 :=
  let msglen := putUint32 ctx.total₀ ++ putUint32 ctx.total₁
  let last := ctx.left
  let padn := if last < 56 then 56 - last else 120 - last
  let ctx := ctx.md5Update (md5Padding.take padn)
  let ctx := ctx.md5Update msglen
  putUint32 ctx.state.A ++ putUint32 ctx.state.B ++ putUint32 ctx.state.C ++ putUint32 ctx.state.D

end Context

end MD5

/-! ## The class -/

/-- `MD5`, by the bytes of `m_data`.  A digest takes the first sixteen. -/
structure MD5 where
  m_data : List.Vector UInt8 32
deriving DecidableEq

namespace MD5

/-- The bytes of the digest. -/
def bytes (m : MD5) : List UInt8 := m.m_data.toList.take 16

/-- Sixteen bytes are written, and those behind them left as they are. -/
def write (m : MD5) (digest : List.Vector UInt8 16) : MD5 :=
  ⟨⟨digest.toList ++ m.m_data.toList.drop 16, by simp⟩⟩

/-- `MD5::MD5()`. -/
def zero : MD5 := ⟨List.Vector.replicate 32 0⟩

/-- `GenerateMD5`, of a buffer of `bufferlen` bytes.  The context is in memory that nothing has
been written to. -/
def generateMD5 (m : MD5) (context : Context) (buffer : List UInt8) : MD5 :=
  m.write ⟨(context.md5Starts.md5Update buffer).md5Finish, rfl⟩

/-- `operator ==`. -/
def equal (m cmper : MD5) : Bool := cmper.bytes = m.bytes

/-! ## As text -/

/-- A digit of `%02x`. -/
def hexDigit (n : ℕ) : UInt8 := if n < 10 then .ofNat (48 + n) else .ofNat (87 + n)

/-- `%02x`. -/
def hexDigits (b : UInt8) : List UInt8 := [hexDigit (b.toNat / 16), hexDigit (b.toNat % 16)]

def toString (m : MD5) : List UInt8 := m.bytes.flatMap hexDigits

/-- The `HexMap` of `_httoi`. -/
def hexMap : List (UInt8 × UInt32) :=
  [(48, 0), (49, 1), (50, 2), (51, 3), (52, 4), (53, 5), (54, 6), (55, 7), (56, 8), (57, 9),
    (97, 10), (98, 11), (99, 12), (100, 13), (101, 14), (102, 15)]

/-- The loop of `_httoi` over a string, on the bits of `result`. -/
def httoiLoop : Bool → UInt32 → List UInt8 → UInt32
  | _, result, [] => result
  | firsttime, result, c :: s =>
      match hexMap.lookup c with
      | none => result
      | some value => httoiLoop false ((if firsttime then result else result <<< 4) ||| value) s

/-- `_httoi`. -/
def httoi (value : List UInt8) : UInt32 :=
  httoiLoop true 0 (if value.take 2 = [48, 88] then value.drop 2 else value)

/-- `MD5::MD5(const char*)`, of at least thirty-two characters when there is one.  Nothing has been
written to the memory of the object, nor to `buf` but the two characters that are copied there: what
`_httoi` finds behind them, up to a character that is null, is `behind`. -/
def ofString (uninitialised : MD5) (behind : ℕ → List UInt8) (md5src : List UInt8) : MD5 :=
  if md5src = [] then zero
  else uninitialised.write (List.Vector.ofFn fun j : Fin 16 =>
    (httoi ((md5src.drop (2 * j)).take 2 ++ behind j)).toUInt8)

end MD5

end OldPart
