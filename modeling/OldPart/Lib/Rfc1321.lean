import Mathlib.Algebra.Group.Nat.Defs
import OldPart.Lib.Absorb

/-!
# The MD5 message digest

MD5 as RFC 1321 describes it, over words of thirty-two bits.  The message is padded and its length
appended, and each block of sixty-four bytes goes through four rounds of sixteen operations on four
words.
-/

namespace OldPart

/-- Four words. -/
structure Words (α : Type*) where
  A : α
  B : α
  C : α
  D : α
deriving DecidableEq, Repr

namespace Words

variable {α β : Type*}

/-- Each of the words. -/
def map (f : α → β) (w : Words α) : Words β := ⟨f w.A, f w.B, f w.C, f w.D⟩

/-- Two times four words. -/
def zipWith (f : α → α → α) (v w : Words α) : Words α :=
  ⟨f v.A w.A, f v.B w.B, f v.C w.C, f v.D w.D⟩

end Words

namespace Rfc1321

/-! ## The operations of the rounds -/

/-- The function of each of the four rounds. -/
def auxiliary (round : ℕ) (x y z : UInt32) : UInt32 :=
  match round with
  | 0 => (x &&& y) ||| (~~~x &&& z)
  | 1 => (x &&& z) ||| (y &&& ~~~z)
  | 2 => x ^^^ y ^^^ z
  | _ => y ^^^ (x ||| ~~~z)

/-- Which word of the block the `i`-th operation adds. -/
def wordIndex (i : ℕ) : ℕ :=
  match i / 16 with
  | 0 => i
  | 1 => (5 * i + 1) % 16
  | 2 => (3 * i + 5) % 16
  | _ => 7 * i % 16

/-- How far the `i`-th operation rotates. -/
def rotateAmount (i : ℕ) : ℕ :=
  ([[7, 12, 17, 22], [5, 9, 14, 20], [4, 11, 16, 23], [6, 10, 15, 21]].getD (i / 16) []).getD
    (i % 4) 0

/-- The table `T`. -/
def T : List UInt32 :=
  [0xd76aa478, 0xe8c7b756, 0x242070db, 0xc1bdceee, 0xf57c0faf, 0x4787c62a, 0xa8304613, 0xfd469501,
   0x698098d8, 0x8b44f7af, 0xffff5bb1, 0x895cd7be, 0x6b901122, 0xfd987193, 0xa679438e, 0x49b40821,
   0xf61e2562, 0xc040b340, 0x265e5a51, 0xe9b6c7aa, 0xd62f105d, 0x02441453, 0xd8a1e681, 0xe7d3fbc8,
   0x21e1cde6, 0xc33707d6, 0xf4d50d87, 0x455a14ed, 0xa9e3e905, 0xfcefa3f8, 0x676f02d9, 0x8d2a4c8a,
   0xfffa3942, 0x8771f681, 0x6d9d6122, 0xfde5380c, 0xa4beea44, 0x4bdecfa9, 0xf6bb4b60, 0xbebfbc70,
   0x289b7ec6, 0xeaa127fa, 0xd4ef3085, 0x04881d05, 0xd9d4d039, 0xe6db99e5, 0x1fa27cf8, 0xc4ac5665,
   0xf4292244, 0x432aff97, 0xab9423a7, 0xfc93a039, 0x655b59c3, 0x8f0ccc92, 0xffeff47d, 0x85845dd1,
   0x6fa87e4f, 0xfe2ce6e0, 0xa3014314, 0x4e0811a1, 0xf7537e82, 0xbd3af235, 0x2ad7d2bb, 0xeb86d391]

/-- `ROTATE_LEFT`. -/
def rotateLeft (x : UInt32) (n : ℕ) : UInt32 := x <<< .ofNat n ||| x >>> .ofNat (32 - n)

/-- The `i`-th operation, after which the words change places. -/
def operation (X : ℕ → UInt32) (w : Words UInt32) (i : ℕ) : Words UInt32 where
  A := w.D
  B := w.B + rotateLeft (w.A + auxiliary (i / 16) w.B w.C w.D + X (wordIndex i) + T.getD i 0)
    (rotateAmount i)
  C := w.B
  D := w.C

/-! ## Words and bytes -/

/-- The word whose bytes begin at `i`, the lowest first. -/
def decode (bytes : List UInt8) (i : ℕ) : UInt32 :=
  (bytes.getD i 0).toUInt32 ||| (bytes.getD (i + 1) 0).toUInt32 <<< 8
    ||| (bytes.getD (i + 2) 0).toUInt32 <<< 16 ||| (bytes.getD (i + 3) 0).toUInt32 <<< 24

/-- The bytes of a word, the lowest first. -/
def encode (x : UInt32) : List UInt8 :=
  [x.toUInt8, (x >>> 8).toUInt8, (x >>> 16).toUInt8, (x >>> 24).toUInt8]

/-! ## The digest -/

/-- The words at the start. -/
def initial : Words UInt32 := ⟨0x67452301, 0xefcdab89, 0x98badcfe, 0x10325476⟩

/-- What a block makes of the words. -/
def compress (w : Words UInt32) (block : List UInt8) : Words UInt32 :=
  w.zipWith (· + ·) ((List.range 64).foldl (operation fun k => decode block (4 * k)) w)

/-- How many zeros stand behind the first byte of the padding. -/
def zeros (length : ℕ) : ℕ := (119 - length % 64) % 64

/-- A message with its padding, and `bits` as the number of its bits. -/
def pad (message : List UInt8) (bits : ℕ) : List UInt8 :=
  message ++ 0x80 :: List.replicate (zeros message.length) 0
    ++ encode (.ofNat bits) ++ encode (.ofNat (bits / 2 ^ 32))

/-- The digest when `bits` is taken for the number of the bits. -/
def digestOf (message : List UInt8) (bits : ℕ) : List UInt8 :=
  let padded := pad message bits
  let w := chain 64 compress (padded.length / 64) initial padded
  encode w.A ++ encode w.B ++ encode w.C ++ encode w.D

/-- The digest of a message. -/
def digest (message : List UInt8) : List UInt8 := digestOf message (8 * message.length)

/-- The digest of `"abc"`. -/
example : digest [97, 98, 99] = [0x90, 0x01, 0x50, 0x98, 0x3c, 0xd2, 0x4f, 0xb0, 0xd6, 0x96, 0x3f,
    0x7d, 0x28, 0xe1, 0x7f, 0x72] := by decide +kernel

/-! ## Lengths -/

/-- What is behind the padding and the length fills the block. -/
lemma length_pad (message : List UInt8) (bits : ℕ) :
    (pad message bits).length = 64 * ((message.length + 8) / 64 + 1) := by
  have hencode : ∀ x, (encode x).length = 4 := fun _ => rfl
  rw [pad, List.length_append, List.length_append, List.length_append, List.length_cons,
    List.length_replicate, hencode, hencode, zeros]
  omega

end Rfc1321

end OldPart
