import Mathlib.Algebra.Group.Nat.Defs
import Mathlib.Data.List.Basic
import Mathlib.Data.List.GetD
import Mathlib.Data.Vector.Basic
import Mathlib.Logic.Function.Basic

/-!
# Values of a fixed number of bytes

A way to lay values out in a fixed number of bytes, from which they can be read again.  Two such
layouts, one behind the other, lay out pairs, so that the layout of a record is made of those of
its fields.
-/

namespace OldPart

/-- A layout in a fixed number of bytes. -/
structure Packed (α : Type*) where
  width : ℕ
  pack : α → List UInt8
  unpack : List UInt8 → α
  length_pack : ∀ a, (pack a).length = width
  unpack_pack : ∀ a, unpack (pack a) = a

namespace Packed

variable {α β : Type*}

/-- One value behind the other. -/
def prod (p : Packed α) (q : Packed β) : Packed (α × β) where
  width := p.width + q.width
  pack x := p.pack x.1 ++ q.pack x.2
  unpack bs := (p.unpack (bs.take p.width), q.unpack (bs.drop p.width))
  length_pack x := by rw [List.length_append, p.length_pack, q.length_pack]
  unpack_pack x := by
    have hlen := p.length_pack x.1
    rw [List.take_left' hlen, List.drop_left' hlen, p.unpack_pack, q.unpack_pack]

/-- A value that is laid out as another. -/
def via (p : Packed α) (f : β → α) (g : α → β) (h : Function.LeftInverse g f) : Packed β where
  width := p.width
  pack b := p.pack (f b)
  unpack bs := g (p.unpack bs)
  length_pack b := p.length_pack (f b)
  unpack_pack b := by rw [p.unpack_pack, h b]

/-- The bytes from the other end. -/
def reversed (p : Packed α) : Packed α where
  width := p.width
  pack a := (p.pack a).reverse
  unpack bs := p.unpack bs.reverse
  length_pack a := by rw [List.length_reverse, p.length_pack]
  unpack_pack a := by rw [List.reverse_reverse, p.unpack_pack]

/-- Bytes as they are. -/
def bytes (n : ℕ) : Packed (List.Vector UInt8 n) where
  width := n
  pack v := v.toList
  unpack bs := List.Vector.ofFn fun i => bs.getD i 0
  length_pack v := v.toList_length
  unpack_pack v := by
    refine List.Vector.ext fun i => ?_
    have hlt : i.val < v.toList.length := by rw [v.toList_length]; exact i.isLt
    rw [List.Vector.get_ofFn, List.getD_eq_getElem _ _ hlt]
    rfl

end Packed

/-! ## Numbers -/

/-- The lowest `n` bytes of a number, the highest first. -/
def bigEndian : ℕ → ℕ → List UInt8
  | 0, _ => []
  | n + 1, x => bigEndian n (x / 2 ^ 8) ++ [UInt8.ofNat x]

/-- The number that bytes are, the highest first. -/
def ofBigEndian (bs : List UInt8) : ℕ := bs.foldl (fun x b => 2 ^ 8 * x + b.toNat) 0

lemma length_bigEndian (n x : ℕ) : (bigEndian n x).length = n := by
  induction n generalizing x with
  | zero => rfl
  | succ n ih => rw [bigEndian, List.length_append, ih, List.length_singleton]

lemma ofBigEndian_bigEndian {n x : ℕ} (h : x < 2 ^ (8 * n)) :
    ofBigEndian (bigEndian n x) = x := by
  induction n generalizing x with
  | zero =>
    obtain rfl : x = 0 := by simpa using h
    rfl
  | succ n ih =>
    have hhigh : x / 2 ^ 8 < 2 ^ (8 * n) := by
      rw [Nat.div_lt_iff_lt_mul (by decide), ← Nat.pow_add]
      exact h
    rw [bigEndian, ofBigEndian, List.foldl_append, ← ofBigEndian, ih hhigh]
    simp only [List.foldl_cons, List.foldl_nil, UInt8.toNat_ofNat']
    exact Nat.div_add_mod x (2 ^ 8)

/-- Words of `n` bytes, the highest first. -/
def Packed.bigEndian (n : ℕ) : Packed (BitVec (8 * n)) where
  width := n
  pack x := OldPart.bigEndian n x.toNat
  unpack bs := BitVec.ofNat (8 * n) (ofBigEndian bs)
  length_pack x := length_bigEndian n x.toNat
  unpack_pack x := by rw [ofBigEndian_bigEndian x.isLt, BitVec.ofNat_toNat, BitVec.setWidth_eq]

/-- `int64_t`, the highest byte first. -/
def Packed.int64 : Packed Int64 :=
  (Packed.bigEndian 8).via Int64.toBitVec Int64.ofBitVec fun _ => rfl

/-- `uint64_t`, the highest byte first. -/
def Packed.uint64 : Packed UInt64 :=
  (Packed.bigEndian 8).via UInt64.toBitVec UInt64.ofBitVec fun _ => rfl

/-- `int32_t`, the highest byte first. -/
def Packed.int32 : Packed Int32 :=
  (Packed.bigEndian 4).via Int32.toBitVec Int32.ofBitVec fun _ => rfl

/-- `int16_t`, the higher byte first. -/
def Packed.int16 : Packed Int16 :=
  (Packed.bigEndian 2).via Int16.toBitVec Int16.ofBitVec fun _ => rfl

/-- `int8_t`. -/
def Packed.int8 : Packed Int8 :=
  (Packed.bigEndian 1).via Int8.toBitVec Int8.ofBitVec fun _ => rfl

end OldPart
