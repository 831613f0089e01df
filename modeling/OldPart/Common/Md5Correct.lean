import Mathlib.Tactic.Common
import OldPart.Common.Md5

/-!
# What `Md5` computes

The lower halves of the words of `md5_process` are the words of RFC 1321, whatever is in the upper
ones.  The buffer of a context holds what does not fill a block yet, so that the digest does not
depend on how the input is cut; what it does depend on is the carry into the second count, which is
compared without the mask.
-/

namespace OldPart

namespace MD5

open Rfc1321 (rotateLeft auxiliary wordIndex rotateAmount T operation decode encode compress)

/-! ## Lower halves -/

section LowerHalves

variable {x : UInt64}

lemma toUInt32_shiftLeft_ofNat {n : ℕ} (h : n < 32) :
    (x <<< .ofNat n).toUInt32 = x.toUInt32 <<< .ofNat n := by
  have hword : UInt64.size = 2 ^ 64 := rfl
  have hlt : UInt64.ofNat n < 32 := by
    rw [UInt64.lt_iff_toNat_lt, UInt64.toNat_ofNat_of_lt' (by omega)]
    exact h
  rw [UInt64.toUInt32_shiftLeft _ _ hlt, UInt64.toUInt32_ofNat']

/-- Behind the mask, nothing comes down from the upper half. -/
lemma toUInt32_mask_shiftRight {n : ℕ} (h : n < 32) :
    ((x &&& 0xFFFFFFFF) >>> .ofNat n).toUInt32 = x.toUInt32 >>> .ofNat n := by
  have hword : UInt64.size = 2 ^ 64 := rfl
  have hhalf : UInt32.size = 2 ^ 32 := rfl
  have h64 : (UInt64.ofNat n).toNat = n := UInt64.toNat_ofNat_of_lt' (by omega)
  have h32 : (UInt32.ofNat n).toNat = n := UInt32.toNat_ofNat_of_lt' (by omega)
  have hmask : (0xFFFFFFFF : UInt64).toNat = 2 ^ 32 - 1 := rfl
  apply UInt32.toNat_inj.mp
  rw [UInt64.toNat_toUInt32, UInt64.toNat_shiftRight, UInt64.toNat_and, UInt32.toNat_shiftRight,
    UInt64.toNat_toUInt32, h64, h32, hmask, Nat.and_two_pow_sub_one_eq_mod,
    Nat.shiftRight_eq_div_pow, Nat.shiftRight_eq_div_pow, Nat.mod_eq_of_lt (show n < 64 by omega),
    Nat.mod_eq_of_lt h]
  refine Nat.mod_eq_of_lt (Nat.lt_of_le_of_lt (Nat.div_le_self _ _) ?_)
  exact Nat.mod_lt _ (by decide)

/-- `S` rotates the lower half. -/
lemma toUInt32_S {n : ℕ} (hpos : 0 < n) (hlt : n < 32) :
    (S x n).toUInt32 = rotateLeft x.toUInt32 n := by
  rw [S, UInt64.toUInt32_or, toUInt32_shiftLeft_ofNat hlt, toUInt32_mask_shiftRight (by omega)]
  rfl

/-- `GET_UINT32` reads a word. -/
lemma toUInt32_getUint32 (b : List UInt8) (i : ℕ) : (getUint32 b i).toUInt32 = decode b i := by
  simp only [getUint32, decode, UInt64.toUInt32_or]
  rw [UInt64.toUInt32_shiftLeft _ _ (by decide), UInt64.toUInt32_shiftLeft _ _ (by decide),
    UInt64.toUInt32_shiftLeft _ _ (by decide)]
  simp

/-- `PUT_UINT32` writes the lower half. -/
lemma putUint32_eq_encode (n : UInt64) : putUint32 n = encode n.toUInt32 := by
  have hmask : ∀ x : ℕ, x &&& 255 = x % 2 ^ 8 := fun x =>
    Nat.and_two_pow_sub_one_eq_mod x 8
  rw [putUint32, encode]
  congr 1
  · apply UInt8.toNat_inj.mp
    simp [hmask]
  congr 1
  · apply UInt8.toNat_inj.mp
    simp [hmask, Nat.shiftRight_eq_div_pow]
    omega
  congr 1
  · apply UInt8.toNat_inj.mp
    simp [hmask, Nat.shiftRight_eq_div_pow]
    omega
  congr 1
  · apply UInt8.toNat_inj.mp
    simp [hmask, Nat.shiftRight_eq_div_pow]
    omega

/-- The `F` of each round. -/
def roundF : ℕ → UInt64 → UInt64 → UInt64 → UInt64
  | 0 => F₁
  | 1 => F₂
  | 2 => F₃
  | _ => F₄

/-- It comes to the function of RFC 1321 with fewer operations. -/
lemma toUInt32_roundF (q : ℕ) (x y z : UInt64) :
    (roundF q x y z).toUInt32 = auxiliary q x.toUInt32 y.toUInt32 z.toUInt32 := by
  generalize hx : x.toUInt32 = x'
  generalize hy : y.toUInt32 = y'
  generalize hz : z.toUInt32 = z'
  have hbits : ∀ a b : UInt32, (∀ (i : ℕ) (hi : i < 32), a.toBitVec[i] = b.toBitVec[i]) → a = b :=
    fun a b h => UInt32.toBitVec_inj.mp (BitVec.eq_of_getElem_eq h)
  match q with
  | 0 =>
    simp only [roundF, F₁, auxiliary, UInt64.toUInt32_xor, UInt64.toUInt32_and, hx, hy, hz]
    refine hbits _ _ fun i hi => ?_
    simp only [UInt32.toBitVec_xor, UInt32.toBitVec_and, UInt32.toBitVec_or, UInt32.toBitVec_not,
      BitVec.getElem_xor, BitVec.getElem_and, BitVec.getElem_or, BitVec.getElem_not]
    cases x'.toBitVec[i] <;> cases y'.toBitVec[i] <;> cases z'.toBitVec[i] <;> rfl
  | 1 =>
    simp only [roundF, F₂, auxiliary, UInt64.toUInt32_xor, UInt64.toUInt32_and, hx, hy, hz]
    refine hbits _ _ fun i hi => ?_
    simp only [UInt32.toBitVec_xor, UInt32.toBitVec_and, UInt32.toBitVec_or, UInt32.toBitVec_not,
      BitVec.getElem_xor, BitVec.getElem_and, BitVec.getElem_or, BitVec.getElem_not]
    cases x'.toBitVec[i] <;> cases y'.toBitVec[i] <;> cases z'.toBitVec[i] <;> rfl
  | 2 => simp only [roundF, F₃, auxiliary, UInt64.toUInt32_xor, hx, hy, hz]
  | q + 3 =>
    simp only [roundF, F₄, auxiliary, UInt64.toUInt32_xor, UInt64.toUInt32_or,
      UInt64.toUInt32_not, hx, hy, hz]

end LowerHalves

/-! ## The rounds -/

/-- The variable that the `i`-th use of `P` is for. -/
def registerOf (i : ℕ) : Register :=
  match i % 4 with
  | 0 => .A
  | 1 => .D
  | 2 => .C
  | _ => .B

/-- The `i`-th use of `P`, as RFC 1321 has it. -/
def rowOf (i : ℕ) : Row := ⟨registerOf i, wordIndex i, rotateAmount i, (T.getD i 0).toUInt64⟩

/-- The table of the source is that of RFC 1321. -/
lemma rounds_eq :
    round1 = (List.range 16).map (fun j => rowOf (16 * 0 + j)) ∧
      round2 = (List.range 16).map (fun j => rowOf (16 * 1 + j)) ∧
      round3 = (List.range 16).map (fun j => rowOf (16 * 2 + j)) ∧
      round4 = (List.range 16).map (fun j => rowOf (16 * 3 + j)) := by
  decide

/-- The lower halves, beginning at a variable. -/
def lowerFrom (w : Words UInt64) (r : Register) : Words UInt32 where
  A := (get w r).toUInt32
  B := (get w r.next).toUInt32
  C := (get w r.next.next).toUInt32
  D := (get w r.next.next.next).toUInt32

lemma registerOf_succ (i : ℕ) : registerOf (i + 1) = (registerOf i).next.next.next := by
  have hcases : i % 4 = 0 ∨ i % 4 = 1 ∨ i % 4 = 2 ∨ i % 4 = 3 := by omega
  rcases hcases with h | h | h | h <;> simp [registerOf, Nat.add_mod, h, Register.next]

lemma rotateAmount_mem (i : ℕ) (h : i < 64) : 0 < rotateAmount i ∧ rotateAmount i < 32 := by
  have hall : ∀ i < 64, 0 < rotateAmount i ∧ rotateAmount i < 32 := by decide
  exact hall i h

/-- A use of `P` is an operation on the lower halves. -/
lemma lowerFrom_P {i q : ℕ} (hi : i < 64) (hq : i / 16 = q) {X : ℕ → UInt64} {X' : ℕ → UInt32}
    (hX : ∀ k, (X k).toUInt32 = X' k) (w : Words UInt64) :
    lowerFrom (P (roundF q) X w (rowOf i)) (registerOf (i + 1)) =
      operation X' (lowerFrom w (registerOf i)) i := by
  obtain ⟨hpos, hlt⟩ := rotateAmount_mem i hi
  have hword : ∀ t : UInt32, t.toUInt64.toUInt32 = t := fun t => by simp
  rw [registerOf_succ]
  generalize hr : registerOf i = r
  have hvalue : ∀ a b c d : UInt64,
      (S (a + (roundF q b c d + X (wordIndex i) + (T.getD i 0).toUInt64)) (rotateAmount i)
        + b).toUInt32 =
      b.toUInt32 + rotateLeft (a.toUInt32 + auxiliary (i / 16) b.toUInt32 c.toUInt32 d.toUInt32
        + X' (wordIndex i) + T.getD i 0) (rotateAmount i) := by
    intro a b c d
    rw [UInt64.toUInt32_add, toUInt32_S hpos hlt, UInt64.toUInt32_add, UInt64.toUInt32_add,
      UInt64.toUInt32_add, toUInt32_roundF, hX, hword, hq, UInt32.add_comm, UInt32.add_assoc,
      UInt32.add_assoc, UInt32.add_assoc]
  rw [P, rowOf, hr]
  cases r <;> simp only [lowerFrom, operation, get, set, Register.next, hvalue]

/-- A round. -/
lemma lowerFrom_foldl {q n : ℕ} (hq : q < 4) (hn : n ≤ 16) {X : ℕ → UInt64} {X' : ℕ → UInt32}
    (hX : ∀ k, (X k).toUInt32 = X' k) (w : Words UInt64) :
    lowerFrom (((List.range n).map fun j => rowOf (16 * q + j)).foldl (P (roundF q) X) w)
        (registerOf (16 * q + n)) =
      (List.range n).foldl (fun v j => operation X' v (16 * q + j)) (lowerFrom w .A) := by
  induction n with
  | zero =>
    have hfirst : registerOf (16 * q) = .A := by
      have hmod : 16 * q % 4 = 0 := by omega
      simp [registerOf, hmod]
    rw [Nat.add_zero, hfirst]
    rfl
  | succ n ih =>
    rw [List.range_succ, List.map_append, List.foldl_append, List.foldl_append, ← ih (by omega),
      List.map_singleton, List.foldl_cons, List.foldl_nil, List.foldl_cons, List.foldl_nil,
      ← Nat.add_assoc]
    exact lowerFrom_P (by omega) (by omega) hX _

/-- Whatever the upper halves of the words, `md5_process` makes of the lower ones what RFC 1321
makes of a block. -/
lemma map_md5Process (ctx : Context) (data : List UInt8) :
    (ctx.md5Process data).state.map UInt64.toUInt32 =
      compress (ctx.state.map UInt64.toUInt32) data := by
  have hX : ∀ k, (getUint32 data (4 * k)).toUInt32 = decode data (4 * k) := fun k =>
    toUInt32_getUint32 data (4 * k)
  obtain ⟨h1, h2, h3, h4⟩ := rounds_eq
  have hround : ∀ q < 4, ∀ F, roundF q = F → ∀ w, lowerFrom (((List.range 16).map fun j =>
      rowOf (16 * q + j)).foldl (P F fun k => getUint32 data (4 * k)) w) .A =
      (List.range 16).foldl (fun v j => operation (fun k => decode data (4 * k)) v (16 * q + j))
        (lowerFrom w .A) := by
    rintro q hq _ rfl w
    have hlast : registerOf (16 * q + 16) = .A := by
      have hmod : (16 * q + 16) % 4 = 0 := by omega
      simp [registerOf, hmod]
    rw [← lowerFrom_foldl hq (Nat.le_refl 16) hX w, hlast]
  have hlower : ∀ w : Words UInt64, w.map UInt64.toUInt32 = lowerFrom w .A := fun _ => rfl
  have hall : List.range 64 = (List.range 16).map (16 * 0 + ·) ++ (List.range 16).map (16 * 1 + ·)
      ++ (List.range 16).map (16 * 2 + ·) ++ (List.range 16).map (16 * 3 + ·) := by decide
  have hsum : ∀ v w : Words UInt64, (v.zipWith (· + ·) w).map UInt64.toUInt32 =
      (v.map UInt64.toUInt32).zipWith (· + ·) (w.map UInt64.toUInt32) := by
    intro v w
    simp only [Words.zipWith, Words.map, UInt64.toUInt32_add]
  rw [Context.md5Process, compress]
  dsimp only
  rw [hsum, hall, List.foldl_append, List.foldl_append, List.foldl_append]
  simp only [List.foldl_map]
  rw [h1, h2, h3, h4, hlower, hlower]
  rw [hround 3 (by decide) F₄ rfl, hround 2 (by decide) F₃ rfl, hround 1 (by decide) F₂ rfl,
    hround 0 (by decide) F₁ rfl]

/-! ## The input in pieces -/

/-- The words in their lower halves, and the bytes that do not fill a block yet. -/
abbrev Digested := Absorbed (Words UInt32) UInt8 64

lemma sixtyfour_pos : 0 < 64 := by decide

/-- The context has taken in what `x` has. -/
structure Context.Holds (ctx : Context) (x : Digested) : Prop where
  state : ctx.state.map UInt64.toUInt32 = x.state
  buffer : ctx.buffer.take x.pending.length = x.pending
  size : ctx.buffer.length = 64

section Pieces

variable {ctx : Context} {x : Digested} {input : List UInt8}

/-- Nothing waits in the buffer. -/
lemma Context.holds_fresh (hsize : ctx.buffer.length = 64) :
    ctx.Holds (.fresh sixtyfour_pos (ctx.state.map UInt64.toUInt32)) := ⟨rfl, rfl, hsize⟩

/-- Compressing changes the words only. -/
lemma md5Process_eq (ctx : Context) (data : List UInt8) :
    ∃ w, ctx.md5Process data = { ctx with state := w } := ⟨_, rfl⟩

/-- The loop takes in what fills blocks, and leaves less than one. -/
lemma processBlocks_spec (ctx : Context) {input : List UInt8} {turns : ℕ}
    (hturns : input.length < 64 * (turns + 1)) :
    ∃ ctx' rest, Context.processBlocks turns ctx input = (ctx', rest) ∧ rest.length < 64 ∧
      ctx' = { ctx with state := ctx'.state } ∧
      Absorbed.absorb compress (.fresh sixtyfour_pos (ctx.state.map UInt64.toUInt32)) input =
        Absorbed.absorb compress (.fresh sixtyfour_pos (ctx'.state.map UInt64.toUInt32)) rest := by
  induction turns generalizing ctx input with
  | zero => exact ⟨ctx, input, rfl, by omega, rfl, rfl⟩
  | succ turns ih =>
    rw [Context.processBlocks]
    split
    · next hfull =>
      have hrest : (input.drop 64).length < 64 * (turns + 1) := by
        rw [List.length_drop]
        omega
      obtain ⟨ctx', rest, hloop, hlt, hsame, habsorb⟩ :=
        @ih (ctx.md5Process (input.take 64)) _ hrest
      obtain ⟨w, hw⟩ := md5Process_eq ctx (input.take 64)
      refine ⟨ctx', rest, hloop, hlt, hsame.trans (by rw [hw]), ?_⟩
      rw [Absorbed.absorb_fresh sixtyfour_pos _ hfull, ← habsorb, map_md5Process]
    · next hfew => exact ⟨ctx, input, rfl, Nat.lt_of_not_le hfew, rfl, rfl⟩

lemma length_memcpy {left : ℕ} {bytes : List UInt8} (hsize : ctx.buffer.length = 64)
    (h : left + bytes.length ≤ 64) : (ctx.memcpy left bytes).buffer.length = 64 := by
  rw [Context.memcpy, List.length_append, List.length_append, List.length_take, List.length_drop,
    hsize]
  omega

/-- What is copied behind what waits, waits behind it. -/
lemma take_memcpy (h : ctx.Holds x) (bytes : List UInt8) :
    (ctx.memcpy x.pending.length bytes).buffer.take (x.pending ++ bytes).length =
      x.pending ++ bytes := by
  rw [Context.memcpy, h.buffer]
  exact List.take_left' rfl

/-- Less than a block waits. -/
lemma Context.Holds.memcpy (h : ctx.Holds x) (hlt : x.pending.length + input.length < 64) :
    (ctx.memcpy x.pending.length input).Holds (x.absorb compress input) := by
  obtain ⟨hstate, hpending⟩ : (x.absorb compress input).state = x.state ∧
    (x.absorb compress input).pending = x.pending ++ input := Absorbed.absorb_of_lt hlt
  refine ⟨?_, ?_, length_memcpy h.size (by omega)⟩
  · rw [hstate]
    exact h.state
  · rw [hpending]
    exact take_memcpy h input

/-- When nothing waits, the blocks of the input are taken in where they are. -/
lemma holds_of_processBlocks (hsize : ctx.buffer.length = 64) (input : List UInt8) :
    let result := Context.processBlocks input.length ctx input
    Context.Holds (if result.2 = [] then result.1 else result.1.memcpy 0 result.2)
      (Absorbed.absorb compress (.fresh sixtyfour_pos (ctx.state.map UInt64.toUInt32)) input) := by
  obtain ⟨ctx', rest, hloop, hlt, hsame, habsorb⟩ :=
    processBlocks_spec ctx (show input.length < 64 * (input.length + 1) by omega)
  have hsize' : ctx'.buffer.length = 64 := by rw [hsame]; exact hsize
  have hfresh := Context.holds_fresh hsize'
  dsimp only
  rw [hloop, habsorb]
  dsimp only
  split
  · next hnil =>
    rw [hnil]
    exact hfresh
  · have hlt' : 0 + rest.length < 64 := by rwa [Nat.zero_add]
    exact hfresh.memcpy hlt'

/-- `md5_update` takes in its input. -/
lemma Context.Holds.take (h : ctx.Holds x) :
    (ctx.take x.pending.length input).Holds (x.absorb compress input) := by
  have hpending := x.pending_lt
  rw [Context.take]
  dsimp only
  by_cases hfill : x.pending.length ≠ 0 ∧ 64 - x.pending.length ≤ input.length
  · -- the buffer is filled and compressed, and then nothing waits
    have hwhole : x.pending.length + (input.take (64 - x.pending.length)).length = 64 := by
      rw [List.length_take, Nat.min_eq_left hfill.2]
      omega
    have hbuffer := take_memcpy h (input.take (64 - x.pending.length))
    have hsize := length_memcpy h.size (Nat.le_of_eq hwhole)
    rw [List.take_of_length_le (Nat.le_of_eq (by rw [hsize, List.length_append, hwhole]))]
      at hbuffer
    have habsorb : x.absorb compress input = Absorbed.absorb compress
        (.fresh sixtyfour_pos (compress x.state (x.pending ++ input.take (64 - x.pending.length))))
        (input.drop (64 - x.pending.length)) := by
      conv_lhs => rw [← List.take_append_drop (64 - x.pending.length) input,
        Absorbed.absorb_append, Absorbed.absorb_of_eq hwhole]
    rw [if_pos hfill, habsorb, hbuffer]
    have hsize' : ((ctx.memcpy x.pending.length (input.take (64 - x.pending.length))).md5Process
        (x.pending ++ input.take (64 - x.pending.length))).buffer.length = 64 := hsize
    have hloop := holds_of_processBlocks hsize' (input.drop (64 - x.pending.length))
    rw [map_md5Process] at hloop
    rw [← h.state]
    exact hloop
  · rw [if_neg hfill]
    dsimp only
    by_cases hnone : x.pending = []
    · have hx : x = .fresh sixtyfour_pos (ctx.state.map UInt64.toUInt32) :=
        Absorbed.ext h.state.symm hnone
      rw [hnone, hx]
      exact holds_of_processBlocks h.size input
    · -- the loop does not turn
      have hfew : x.pending.length + input.length < 64 := by
        have := List.length_pos_of_ne_nil hnone
        omega
      have hloop : Context.processBlocks input.length ctx input = (ctx, input) := by
        cases hturns : input.length with
        | zero => rfl
        | succ turns => exact if_neg (by omega)
      rw [hloop]
      dsimp only
      split
      · next hnil =>
        rw [hnil]
        exact h
      · exact h.memcpy hfew

end Pieces

/-! ## The counts -/

/-- The second count runs ahead by one on a piece of at least `2 ^ 29` bytes, behind `n` bytes,
whose bits do not carry in the first count. -/
def overcount (n length : ℕ) : ℕ :=
  if 2 ^ 29 ≤ length ∧ 8 * n % 2 ^ 32 + 8 * length % 2 ^ 32 < 2 ^ 32 then 1 else 0

/-- How far it is ahead behind some pieces. -/
def overcounts : ℕ → List (List UInt8) → ℕ
  | _, [] => 0
  | n, piece :: pieces =>
      overcount n piece.length + overcounts (n + piece.length) pieces

/-- The counts are those of `n` bytes, but that the second one is `ahead`. -/
structure Context.Counts (ctx : Context) (n ahead : ℕ) : Prop where
  total₀ : ctx.total₀.toNat = 8 * n % 2 ^ 32
  total₁ : ctx.total₁.toNat = (8 * n / 2 ^ 32 + ahead) % 2 ^ 64

section Counts

variable {ctx : Context} {n ahead : ℕ}

lemma Context.Counts.left (h : ctx.Counts n ahead) : ctx.left = n % 64 := by
  have hmask : (0x3F : UInt64).toNat = 2 ^ 6 - 1 := rfl
  have hshift : (3 : UInt64).toNat % 64 = 3 := rfl
  rw [Context.left, UInt64.toNat_and, UInt64.toNat_shiftRight, hmask, hshift,
    Nat.and_two_pow_sub_one_eq_mod, Nat.shiftRight_eq_div_pow, h.total₀]
  omega

/-- Counting a piece. -/
lemma Context.Counts.count (h : ctx.Counts n ahead) {length : ℕ} (hlen : length < 2 ^ 61) :
    (ctx.count (.ofNat length)).Counts (n + length) (ahead + overcount n length) := by
  have hword : UInt64.size = 2 ^ 64 := rfl
  have hlength : (UInt64.ofNat length).toNat = length := UInt64.toNat_ofNat_of_lt' (by omega)
  have hbits : (UInt64.ofNat length <<< 3).toNat = 8 * length := by
    have hshift : (3 : UInt64).toNat % 64 = 3 := rfl
    rw [UInt64.toNat_shiftLeft, hlength, hshift, Nat.shiftLeft_eq]
    omega
  have hhigh : (UInt64.ofNat length >>> 29).toNat = length / 2 ^ 29 := by
    have hshift : (29 : UInt64).toNat % 64 = 29 := rfl
    rw [UInt64.toNat_shiftRight, hlength, hshift, Nat.shiftRight_eq_div_pow]
  have hmask : (0xFFFFFFFF : UInt64).toNat = 2 ^ 32 - 1 := rfl
  have hfirst : ((ctx.total₀ + UInt64.ofNat length <<< 3) &&& 0xFFFFFFFF).toNat =
      8 * (n + length) % 2 ^ 32 := by
    rw [UInt64.toNat_and, UInt64.toNat_add, hmask, Nat.and_two_pow_sub_one_eq_mod, h.total₀, hbits]
    omega
  refine ⟨hfirst, ?_⟩
  rw [Context.count]
  dsimp only
  rw [UInt64.toNat_add, UInt64.toNat_add, hhigh, h.total₁]
  by_cases hcarry : ((ctx.total₀ + UInt64.ofNat length <<< 3) &&& (0xFFFFFFFF : UInt64)) <
      UInt64.ofNat length <<< 3
  · rw [if_pos hcarry, UInt64.toNat_one, overcount]
    rw [UInt64.lt_iff_toNat_lt, hfirst, hbits] at hcarry
    split <;> omega
  · rw [if_neg hcarry, UInt64.toNat_zero, overcount]
    rw [UInt64.lt_iff_toNat_lt, hfirst, hbits] at hcarry
    split <;> omega

end Counts

/-! ## The digest -/

/-- The context has taken in what `x` has, which is `n` bytes, and has counted them. -/
structure Context.Tracks (ctx : Context) (x : Digested) (n ahead : ℕ) : Prop where
  holds : ctx.Holds x
  counts : ctx.Counts n ahead
  pending : x.pending.length = n % 64

section Digest

variable {ctx : Context} {x : Digested} {n ahead : ℕ}

lemma Context.Counts.md5Process (h : ctx.Counts n ahead) (data : List UInt8) :
    (ctx.md5Process data).Counts n ahead := by
  obtain ⟨w, hw⟩ := md5Process_eq ctx data
  rw [hw]
  exact ⟨h.total₀, h.total₁⟩

lemma Context.Counts.memcpy (h : ctx.Counts n ahead) (left : ℕ) (bytes : List UInt8) :
    (ctx.memcpy left bytes).Counts n ahead := ⟨h.total₀, h.total₁⟩

lemma Context.Counts.processBlocks (h : ctx.Counts n ahead) (turns : ℕ) (input : List UInt8) :
    (Context.processBlocks turns ctx input).1.Counts n ahead := by
  induction turns generalizing ctx input with
  | zero => exact h
  | succ turns ih =>
    rw [Context.processBlocks]
    split
    · exact ih (h.md5Process _) _
    · exact h

/-- `md5_update` does not touch the counts once they are made. -/
lemma Context.Counts.take (h : ctx.Counts n ahead) (left : ℕ) (input : List UInt8) :
    (ctx.take left input).Counts n ahead := by
  have hend : ∀ left (ctx : Context) (input : List UInt8), ctx.Counts n ahead →
      Context.Counts (if (Context.processBlocks input.length ctx input).2 = [] then
        (Context.processBlocks input.length ctx input).1 else
          (Context.processBlocks input.length ctx input).1.memcpy left
            (Context.processBlocks input.length ctx input).2) n ahead := by
    intro left ctx input h
    split
    · exact h.processBlocks _ _
    · exact (h.processBlocks _ _).memcpy _ _
  rw [Context.take]
  dsimp only
  split
  · exact hend _ _ _ ((h.memcpy _ _).md5Process _)
  · exact hend _ _ _ h

/-- A new context. -/
lemma tracks_md5Starts (hsize : ctx.buffer.length = 64) :
    ctx.md5Starts.Tracks (.fresh sixtyfour_pos Rfc1321.initial) 0 0 :=
  ⟨⟨rfl, rfl, hsize⟩, ⟨rfl, rfl⟩, rfl⟩

/-- A piece of the input. -/
lemma Context.Tracks.md5Update (h : ctx.Tracks x n ahead) (input : List UInt8)
    (hlen : input.length < 2 ^ 61) : (ctx.md5Update input).Tracks (x.absorb compress input)
      (n + input.length) (ahead + overcount n input.length) := by
  rw [Context.md5Update]
  split
  · next hnil =>
    rw [hnil, Absorbed.absorb_nil]
    exact h
  · have hleft : ctx.left = x.pending.length := h.counts.left.trans h.pending.symm
    have hcounts := h.counts.count hlen
    have hholds : (ctx.count (.ofNat input.length)).Holds x :=
      ⟨h.holds.state, h.holds.buffer, h.holds.size⟩
    refine ⟨?_, hcounts.take _ _, ?_⟩
    · rw [hleft]
      exact hholds.take
    · rw [Absorbed.length_pending_absorb, h.pending, Nat.mod_add_mod]

/-- The pieces of the input. -/
lemma Context.Tracks.foldl (h : ctx.Tracks x n ahead) (pieces : List (List UInt8))
    (hlen : ∀ piece ∈ pieces, piece.length < 2 ^ 61) :
    (pieces.foldl Context.md5Update ctx).Tracks (x.absorb compress pieces.flatten)
      (n + pieces.flatten.length) (ahead + overcounts n pieces) := by
  induction pieces generalizing ctx x n ahead with
  | nil => exact h
  | cons piece pieces ih =>
    rw [List.forall_mem_cons] at hlen
    rw [List.foldl_cons, List.flatten_cons, Absorbed.absorb_append, List.length_append, overcounts,
      ← Nat.add_assoc, ← Nat.add_assoc]
    exact ih (h.md5Update _ hlen.1) hlen.2

/-- What `md5_finish` puts behind the message is its padding. -/
lemma pad_eq (message : List UInt8) (h : ctx.Counts message.length ahead) :
    message ++ (Context.md5Padding.take (if ctx.left < 56 then 56 - ctx.left else 120 - ctx.left))
      ++ (putUint32 ctx.total₀ ++ putUint32 ctx.total₁) =
        Rfc1321.pad message (8 * message.length + 2 ^ 32 * ahead) := by
  have hlow : ctx.total₀.toUInt32 = .ofNat (8 * message.length + 2 ^ 32 * ahead) := by
    apply UInt32.toNat_inj.mp
    rw [UInt64.toNat_toUInt32, h.total₀, UInt32.toNat_ofNat']
    omega
  have hhigh : ctx.total₁.toUInt32 = .ofNat ((8 * message.length + 2 ^ 32 * ahead) / 2 ^ 32) := by
    apply UInt32.toNat_inj.mp
    rw [UInt64.toNat_toUInt32, h.total₁, UInt32.toNat_ofNat']
    omega
  have hpadn : Context.md5Padding.take (if ctx.left < 56 then 56 - ctx.left else 120 - ctx.left) =
      0x80 :: List.replicate (Rfc1321.zeros message.length) 0 := by
    have hleft := h.left
    obtain ⟨k, hk, hzeros⟩ : ∃ k,
        (if ctx.left < 56 then 56 - ctx.left else 120 - ctx.left) = k + 1 ∧
          k = Rfc1321.zeros message.length := by
      rw [Rfc1321.zeros]
      refine ⟨_, ?_, rfl⟩
      split <;> omega
    have hle : k ≤ 63 := by
      rw [hzeros, Rfc1321.zeros]
      omega
    rw [hk, ← hzeros, Context.md5Padding, List.take_succ_cons, List.take_replicate,
      Nat.min_eq_left hle]
  rw [hpadn, putUint32_eq_encode, putUint32_eq_encode, hlow, hhigh, Rfc1321.pad,
    ← List.append_assoc]

/-- The bytes of the digest are those of the lower halves. -/
lemma putUint32_words (w : Words UInt64) :
    putUint32 w.A ++ putUint32 w.B ++ putUint32 w.C ++ putUint32 w.D =
      encode (w.map UInt64.toUInt32).A ++ encode (w.map UInt64.toUInt32).B
        ++ encode (w.map UInt64.toUInt32).C ++ encode (w.map UInt64.toUInt32).D := by
  rw [putUint32_eq_encode, putUint32_eq_encode, putUint32_eq_encode, putUint32_eq_encode]
  rfl

/-- The digest of what a context has taken in. -/
lemma md5Finish_eq (message : List UInt8)
    (h : ctx.Tracks (Absorbed.absorb compress (.fresh sixtyfour_pos Rfc1321.initial) message)
      message.length ahead) :
    ctx.md5Finish = Rfc1321.digestOf message (8 * message.length + 2 ^ 32 * ahead) := by
  generalize hpadding : Context.md5Padding.take
    (if ctx.left < 56 then 56 - ctx.left else 120 - ctx.left) = padding
  have hpad := pad_eq message h.counts
  rw [hpadding] at hpad
  have hpaddingLen : padding.length < 2 ^ 61 := by
    have hle := List.length_take_le (if ctx.left < 56 then 56 - ctx.left else 120 - ctx.left)
      Context.md5Padding
    rw [hpadding] at hle
    split at hle <;> omega
  have hfinal := (h.md5Update _ hpaddingLen).md5Update
    (putUint32 ctx.total₀ ++ putUint32 ctx.total₁) (by simp [putUint32])
  have hstate := hfinal.holds.state
  rw [← Absorbed.absorb_append, ← Absorbed.absorb_append, ← List.append_assoc, hpad,
    Absorbed.absorb_eq_chain sixtyfour_pos _ (Rfc1321.length_pad _ _)] at hstate
  have hblocks : (Rfc1321.pad message (8 * message.length + 2 ^ 32 * ahead)).length / 64 =
      (message.length + 8) / 64 + 1 := by
    rw [Rfc1321.length_pad, Nat.mul_div_cancel_left _ sixtyfour_pos]
  rw [Context.md5Finish, Rfc1321.digestOf, hpadding, putUint32_words, hblocks, hstate]
  rfl

/-- When the input comes in pieces of less than `2 ^ 29` bytes, the digest is that of RFC 1321, of
all of the input, whatever has been in the memory of the context. -/
theorem digest_of_pieces (hsize : ctx.buffer.length = 64) (pieces : List (List UInt8))
    (hlen : ∀ piece ∈ pieces, piece.length < 2 ^ 29) :
    (pieces.foldl Context.md5Update ctx.md5Starts).md5Finish = Rfc1321.digest pieces.flatten := by
  have hnone : ∀ n, overcounts n pieces = 0 := by
    clear hsize
    induction pieces with
    | nil => exact fun n => rfl
    | cons piece pieces ih =>
      intro n
      rw [List.forall_mem_cons] at hlen
      have hsmall : overcount n piece.length = 0 := if_neg (by omega)
      rw [overcounts, hsmall, ih hlen.2]
  have htracks := (tracks_md5Starts hsize).foldl pieces
    fun piece hpiece => Nat.lt_trans (hlen piece hpiece) (by decide)
  rw [Nat.zero_add, Nat.zero_add, hnone] at htracks
  rw [md5Finish_eq pieces.flatten htracks, Nat.mul_zero, Nat.add_zero, Rfc1321.digest]

/-- A context in memory that has been used for something else. -/
def usedContext : Context := ⟨1, 2, ⟨3, 4, 5, 6⟩, List.replicate 64 7⟩

/-- `"abc"`, in two pieces. -/
theorem digest_of_two_pieces :
    ([[97], [98, 99]].foldl Context.md5Update usedContext.md5Starts).md5Finish =
      Rfc1321.digest [[97], [98, 99]].flatten :=
  digest_of_pieces rfl [[97], [98, 99]] (by decide)

/-- What `GenerateMD5` writes is the digest of RFC 1321 for a buffer of less than `2 ^ 29` bytes.
From there on the first count, which has been masked, is less than `length << 3`, which has not:
the digest is the one for `2 ^ 32` bits more than there are. -/
theorem bytes_generateMD5 (m : MD5) (hsize : ctx.buffer.length = 64) (buffer : List UInt8)
    (hlen : buffer.length < 2 ^ 31) :
    (m.generateMD5 ctx buffer).bytes =
      if buffer.length < 2 ^ 29 then Rfc1321.digest buffer
      else Rfc1321.digestOf buffer (8 * buffer.length + 2 ^ 32) := by
  have htracks := (tracks_md5Starts hsize).md5Update buffer (by omega)
  have hbytes : (m.generateMD5 ctx buffer).bytes =
      (ctx.md5Starts.md5Update buffer).md5Finish := List.take_left' rfl
  rw [Nat.zero_add, Nat.zero_add] at htracks
  rw [hbytes, md5Finish_eq buffer htracks, overcount]
  by_cases hsmall : buffer.length < 2 ^ 29
  · have hnone : ¬(2 ^ 29 ≤ buffer.length ∧
        8 * 0 % 2 ^ 32 + 8 * buffer.length % 2 ^ 32 < 2 ^ 32) := by omega
    rw [if_pos hsmall, if_neg hnone, Nat.mul_zero, Nat.add_zero, Rfc1321.digest]
  · have hone : 2 ^ 29 ≤ buffer.length ∧
        8 * 0 % 2 ^ 32 + 8 * buffer.length % 2 ^ 32 < 2 ^ 32 := by omega
    rw [if_neg hsmall, if_pos hone, Nat.mul_one]

/-- `"abc"`, at once. -/
theorem bytes_generateMD5_abc : (zero.generateMD5 usedContext [97, 98, 99]).bytes =
    if [97, 98, 99].length < 2 ^ 29 then Rfc1321.digest [97, 98, 99]
    else Rfc1321.digestOf [97, 98, 99] (8 * [97, 98, 99].length + 2 ^ 32) :=
  bytes_generateMD5 zero rfl [97, 98, 99] (by decide)

end Digest

end MD5

end OldPart
