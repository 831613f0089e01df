import Mathlib.Algebra.GroupWithZero.Nat
import Mathlib.Data.List.Basic
import Mathlib.Data.List.Count
import Mathlib.Algebra.Order.BigOperators.Group.List

/-!
# A stream cut into chunks

A sequence of bytes can reach its consumer in pieces.  Positions are counted from the start
of the whole sequence; `chunkEnds` lists the positions at which the pieces end, and a `Span`
is a block of the sequence that somebody wants in one go.  The two questions asked of a cut
are how many chunks end inside a span (`Span.cuts`) and whether one ends strictly inside it
(`Uncut`).

`Cursor` is a position in a chunked stream: the chunk being read, an offset in it, and the
chunks still to come.  `Cursor.Advance` relates two cursors of one stream, and composes.
-/

namespace OldPart

/-! ## Where the chunks end -/

/-- The positions at which chunks of the given lengths end when the first starts at `p`. -/
def chunkEnds (p : ℕ) : List ℕ → List ℕ
  | [] => []
  | l :: ls => (p + l) :: chunkEnds (p + l) ls

@[simp] lemma chunkEnds_nil (p : ℕ) : chunkEnds p [] = [] := rfl

@[simp] lemma chunkEnds_cons (p l : ℕ) (ls : List ℕ) :
    chunkEnds p (l :: ls) = (p + l) :: chunkEnds (p + l) ls := rfl

lemma chunkEnds_append (p : ℕ) (ls ms : List ℕ) :
    chunkEnds p (ls ++ ms) = chunkEnds p ls ++ chunkEnds (p + ls.sum) ms := by
  induction ls generalizing p with
  | nil => simp
  | cons l ls ih => simp [ih, Nat.add_assoc]

@[simp] lemma length_chunkEnds (p : ℕ) (ls : List ℕ) : (chunkEnds p ls).length = ls.length := by
  induction ls generalizing p with
  | nil => rfl
  | cons l ls ih => simp [ih]

lemma le_of_mem_chunkEnds {p e : ℕ} {ls : List ℕ} (h : e ∈ chunkEnds p ls) : p ≤ e := by
  induction ls generalizing p with
  | nil => simp at h
  | cons l ls ih =>
    rcases List.mem_cons.mp h with rfl | h
    · omega
    · have := ih h
      omega

lemma mem_chunkEnds_le {p e : ℕ} {ls : List ℕ} (h : e ∈ chunkEnds p ls) : e ≤ p + ls.sum := by
  induction ls generalizing p with
  | nil => simp at h
  | cons l ls ih =>
    rcases List.mem_cons.mp h with rfl | h
    · simp
    · have := ih h
      simp only [List.sum_cons]
      omega

/-- Chunks that are not empty end at strictly increasing positions. -/
lemma chunkEnds_pairwise_lt {p : ℕ} {ls : List ℕ} (h : ∀ l ∈ ls, 0 < l) :
    (chunkEnds p ls).Pairwise (· < ·) := by
  induction ls generalizing p with
  | nil => simp
  | cons l ls ih =>
    refine List.pairwise_cons.mpr ⟨fun e he => ?_, ih fun x hx => h x (by simp [hx])⟩
    cases ls with
    | nil => simp at he
    | cons m ms =>
      have hm := h m (by simp)
      rcases List.mem_cons.mp he with rfl | he
      · omega
      · have := le_of_mem_chunkEnds he
        omega

/-! ## Spans -/

/-- A block of a byte sequence. -/
structure Span where
  start : ℕ
  len : ℕ
deriving DecidableEq, Repr

/-- The first position after a span. -/
def Span.stop (q : Span) : ℕ := q.start + q.len

/-- How many of the given chunk ends fall inside a span, its first position included. -/
def Span.cuts (q : Span) (ends : List ℕ) : ℕ :=
  ends.countP fun e => decide (q.start ≤ e ∧ e < q.stop)

/-- At most one chunk ends inside each of the spans. -/
def AtMostOneCut (spans : List Span) (ends : List ℕ) : Prop :=
  ∀ q ∈ spans, q.cuts ends ≤ 1

instance (spans : List Span) (ends : List ℕ) : Decidable (AtMostOneCut spans ends) :=
  inferInstanceAs (Decidable (∀ q ∈ spans, q.cuts ends ≤ 1))

/-- No chunk ends strictly inside any of the spans. -/
def Uncut (spans : List Span) (ends : List ℕ) : Prop :=
  ∀ q ∈ spans, ∀ e ∈ ends, e ≤ q.start ∨ q.stop ≤ e

@[simp] lemma Span.cuts_nil (q : Span) : q.cuts [] = 0 := rfl

lemma Span.cuts_cons (p n e : ℕ) (ends : List ℕ) :
    Span.cuts ⟨p, n⟩ (e :: ends) =
      Span.cuts ⟨p, n⟩ ends + if p ≤ e ∧ e < p + n then 1 else 0 := by
  by_cases h : p ≤ e ∧ e < p + n <;> simp [Span.cuts, Span.stop, h]

lemma Span.cuts_eq_zero {q : Span} {ends : List ℕ} (h : ∀ e ∈ ends, q.stop ≤ e) :
    q.cuts ends = 0 := by
  refine List.countP_eq_zero.mpr fun e he => ?_
  have := h e he
  simp only [decide_eq_true_eq]
  omega

@[simp] lemma atMostOneCut_nil (ends : List ℕ) : AtMostOneCut [] ends := by
  simp [AtMostOneCut]

@[simp] lemma atMostOneCut_append (spans spans' : List Span) (ends : List ℕ) :
    AtMostOneCut (spans ++ spans') ends ↔ AtMostOneCut spans ends ∧ AtMostOneCut spans' ends := by
  simp only [AtMostOneCut, List.mem_append, or_imp, forall_and]

@[simp] lemma atMostOneCut_cons (q : Span) (spans : List Span) (ends : List ℕ) :
    AtMostOneCut (q :: spans) ends ↔ q.cuts ends ≤ 1 ∧ AtMostOneCut spans ends := by
  simp [AtMostOneCut]

/-- Spans behind all chunk ends are not cut. -/
lemma atMostOneCut_of_lt {spans : List Span} {ends : List ℕ}
    (h : ∀ q ∈ spans, ∀ e ∈ ends, e < q.start) : AtMostOneCut spans ends := by
  intro q hq
  rw [Span.cuts, List.countP_eq_zero.mpr fun e he => ?_]
  · exact Nat.zero_le 1
  · have := h q hq e he
    simp only [decide_eq_true_eq]
    omega

/-- Chunk ends that were passed before a span starts do not count for it. -/
lemma Span.cuts_filter {q : Span} {p : ℕ} (h : p ≤ q.start) (ends : List ℕ) :
    q.cuts (ends.filter fun e => decide (p ≤ e)) = q.cuts ends := by
  simp only [Span.cuts, List.countP_filter]
  refine List.countP_congr fun e _ => ?_
  simp only [Bool.and_eq_true, decide_eq_true_eq]
  omega

lemma atMostOneCut_filter {spans : List Span} {p : ℕ} (h : ∀ q ∈ spans, p ≤ q.start)
    (ends : List ℕ) :
    AtMostOneCut spans (ends.filter fun e => decide (p ≤ e)) ↔ AtMostOneCut spans ends := by
  refine forall_congr' fun q => forall_congr' fun hq => ?_
  rw [Span.cuts_filter (h q hq)]

/-- Chunks that are not empty and cut no span leave at most one end, the one at its first
position, to each span. -/
lemma Uncut.atMostOneCut {spans : List Span} {ends : List ℕ} (h : Uncut spans ends)
    (hends : ends.Pairwise (· < ·)) : AtMostOneCut spans ends := by
  intro q hq
  have hcount : q.cuts ends ≤ ends.count q.start := by
    refine List.countP_mono_left fun e he hcut => ?_
    have := h q hq e he
    simp only [Span.stop] at this hcut
    have hcut' := of_decide_eq_true hcut
    simp only [beq_iff_eq]
    omega
  have hnodup : ends.Nodup := hends.imp fun hlt => Nat.ne_of_lt hlt
  exact hcount.trans (List.nodup_iff_count.mp hnodup _)

/-- Fewer chunks cut less. -/
lemma AtMostOneCut.of_append {spans : List Span} {ends ends' : List ℕ}
    (h : AtMostOneCut spans (ends ++ ends')) : AtMostOneCut spans ends := by
  intro q hq
  have hle := h q hq
  rw [Span.cuts, List.countP_append] at hle
  exact (Nat.le_add_right _ _).trans hle

lemma uncut_append_ends {spans : List Span} {ends ends' : List ℕ} :
    Uncut spans (ends ++ ends') ↔ Uncut spans ends ∧ Uncut spans ends' := by
  simp only [Uncut, List.mem_append, or_imp, forall_and]

lemma uncut_of_ge {spans : List Span} {ends : List ℕ} {p : ℕ} (hspans : ∀ q ∈ spans, q.stop ≤ p)
    (hends : ∀ e ∈ ends, p ≤ e) : Uncut spans ends :=
  fun q hq e he => Or.inr ((hspans q hq).trans (hends e he))

/-! ## A position in a chunked stream -/

/-- Where a consumer stands: the chunk it reads, its offset in it, the chunks to come. -/
structure Cursor (α : Type*) where
  buf : List α
  offset : ℕ
  rest : List (List α)

namespace Cursor

variable {α : Type*}

/-- What is left of the stream. -/
def remaining (c : Cursor α) : List α := c.buf.drop c.offset ++ c.rest.flatten

/-- The ends of the current and the coming chunks, for a cursor at position `p`. -/
def ends (p : ℕ) (c : Cursor α) : List ℕ :=
  chunkEnds p ((c.buf.length - c.offset) :: c.rest.map List.length)

/-- The cursor `c'` stands `n` elements after `c`, which is at position `p`. -/
structure Advance (p n : ℕ) (c c' : Cursor α) : Prop where
  remaining_eq : c'.remaining = c.remaining.drop n
  ends_eq : c'.ends (p + n) = (c.ends p).filter fun e => decide (p + n ≤ e)

lemma Advance.trans {p n m : ℕ} {c₁ c₂ c₃ : Cursor α} (h₁ : Advance p n c₁ c₂)
    (h₂ : Advance (p + n) m c₂ c₃) : Advance p (n + m) c₁ c₃ where
  remaining_eq := by rw [h₂.remaining_eq, h₁.remaining_eq, List.drop_drop]
  ends_eq := by
    rw [← Nat.add_assoc, h₂.ends_eq, h₁.ends_eq, List.filter_filter]
    refine List.filter_congr fun e _ => ?_
    rw [← Bool.decide_and]
    congr 1
    apply propext
    omega

/-- A cursor has passed no chunk end to come. -/
lemma le_of_mem_ends {p e : ℕ} {c : Cursor α} (h : e ∈ c.ends p) : p ≤ e :=
  le_of_mem_chunkEnds h

lemma Advance.refl (p : ℕ) (c : Cursor α) : Advance p 0 c c where
  remaining_eq := rfl
  ends_eq := by
    refine (List.filter_eq_self.mpr fun e he => ?_).symm
    simpa using le_of_mem_ends he

/-- No chunk ends behind what is left. -/
lemma mem_ends_le {p e : ℕ} {c : Cursor α} (h : e ∈ c.ends p) : e ≤ p + c.remaining.length := by
  have hle := mem_chunkEnds_le h
  simp only [List.sum_cons] at hle
  rw [remaining, List.length_append, List.length_drop, List.length_flatten]
  exact hle

/-- Moving on inside the current chunk. -/
lemma advance_within (p n : ℕ) {buf : List α} {offset : ℕ} (rest : List (List α))
    (h : offset + n ≤ buf.length) :
    Advance p n ⟨buf, offset, rest⟩ ⟨buf, offset + n, rest⟩ where
  remaining_eq := by
    have hlen : n ≤ (buf.drop offset).length := by
      rw [List.length_drop]
      omega
    simp only [remaining, List.drop_append_of_le_length hlen, List.drop_drop]
  ends_eq := by
    have hhead : p + n + (buf.length - (offset + n)) = p + (buf.length - offset) := by omega
    simp only [ends, chunkEnds_cons, hhead]
    refine (List.filter_eq_self.mpr fun e he => ?_).symm
    simp only [decide_eq_true_eq]
    rcases List.mem_cons.mp he with rfl | he
    · omega
    · have := le_of_mem_chunkEnds he
      omega

/-- Leaving the current chunk for the next one. -/
lemma Advance.of_next {p n : ℕ} {buf x : List α} {offset : ℕ} {rest : List (List α)} {c : Cursor α}
    (hlo : buf.length - offset < n)
    (h : Advance (p + (buf.length - offset)) (n - (buf.length - offset)) ⟨x, 0, rest⟩ c) :
    Advance p n ⟨buf, offset, x :: rest⟩ c where
  remaining_eq := by
    have hpassed : (buf.drop offset).drop n = [] := by
      rw [List.drop_drop]
      exact List.drop_eq_nil_of_le (by omega)
    rw [h.remaining_eq]
    simp only [remaining, List.flatten_cons, List.drop_zero]
    calc (x ++ rest.flatten).drop (n - (buf.length - offset))
        = (buf.drop offset).drop n ++ (x ++ rest.flatten).drop (n - (buf.drop offset).length) := by
          rw [hpassed, List.nil_append, List.length_drop]
      _ = (buf.drop offset ++ (x ++ rest.flatten)).drop n := List.drop_append.symm
  ends_eq := by
    have hpos : p + (buf.length - offset) + (n - (buf.length - offset)) = p + n := by omega
    have hends := h.ends_eq
    rw [hpos] at hends
    rw [hends]
    simp only [ends, chunkEnds_cons, List.map_cons, Nat.sub_zero]
    exact (List.filter_cons_of_neg (by simp only [decide_eq_true_eq]; omega)).symm

/-- Finishing the current chunk and going on inside the next one. -/
lemma advance_next {p n : ℕ} {buf x : List α} {offset : ℕ} {rest : List (List α)}
    (hlo : buf.length - offset < n) (hhi : n ≤ buf.length - offset + x.length) :
    Advance p n ⟨buf, offset, x :: rest⟩ ⟨x, n - (buf.length - offset), rest⟩ := by
  have hroom : 0 + (n - (buf.length - offset)) ≤ x.length := by omega
  have h := advance_within (p + (buf.length - offset)) (n - (buf.length - offset)) rest hroom
  rw [Nat.zero_add] at h
  exact Advance.of_next hlo h

/-- Once a stream has been read to its end, no chunk is left, unless there are empty ones
behind its last element. -/
lemma Advance.rest_eq_nil {x : List α} {xs front : List (List α)} {last : List α} {c : Cursor α}
    (hchunks : x :: xs = front ++ [last]) (hlast : last ≠ [])
    (h : Advance 0 (x :: xs).flatten.length ⟨x, 0, xs⟩ c) : c.rest = [] := by
  have hpos : 0 < last.length := List.length_pos_of_ne_nil hlast
  have hends : ends 0 ⟨x, 0, xs⟩ = chunkEnds 0 ((x :: xs).map List.length) := rfl
  have htotal : (x :: xs).flatten.length = (front.map List.length).sum + last.length := by
    rw [hchunks, List.flatten_append, List.length_append, List.length_flatten]
    simp
  have hfront : (chunkEnds 0 (front.map List.length)).filter
      (fun e => decide ((x :: xs).flatten.length ≤ e)) = [] := by
    refine List.filter_eq_nil_iff.mpr fun e he => ?_
    have := mem_chunkEnds_le he
    simp only [decide_eq_true_eq]
    omega
  have hone := congrArg List.length h.ends_eq
  rw [hends, Nat.zero_add, hchunks, List.map_append, chunkEnds_append, List.filter_append,
    ← hchunks, hfront] at hone
  have hle := List.length_filter_le (fun e => decide ((x :: xs).flatten.length ≤ e))
    (chunkEnds (0 + (front.map List.length).sum) ([last].map List.length))
  have hends' : (c.ends (x :: xs).flatten.length).length = c.rest.length + 1 := by
    simp [ends, length_chunkEnds]
  simp only [List.nil_append, List.map_cons, List.map_nil] at hone hle
  rw [length_chunkEnds, List.length_singleton] at hle
  exact List.eq_nil_of_length_eq_zero (by omega)

/-- A block that the current chunk still holds is not cut. -/
lemma cuts_ends_within {p n : ℕ} {buf : List α} {offset : ℕ} {rest : List (List α)}
    (h : n ≤ buf.length - offset) : Span.cuts ⟨p, n⟩ (ends p ⟨buf, offset, rest⟩) = 0 := by
  refine Span.cuts_eq_zero fun e he => ?_
  simp only [ends, chunkEnds_cons] at he
  simp only [Span.stop]
  rcases List.mem_cons.mp he with rfl | he
  · omega
  · have := le_of_mem_chunkEnds he
    omega

/-- A block that the current chunk does not hold is cut once exactly when the next chunk
holds the rest of it. -/
lemma cuts_ends_next {p n : ℕ} {buf x : List α} {offset : ℕ} {rest : List (List α)}
    (h : buf.length - offset < n) :
    Span.cuts ⟨p, n⟩ (ends p ⟨buf, offset, x :: rest⟩) ≤ 1 ↔
      n ≤ buf.length - offset + x.length := by
  simp only [ends, chunkEnds_cons, List.map_cons, Span.cuts_cons]
  rw [if_pos (by omega : p ≤ p + (buf.length - offset) ∧ p + (buf.length - offset) < p + n)]
  constructor
  · intro hcuts
    by_contra hlt
    rw [if_pos (by omega)] at hcuts
    omega
  · intro hle
    rw [if_neg (by omega), Span.cuts_eq_zero]
    intro e he
    have := le_of_mem_chunkEnds he
    simp only [Span.stop]
    omega

end Cursor

/-! ## Pieces of one size -/

section Pieces

variable {β : Type*}

/-- A list in pieces of `n` elements; the last may be shorter. -/
def pieces (n : ℕ) (xs : List β) : List (List β) :=
  (List.range ((xs.length + n - 1) / n)).map fun i => (xs.drop (i * n)).take n

lemma pieces_cons {n : ℕ} (hn : 0 < n) {x : List β} (hx : x.length = n) (xs : List β) :
    pieces n (x ++ xs) = x :: pieces n xs := by
  have hcount : ((x ++ xs).length + n - 1) / n = (xs.length + n - 1) / n + 1 := by
    rw [List.length_append, hx, show n + xs.length + n - 1 = xs.length + n - 1 + n by omega,
      Nat.add_div_right _ hn]
  rw [pieces, hcount, List.range_succ_eq_map, List.map_cons, List.map_map]
  congr 1
  · rw [Nat.zero_mul, List.drop_zero, List.take_left' hx]
  · refine List.map_congr_left fun i _ => ?_
    rw [Function.comp_apply, Nat.succ_mul, Nat.add_comm, List.drop_append, hx,
      List.drop_of_length_le (by omega), List.nil_append, Nat.add_sub_cancel_left]

lemma pieces_of_le {n : ℕ} {x : List β} (hpos : 0 < x.length) (hle : x.length ≤ n) :
    pieces n x = [x] := by
  have hcount : (x.length + n - 1) / n = 1 := by
    rw [Nat.div_eq_iff (by omega)]
    omega
  rw [pieces, hcount]
  simpa using hle

/-- Whole pieces with one of any length behind them are the pieces of what they hold. -/
lemma pieces_flatten {n : ℕ} {front : List (List β)} {last : List β}
    (hfront : ∀ x ∈ front, x.length = n) (hpos : 0 < last.length) (hle : last.length ≤ n) :
    pieces n (front.flatten ++ last) = front ++ [last] := by
  induction front with
  | nil => exact pieces_of_le hpos hle
  | cons x xs ih =>
    rw [List.flatten_cons, List.append_assoc, pieces_cons (hpos.trans_le hle) (hfront x (by simp)),
      ih fun y hy => hfront y (by simp [hy])]
    rfl

end Pieces

end OldPart
