import OldPart.Serializer.ZLibContract
import Mathlib.Data.List.Infix

/-!
# A zlib that stores

The contract of zlib can be kept.  This one does no more than what zlib does at level 0 with
less than a block of input: it keeps everything until `Z_FINISH` and puts it into one stored
block, so that the runs of zlib it stands for can be followed byte by byte.
-/

namespace OldPart

namespace Stored

/-! ## The stream -/

/-- The checksum behind a stream. -/
def adler32 (xs : List UInt8) : ℕ :=
  let (a, b) := xs.foldl (fun (a, b) x => ((a + x.toNat) % 65521, (b + (a + x.toNat)) % 65521))
    (1, 0)
  b * 2 ^ 16 + a

/-- The four bytes of a word, most significant first. -/
def be32 (n : ℕ) : List UInt8 := (le32 n).reverse

/-- The two bytes of a half word, least significant first. -/
def le16 (n : ℕ) : List UInt8 := [UInt8.ofNat n, UInt8.ofNat (n / 2 ^ 8)]

/-- The stream of `xs`: the header, one stored block and the checksum.  What is longer than a
stored block can be is put behind a byte with which no stream of zlib starts. -/
def encode (xs : List UInt8) : List UInt8 :=
  if xs.length < 2 ^ 16 then
    [0x78, 0x01, 0x01] ++ le16 xs.length ++ le16 (2 ^ 16 - 1 - xs.length) ++ xs ++
      be32 (adler32 xs)
  else 0x79 :: xs

/-- What the beginning of a stream holds when its first byte is taken off. -/
def decodeBlock : List UInt8 → List UInt8
  | _ :: _ :: len₀ :: len₁ :: _ :: _ :: xs => xs.take (len₀.toNat + 2 ^ 8 * len₁.toNat)
  | _ => []

/-- What the beginning of a stream holds. -/
def decode : List UInt8 → List UInt8
  | [] => []
  | c :: rest => if c = 0x79 then rest else decodeBlock rest

lemma encode_ne_nil (xs : List UInt8) : encode xs ≠ [] := by
  rw [encode]
  split <;> simp

lemma decode_encode (xs : List UInt8) : decode (encode xs) = xs := by
  rw [encode]
  split
  · next hlt =>
    have hlen : (UInt8.ofNat xs.length).toNat + 2 ^ 8 * (UInt8.ofNat (xs.length / 2 ^ 8)).toNat =
        xs.length := by
      simp only [UInt8.toNat_ofNat']
      omega
    simp only [le16, List.cons_append, List.nil_append, decode]
    rw [if_neg (by decide), decodeBlock, hlen, List.take_left]
  · rfl

lemma decodeBlock_mono (p more : List UInt8) : decodeBlock p <+: decodeBlock (p ++ more) := by
  fun_cases decodeBlock p with
  | case1 _ _ len₀ len₁ _ _ xs => exact (List.prefix_append xs more).take _
  | case2 => exact List.nil_prefix

/-- A longer beginning holds more. -/
lemma decode_mono {p q : List UInt8} (h : p <+: q) : decode p <+: decode q := by
  obtain ⟨more, rfl⟩ := h
  cases p with
  | nil => exact List.nil_prefix
  | cons c rest =>
    rw [List.cons_append, decode, decode]
    split
    · exact List.prefix_append rest more
    · exact decodeBlock_mono rest more

/-! ## The two calls -/

/-- A stream that is deflated: what it keeps, and after `Z_FINISH` what is still to be
written. -/
structure Deflate where
  held : List UInt8
  rest : Option (List UInt8)

/-- What there is to be written when `Z_FINISH` is used with the last of the input. -/
def Deflate.toWrite (st : Deflate) (input : List UInt8) : List UInt8 :=
  st.rest.getD (encode (st.held ++ input))

/-- `deflate`. -/
def deflate (st : Deflate) (input : List UInt8) (availOut : ℕ) (finish : Bool) : ZStep Deflate :=
  if finish then
    ⟨⟨st.held ++ input, some ((st.toWrite input).drop availOut)⟩, input.length,
      (st.toWrite input).take availOut,
      if (st.toWrite input).length ≤ availOut then .streamEnd else .ok⟩
  else ⟨⟨st.held ++ input, st.rest⟩, input.length, [], .ok⟩

lemma deflate_of_le {st : Deflate} {input : List UInt8} {availOut : ℕ}
    (h : (st.toWrite input).length ≤ availOut) : deflate st input availOut true =
      ⟨⟨st.held ++ input, some []⟩, input.length, st.toWrite input, .streamEnd⟩ := by
  rw [deflate, if_pos rfl, if_pos h, List.drop_of_length_le h, List.take_of_length_le h]

lemma deflate_of_lt {st : Deflate} {input : List UInt8} {availOut : ℕ}
    (h : availOut < (st.toWrite input).length) : deflate st input availOut true =
      ⟨⟨st.held ++ input, some ((st.toWrite input).drop availOut)⟩, input.length,
        (st.toWrite input).take availOut, .ok⟩ := by
  rw [deflate, if_pos rfl, if_neg (Nat.not_le.mpr h)]

/-- A stream that is inflated: what it has taken, and how much it has written. -/
structure Inflate where
  eaten : List UInt8
  given : ℕ

/-- `inflate`. -/
def inflate (st : Inflate) (input : List UInt8) (availOut : ℕ) : ZStep Inflate :=
  let eaten := st.eaten ++ input
  let out := ((decode eaten).drop st.given).take availOut
  ⟨⟨eaten, st.given + out.length⟩, input.length, out,
    if eaten = encode (decode eaten) ∧ st.given + out.length = (decode eaten).length
    then .streamEnd else .ok⟩

end Stored

/-- A zlib that stores. -/
def Zlib.stored : Zlib where
  Deflate := Stored.Deflate
  Inflate := Stored.Inflate
  deflateInit level := if -1 ≤ level ∧ level ≤ 9 then some ⟨[], none⟩ else none
  deflate := Stored.deflate
  inflateInit := ⟨[], 0⟩
  inflate := Stored.inflate
  deflate_consumed_le st input availOut finish := by
    unfold Stored.deflate
    split <;> exact le_rfl
  deflate_out_le st input availOut finish := by
    unfold Stored.deflate
    split
    · exact List.length_take_le _ _
    · exact Nat.zero_le _
  inflate_consumed_le _ _ _ := le_rfl
  inflate_out_le _ _ _ := List.length_take_le _ _

namespace Stored

/-! ## The contract -/

/-- What a stream that is deflated has come to. -/
def Keeps (st : Deflate) (taken written : List UInt8) (phase : Zlib.Phase) : Prop :=
  st.held = taken ∧ phase.rest = [] ∧
    match phase with
    | .feeding => st.rest = none ∧ written = []
    | .finishing _ => ∃ rest ≠ [], st.rest = some rest ∧ written ++ rest = encode taken
    | .ended => written = encode taken

/-- What there is to be written is what the stream lacks. -/
lemma Keeps.toWrite_spec {st : Deflate} {taken written input : List UInt8} {phase : Zlib.Phase}
    (h : Keeps st taken written phase) (hadmits : phase.Admits true input) :
    st.toWrite input ≠ [] ∧ written ++ st.toWrite input = encode (taken ++ input) := by
  obtain ⟨hheld, hphase, hkeeps⟩ := h
  rw [Deflate.toWrite]
  cases phase with
  | feeding =>
    obtain ⟨hrest, rfl⟩ := hkeeps
    rw [hrest, hheld]
    exact ⟨encode_ne_nil _, rfl⟩
  | finishing rest =>
    obtain ⟨rest', hne, hrest, hwritten⟩ := hkeeps
    obtain rfl : input = [] := hadmits.2.trans hphase
    rw [hrest, List.append_nil taken]
    exact ⟨hne, hwritten⟩
  | ended => exact hadmits.elim

lemma keeps_of_deflating {st : Zlib.stored.Deflate} {taken written : List UInt8}
    {phase : Zlib.Phase} (h : Zlib.Deflating .stored st taken written phase) :
    Keeps st taken written phase := by
  induction h with
  | @init level st hinit =>
    have hst : st = ⟨[], none⟩ := by
      simp only [Zlib.stored] at hinit
      split at hinit
      · exact (Option.some.inj hinit).symm
      · cases hinit
    rw [hst]
    exact ⟨rfl, rfl, rfl, rfl⟩
  | @call st taken written phase input availOut finish _ hadmits hpos ih =>
    change Keeps (deflate st input availOut finish).state
      (taken ++ input.take (deflate st input availOut finish).consumed)
      (written ++ (deflate st input availOut finish).out)
      (.after .stored finish input (deflate st input availOut finish))
    cases finish with
    | false =>
      cases phase with
      | feeding =>
        obtain ⟨hheld, -, hrest, rfl⟩ := ih
        simp [Keeps, deflate, Zlib.Phase.after, Zlib.Phase.rest, hheld, hrest]
      | finishing rest => exact absurd hadmits.1 (by decide)
      | ended => exact hadmits.elim
    | true =>
      obtain ⟨-, hwritten⟩ := ih.toWrite_spec hadmits
      have hheld := ih.1
      rcases Nat.lt_or_ge availOut (Deflate.toWrite st input).length with hlt | hle
      · rw [deflate_of_lt hlt]
        simp only [Zlib.Phase.after, if_true, reduceCtorEq, if_false, List.take_length,
          List.drop_length]
        refine ⟨congrArg (· ++ input) hheld, rfl, (Deflate.toWrite st input).drop availOut, ?_,
          rfl, ?_⟩
        · rw [Ne, List.drop_eq_nil_iff]
          omega
        · rw [List.append_assoc, List.take_append_drop, hwritten]
      · rw [deflate_of_le hle]
        simp only [Zlib.Phase.after, if_true, List.take_length]
        exact ⟨congrArg (· ++ input) hheld, rfl, hwritten⟩

/-- What a stream that is inflated has come to. -/
structure Gives (st : Inflate) (eaten given : List UInt8) : Prop where
  eaten_eq : st.eaten = eaten
  given_eq : st.given = given.length
  given_prefix : given <+: decode eaten

/-- A call goes on with what the stream holds. -/
lemma Gives.append_out {st : Inflate} {eaten given : List UInt8} (h : Gives st eaten given)
    (input : List UInt8) (availOut : ℕ) :
    given ++ (decode (eaten ++ input)).drop given.length = decode (eaten ++ input) ∧
      (inflate st input availOut).out =
          ((decode (eaten ++ input)).drop given.length).take availOut ∧
      given ++ (inflate st input availOut).out <+: decode (eaten ++ input) := by
  have hall : given ++ (decode (eaten ++ input)).drop given.length = decode (eaten ++ input) := by
    obtain ⟨more, hmore⟩ := h.given_prefix.trans (decode_mono (List.prefix_append eaten input))
    rw [← hmore, List.drop_left]
  have hout : (inflate st input availOut).out =
      ((decode (eaten ++ input)).drop given.length).take availOut := by
    simp only [inflate, h.eaten_eq, h.given_eq]
  refine ⟨hall, hout, ?_⟩
  rw [hout]
  nth_rewrite 2 [← hall]
  exact (List.prefix_append_right_inj given).mpr (List.take_prefix _ _)

lemma gives_of_inflating {st : Zlib.stored.Inflate} {eaten given : List UInt8}
    (h : Zlib.Inflating .stored st eaten given) : Gives st eaten given := by
  induction h with
  | init => exact ⟨rfl, rfl, List.nil_prefix⟩
  | @call st eaten given input availOut _ hpos ih =>
    obtain ⟨-, -, hbegins⟩ := ih.append_out input availOut
    have htake : input.take (inflate st input availOut).consumed = input := List.take_length
    change Gives (inflate st input availOut).state
      (eaten ++ input.take (inflate st input availOut).consumed)
      (given ++ (inflate st input availOut).out)
    rw [htake]
    refine ⟨congrArg (· ++ input) ih.eaten_eq, ?_, hbegins⟩
    rw [List.length_append, ← ih.given_eq]
    rfl

/-- The contract can be kept. -/
lemma contract : Zlib.stored.Contract where
  feed {st taken written phase input availOut} _ _ _ :=
    ⟨rfl, fun hlt => absurd hlt (lt_irrefl input.length)⟩
  finish {st taken written phase input availOut} hd hadmits hpos := by
    obtain ⟨hne, -⟩ := (keeps_of_deflating hd).toWrite_spec hadmits
    change (deflate st input availOut true).out ≠ [] ∧
      ((deflate st input availOut true).ret = .streamEnd ∧
          (deflate st input availOut true).consumed = input.length ∨
        (deflate st input availOut true).ret = .ok ∧
          (deflate st input availOut true).out.length = availOut)
    rcases Nat.lt_or_ge availOut (Deflate.toWrite st input).length with hlt | hle
    · have hlen : ((Deflate.toWrite st input).take availOut).length = availOut := by
        rw [List.length_take]
        omega
      rw [deflate_of_lt hlt]
      exact ⟨List.ne_nil_of_length_pos (hlen.symm ▸ hpos), Or.inr ⟨rfl, hlen⟩⟩
    · rw [deflate_of_le hle]
      exact ⟨hne, Or.inl ⟨rfl, rfl⟩⟩
  inflate {st taken written phase st' eaten given input availOut} hd hi hbegins hne hpos := by
    obtain ⟨-, hphase, hkeeps⟩ := keeps_of_deflating hd
    obtain ⟨hall, hout, hgiven⟩ := (gives_of_inflating hi).append_out input availOut
    have hwritten : written <+: encode taken := by
      cases phase with
      | feeding =>
        obtain ⟨-, rfl⟩ := hkeeps
        exact List.nil_prefix
      | finishing rest =>
        obtain ⟨rest', -, -, h⟩ := hkeeps
        exact ⟨rest', h⟩
      | ended => exact hkeeps ▸ List.prefix_rfl
    have hdecode : decode (eaten ++ input) <+: taken := by
      have h := decode_mono (hbegins.trans hwritten)
      rwa [decode_encode] at h
    change (inflate st' input availOut).ret ≠ .streamError ∧
      (inflate st' input availOut).ret ≠ .dataError ∧
      ((inflate st' input availOut).consumed < input.length →
        (inflate st' input availOut).out.length = availOut) ∧
      given ++ (inflate st' input availOut).out <+: taken ++ phase.rest ∧
      (phase = .ended → eaten ++ input.take (inflate st' input availOut).consumed = written →
        (inflate st' input availOut).out.length < availOut →
        given ++ (inflate st' input availOut).out = taken)
    refine ⟨?_, ?_, fun hlt => absurd hlt (lt_irrefl input.length), ?_, ?_⟩
    · simp only [inflate]
      split <;> decide
    · simp only [inflate]
      split <;> decide
    · rw [hphase, List.append_nil]
      exact hgiven.trans hdecode
    · rintro rfl hwhole hshort
      have htake : input.take (inflate st' input availOut).consumed = input := List.take_length
      have hlast : decode (eaten ++ input) = taken := by
        rw [← htake, hwhole, hkeeps, decode_encode]
      rw [hout, List.length_take] at hshort
      rw [hout, List.take_of_length_le (by omega), hall, hlast]

/-- So can that of `deflate`, and a stream that has ended is all there is of it. -/
lemma deflateContract : Zlib.stored.DeflateContract where
  toDeflateCalls := contract.deflateCalls
  whole := by
    rintro st taken written phase ⟨st', hended⟩ hd
    obtain ⟨-, -, hwhole⟩ := keeps_of_deflating hended
    obtain ⟨-, -, hkeeps⟩ := keeps_of_deflating hd
    cases phase with
    | feeding =>
      obtain ⟨-, rfl⟩ := hkeeps
      exact (encode_ne_nil taken hwhole.symm).elim
    | finishing _ =>
      obtain ⟨rest, hne, -, hrest⟩ := hkeeps
      rw [← hwhole] at hrest
      exact (hne (List.append_right_eq_self.mp hrest)).elim
    | ended => rfl

/-! ## An `inflate` that stops at the end -/

/-- How long the stream is of which these are the first bytes, once they say. -/
def wholeLength (eaten : List UInt8) : Option ℕ :=
  if 5 ≤ eaten.length then
    some (11 + ((eaten.getD 3 0).toNat + 2 ^ 8 * (eaten.getD 4 0).toNat))
  else none

lemma wholeLength_append {eaten : List UInt8} (h : 5 ≤ eaten.length) (more : List UInt8) :
    wholeLength (eaten ++ more) = wholeLength eaten := by
  have hlong : 5 ≤ (eaten ++ more).length := by
    rw [List.length_append]
    omega
  have h₃ : (eaten ++ more)[3]? = eaten[3]? := List.getElem?_append_left (by omega)
  have h₄ : (eaten ++ more)[4]? = eaten[4]? := List.getElem?_append_left (by omega)
  rw [wholeLength, wholeLength, if_pos h, if_pos hlong]
  simp only [List.getD_eq_getElem?_getD, h₃, h₄]

lemma five_le_of_wholeLength {eaten : List UInt8} {n : ℕ} (h : wholeLength eaten = some n) :
    5 ≤ eaten.length := by
  by_contra hshort
  rw [wholeLength, if_neg hshort] at h
  cases h

lemma eleven_le_of_wholeLength {eaten : List UInt8} {n : ℕ} (h : wholeLength eaten = some n) :
    11 ≤ n := by
  rw [wholeLength, if_pos (five_le_of_wholeLength h)] at h
  have := Option.some.inj h
  omega

/-- The whole stream has been taken, and all of it written. -/
def Inflate.atEnd (st : Inflate) : Bool :=
  (wholeLength st.eaten).any (fun n => decide (n ≤ st.eaten.length)) &&
    decide ((decode st.eaten).length ≤ st.given)

/-- `inflate`, which leaves the bytes behind the stream. -/
def inflateToEnd (st : Inflate) (input : List UInt8) (availOut : ℕ) : ZStep Inflate :=
  let whole := (wholeLength (st.eaten ++ input)).getD (st.eaten ++ input).length
  let step := inflate st (input.take (whole - st.eaten.length)) availOut
  { step with ret := if step.state.atEnd then .streamEnd else .ok }

end Stored

/-- A zlib that stores, and whose `inflate` stops at the end of a stream. -/
def Zlib.storedToEnd : Zlib :=
  { Zlib.stored with
    inflate := Stored.inflateToEnd
    inflate_consumed_le := fun _ _ _ => List.length_take_le' _ _
    inflate_out_le := fun _ _ _ => List.length_take_le _ _ }

namespace Stored

/-- At the end a call takes and writes nothing. -/
lemma inflateToEnd_of_atEnd {st : Inflate} (h : st.atEnd = true) (input : List UInt8)
    (availOut : ℕ) : inflateToEnd st input availOut = ⟨st, 0, [], .streamEnd⟩ := by
  obtain ⟨eaten, given⟩ := st
  simp only [Inflate.atEnd, Bool.and_eq_true, Option.any_eq_true, decide_eq_true_eq] at h
  obtain ⟨⟨n, hn, hle⟩, hgiven⟩ := h
  have hwhole : (wholeLength (eaten ++ input)).getD (eaten ++ input).length - eaten.length = 0 := by
    rw [wholeLength_append (five_le_of_wholeLength hn), hn, Option.getD_some]
    omega
  have hout : (decode eaten).drop given = [] := List.drop_of_length_le hgiven
  have hend : Inflate.atEnd ⟨eaten, given⟩ = true := by
    simp only [Inflate.atEnd, hn, Option.any_some, hle, hgiven, decide_true, Bool.and_self]
  simp only [inflateToEnd, inflate, hwhole, List.take_zero, List.append_nil, hout, List.take_nil,
    List.length_nil, Nat.add_zero, hend, if_true]

/-- A call that comes to nothing is one at the end. -/
lemma atEnd_of_stuck {st : Inflate} {input : List UInt8} {availOut : ℕ} (hne : input ≠ [])
    (hpos : 0 < availOut) (hconsumed : (inflateToEnd st input availOut).consumed = 0)
    (hout : (inflateToEnd st input availOut).out = []) : st.atEnd = true := by
  obtain ⟨eaten, given⟩ := st
  have hlen := List.length_pos_of_ne_nil hne
  have hwanted :
      (wholeLength (eaten ++ input)).getD (eaten ++ input).length - eaten.length = 0 := by
    change (input.take ((wholeLength (eaten ++ input)).getD (eaten ++ input).length -
      eaten.length)).length = 0 at hconsumed
    rw [List.length_take] at hconsumed
    omega
  cases hwhole : wholeLength (eaten ++ input) with
  | none =>
    rw [hwhole, Option.getD_none, List.length_append] at hwanted
    omega
  | some n =>
    have hn := eleven_le_of_wholeLength hwhole
    rw [hwhole, Option.getD_some] at hwanted
    rw [wholeLength_append (by omega)] at hwhole
    have hgiven : (decode eaten).length ≤ given := by
      change ((decode (eaten ++ input.take ((wholeLength (eaten ++ input)).getD
        (eaten ++ input).length - eaten.length))).drop given).take availOut = [] at hout
      rw [wholeLength_append (by omega), hwhole, Option.getD_some, hwanted, List.take_zero,
        List.append_nil, List.take_eq_nil_iff, List.drop_eq_nil_iff] at hout
      omega
    simp only [Inflate.atEnd, hwhole, Option.any_some, hgiven, decide_true, Bool.and_true,
      decide_eq_true_eq]
    omega

/-- The contract of an `inflate` on any input can be kept. -/
lemma inflateProgress : Zlib.storedToEnd.InflateProgress where
  progress {st eaten given input availOut} _ hne hpos := by
    change (inflateToEnd st input availOut).ret = _ ∨ (inflateToEnd st input availOut).ret = _ ∨
      0 < (inflateToEnd st input availOut).consumed ∨ (inflateToEnd st input availOut).out ≠ [] ∨
      (inflateToEnd st input availOut).ret = _
    by_cases hconsumed : 0 < (inflateToEnd st input availOut).consumed
    · exact Or.inr (Or.inr (Or.inl hconsumed))
    by_cases hout : (inflateToEnd st input availOut).out = []
    · have hend := atEnd_of_stuck hne hpos (Nat.eq_zero_of_not_pos hconsumed) hout
      rw [inflateToEnd_of_atEnd hend]
      simp
    · exact Or.inr (Or.inr (Or.inr (Or.inl hout)))
  ended {st eaten given input availOut} _ _ hret := by
    intro input' availOut' _
    change (inflateToEnd (inflateToEnd st input availOut).state input' availOut').ret = _ ∧
      (inflateToEnd (inflateToEnd st input availOut).state input' availOut').consumed = 0 ∧
      (inflateToEnd (inflateToEnd st input availOut).state input' availOut').out = []
    have hend : (inflateToEnd st input availOut).state.atEnd = true := by
      by_contra hend
      change (if (inflateToEnd st input availOut).state.atEnd = true then ZRet.streamEnd
        else ZRet.ok) = _ at hret
      rw [if_neg hend] at hret
      cases hret
    rw [inflateToEnd_of_atEnd hend]
    exact ⟨rfl, rfl, rfl⟩

end Stored

end OldPart
