import OldPart.Serializer.ZLib

/-!
# What zlib promises

`deflate` and `inflate` as their documentation describes them.  The promises are about
streams that are used as the interface allows, so they speak of the states a stream can get
into, together with the bytes it has taken and written on the way.

The second half is about zlib alone too: what `deflate` writes when it is given chunks and
buffers of one size, and what `inflate` makes of a stream in pieces.
-/

namespace OldPart

namespace Zlib

variable (z : Zlib)

/-! ## The contract -/

/-- How far a stream is that is being deflated. -/
inductive Phase where
  /-- No call with `Z_FINISH` yet. -/
  | feeding
  /-- There was one, and `rest` of the input is not taken. -/
  | finishing (rest : List UInt8)
  /-- `Z_STREAM_END` was returned. -/
  | ended

/-- The calls of `deflate` that are allowed: once `Z_FINISH` was used, only with it and with
what was left of the input. -/
def Phase.Admits (finish : Bool) (input : List UInt8) : Phase → Prop
  | feeding => finish = true ∨ input ≠ []
  | finishing rest => finish = true ∧ input = rest
  | ended => False

def Phase.rest : Phase → List UInt8
  | finishing rest => rest
  | _ => []

def Phase.after (finish : Bool) (input : List UInt8) (step : ZStep z.Deflate) : Phase :=
  if finish then
    if step.ret = .streamEnd then ended else finishing (input.drop step.consumed)
  else feeding

/-- The states a stream that is deflated can be in, with the input it has taken and the bytes
it has written. -/
inductive Deflating : z.Deflate → List UInt8 → List UInt8 → Phase → Prop
  | init {level : Int8} {st : z.Deflate} : z.deflateInit level = some st →
      Deflating st [] [] .feeding
  | call {st : z.Deflate} {taken written : List UInt8} {phase : Phase} (input : List UInt8)
      (availOut : ℕ) (finish : Bool) : Deflating st taken written phase →
      phase.Admits finish input → 0 < availOut →
      Deflating (z.deflate st input availOut finish).state
        (taken ++ input.take (z.deflate st input availOut finish).consumed)
        (written ++ (z.deflate st input availOut finish).out)
        (.after z finish input (z.deflate st input availOut finish))

/-- The states a stream that is inflated can be in, with the input it has taken and the bytes
it has written. -/
inductive Inflating : z.Inflate → List UInt8 → List UInt8 → Prop
  | init : Inflating z.inflateInit [] []
  | call {st : z.Inflate} {taken written : List UInt8} (input : List UInt8) (availOut : ℕ) :
      Inflating st taken written → 0 < availOut →
      Inflating (z.inflate st input availOut).state
        (taken ++ input.take (z.inflate st input availOut).consumed)
        (written ++ (z.inflate st input availOut).out)

structure Contract : Prop where
  /-- `Z_NO_FLUSH` leaves input only when the output is full. -/
  feed : ∀ {st taken written phase input availOut}, Deflating z st taken written phase →
    phase.Admits false input → 0 < availOut →
    (z.deflate st input availOut false).ret = .ok ∧
      ((z.deflate st input availOut false).consumed < input.length →
        (z.deflate st input availOut false).out.length = availOut)
  /-- `Z_FINISH` returns `Z_STREAM_END` when everything is taken and written, and otherwise
  `Z_OK` with the output full; either way it has written something. -/
  finish : ∀ {st taken written phase input availOut}, Deflating z st taken written phase →
    phase.Admits true input → 0 < availOut →
    (z.deflate st input availOut true).out ≠ [] ∧
      ((z.deflate st input availOut true).ret = .streamEnd ∧
          (z.deflate st input availOut true).consumed = input.length ∨
        (z.deflate st input availOut true).ret = .ok ∧
          (z.deflate st input availOut true).out.length = availOut)
  /-- A stream that was deflated inflates to what was taken, in order, however it is cut: at
  no point to anything else, and to all of it once the whole stream is taken and the output is
  not full. -/
  inflate : ∀ {st taken written phase st' eaten given input availOut},
    Deflating z st taken written phase → Inflating z st' eaten given →
    eaten ++ input <+: written → input ≠ [] → 0 < availOut →
    (z.inflate st' input availOut).ret ≠ .streamError ∧
      (z.inflate st' input availOut).ret ≠ .dataError ∧
      ((z.inflate st' input availOut).consumed < input.length →
        (z.inflate st' input availOut).out.length = availOut) ∧
      given ++ (z.inflate st' input availOut).out <+: taken ++ phase.rest ∧
      (phase = .ended → eaten ++ input.take (z.inflate st' input availOut).consumed = written →
        (z.inflate st' input availOut).out.length < availOut →
        given ++ (z.inflate st' input availOut).out = taken)

/-- What `deflate` promises about a call that is allowed. -/
structure DeflateCalls : Prop where
  feed : ∀ {st taken written phase input availOut}, Deflating z st taken written phase →
    phase.Admits false input → 0 < availOut →
    (z.deflate st input availOut false).ret ≠ .streamError
  /-- `Z_FINISH` returns `Z_STREAM_END` when everything is taken and written, and otherwise
  `Z_OK` with the output full; either way it has written something. -/
  finish : ∀ {st taken written phase input availOut}, Deflating z st taken written phase →
    phase.Admits true input → 0 < availOut →
    (z.deflate st input availOut true).out ≠ [] ∧
      ((z.deflate st input availOut true).ret = .streamEnd ∧
          (z.deflate st input availOut true).consumed = input.length ∨
        (z.deflate st input availOut true).ret = .ok ∧
          (z.deflate st input availOut true).out.length = availOut)

variable {z} in
lemma Contract.deflateCalls (hz : z.Contract) : z.DeflateCalls where
  feed hd hadmits hpos := by
    rw [(hz.feed hd hadmits hpos).1]
    decide
  finish := hz.finish

/-- All that `deflate` writes of some input. -/
def Whole (taken written : List UInt8) : Prop := ∃ st, Deflating z st taken written .ended

structure DeflateContract : Prop extends DeflateCalls z where
  /-- A whole stream of some input is not the beginning of another one. -/
  whole : ∀ {st taken written phase}, z.Whole taken written →
    Deflating z st taken written phase → phase = .ended

/-- The contract of `inflate` on any input: until the end of the stream a call gets on or
reports an error, and behind it a call takes and writes nothing. -/
structure InflateProgress : Prop where
  progress : ∀ {st eaten given input availOut}, Inflating z st eaten given → input ≠ [] →
    0 < availOut →
    (z.inflate st input availOut).ret = .streamError ∨
      (z.inflate st input availOut).ret = .dataError ∨
      0 < (z.inflate st input availOut).consumed ∨ (z.inflate st input availOut).out ≠ [] ∨
      (z.inflate st input availOut).ret = .streamEnd
  ended : ∀ {st eaten given input availOut}, Inflating z st eaten given → 0 < availOut →
    (z.inflate st input availOut).ret = .streamEnd → ∀ input' availOut', 0 < availOut' →
    (z.inflate (z.inflate st input availOut).state input' availOut').ret = .streamEnd ∧
      (z.inflate (z.inflate st input availOut).state input' availOut').consumed = 0 ∧
      (z.inflate (z.inflate st input availOut).state input' availOut').out = []

/-! ## Deflating into buffers of one size -/

variable {z} in
/-- A stream that is deflated into buffers: the room left in the current one, and what was
written so far. -/
structure Filling (z : Zlib) where
  strm : z.Deflate
  room : ℕ
  written : List UInt8

namespace Filling

variable {z} (size : ℕ)

def call (f : Filling z) (input : List UInt8) (finish : Bool) : Filling z :=
  let step := z.deflate f.strm input f.room finish
  ⟨step.state, f.room - step.out.length, f.written ++ step.out⟩

/-- A new buffer when the current one is full. -/
def renew (f : Filling z) : Filling z := if f.room = 0 then { f with room := size } else f

/-- Give it a chunk, call by call; when the last one is taken and the stream has not ended,
one more buffer.  There is no result when a call takes nothing of the chunk. -/
def chunk (last : Bool) : (turns : ℕ) → List UInt8 → Filling z → Option (Filling z)
  | _, [], f => some f
  | 0, _ :: _, _ => none
  | turns + 1, c :: cs, f =>
      let step := z.deflate f.strm (c :: cs) f.room last
      let rest := (c :: cs).drop step.consumed
      if step.consumed = 0 then none
      else if last && rest.isEmpty then
        if step.ret = .streamEnd then some (f.call (c :: cs) last)
        else some ({ f.call (c :: cs) last with room := size }.call [] true)
      else chunk last turns rest ((f.call (c :: cs) last).renew size)

def chunks : List (List UInt8 × Bool) → Filling z → Option (Filling z)
  | [], f => some f
  | (x, last) :: rest, f => (f.chunk size last x.length x).bind (chunks rest)

end Filling

/-- What `deflate` writes into buffers of one size.  There is nothing when the level is
refused, or when a call takes nothing of a chunk. -/
def deflated (size : ℕ) (level : Int8) (xs : List (List UInt8 × Bool)) : Option (List UInt8) :=
  (z.deflateInit level).bind fun strm =>
    (Filling.chunks size xs ⟨strm, size, []⟩).map Filling.written

/-! ## Inflating into buffers of one size -/

/-- What `inflate` makes of a piece, buffer by buffer, in at most `turns` calls. -/
def inflatePiece (size : ℕ) : (turns : ℕ) → z.Inflate → List UInt8 →
    Option (List (List UInt8) × z.Inflate)
  | _, st, [] => some ([], st)
  | 0, _, _ :: _ => none
  | turns + 1, st, c :: cs =>
      let step := z.inflate st (c :: cs) size
      if step.ret = .streamError ∨ step.ret = .dataError then none
      else (inflatePiece size turns step.state ((c :: cs).drop step.consumed)).map
        fun (ys, st) => (step.out :: ys, st)

def inflatePieces (size turns : ℕ) : z.Inflate → List (List UInt8) → Option (List (List UInt8))
  | _, [] => some []
  | st, x :: xs => (z.inflatePiece size turns st x).bind fun (ys, st) =>
      (inflatePieces size turns st xs).map fun zs => ys ++ zs

/-- A new stream that is given the pieces `xs` writes the buffers `ys`. -/
def Inflates (size : ℕ) (xs ys : List (List UInt8)) : Prop :=
  ∃ turns, z.inflatePieces size turns z.inflateInit xs = some ys

section Inflating

variable {z} {size turns : ℕ}

lemma inflatePiece_mono {turns' : ℕ} (hle : turns ≤ turns') {st : z.Inflate} {x : List UInt8}
    {r : List (List UInt8) × z.Inflate} (h : z.inflatePiece size turns st x = some r) :
    z.inflatePiece size turns' st x = some r := by
  induction turns generalizing turns' st x r with
  | zero =>
    cases x with
    | nil =>
      rw [inflatePiece] at h ⊢
      exact h
    | cons c cs => cases h
  | succ turns ih =>
    cases x with
    | nil =>
      rw [inflatePiece] at h ⊢
      exact h
    | cons c cs =>
      obtain ⟨turns', rfl⟩ := Nat.exists_eq_add_of_le' (Nat.one_le_of_lt hle)
      rw [inflatePiece] at h ⊢
      split at h
      · cases h
      · next hret =>
        obtain ⟨r', hrest, hr⟩ := Option.map_eq_some_iff.mp h
        rw [if_neg hret, ih (Nat.le_of_succ_le_succ hle) hrest, Option.map_some, hr]

lemma inflatePieces_mono {turns' : ℕ} (hle : turns ≤ turns') {st : z.Inflate}
    {xs ys : List (List UInt8)} (h : z.inflatePieces size turns st xs = some ys) :
    z.inflatePieces size turns' st xs = some ys := by
  induction xs generalizing st ys with
  | nil => exact h
  | cons x xs ih =>
    rw [inflatePieces] at h ⊢
    obtain ⟨⟨zs, st₁⟩, hpiece, hrest⟩ := Option.bind_eq_some_iff.mp h
    obtain ⟨ys', hys', rfl⟩ := Option.map_eq_some_iff.mp hrest
    rw [inflatePiece_mono hle hpiece, Option.bind_some]
    exact Option.map_eq_some_iff.mpr ⟨ys', ih hys', rfl⟩

variable {st : z.Deflate} {taken written : List UInt8} {phase : Phase}

/-- Inflating a piece of what was deflated goes on with what was deflated. -/
lemma Contract.inflatePiece_spec (hz : z.Contract) (hsize : 0 < size)
    (hd : Deflating z st taken written phase) {st' st'' : z.Inflate} {eaten given x : List UInt8}
    {ys : List (List UInt8)} (hi : Inflating z st' eaten given) (hx : eaten ++ x <+: written)
    (hgiven : given <+: taken ++ phase.rest)
    (h : z.inflatePiece size turns st' x = some (ys, st'')) :
    Inflating z st'' (eaten ++ x) (given ++ ys.flatten) ∧
      given ++ ys.flatten <+: taken ++ phase.rest := by
  induction turns generalizing st' eaten given x ys with
  | zero =>
    cases x with
    | nil =>
      obtain ⟨rfl, rfl⟩ := Prod.mk.inj (Option.some.inj h)
      simpa using ⟨hi, hgiven⟩
    | cons c cs => cases h
  | succ turns ih =>
    cases x with
    | nil =>
      obtain ⟨rfl, rfl⟩ := Prod.mk.inj (Option.some.inj h)
      simpa using ⟨hi, hgiven⟩
    | cons c cs =>
      rw [inflatePiece] at h
      split at h
      · cases h
      · obtain ⟨⟨ys', st₁⟩, hrest, hr⟩ := Option.map_eq_some_iff.mp h
        obtain ⟨rfl, rfl⟩ := Prod.mk.inj hr
        obtain ⟨-, -, -, hbegins, -⟩ := hz.inflate hd hi hx (by simp) hsize
        have hsplit : eaten ++ (c :: cs).take (z.inflate st' (c :: cs) size).consumed ++
            (c :: cs).drop (z.inflate st' (c :: cs) size).consumed = eaten ++ c :: cs := by
          rw [List.append_assoc, List.take_append_drop]
        have hrec := ih (hi.call (c :: cs) size hsize) (hsplit.symm ▸ hx) hbegins hrest
        rwa [hsplit, List.append_assoc, ← List.flatten_cons] at hrec

lemma Contract.inflatePieces_prefix (hz : z.Contract) (hsize : 0 < size)
    (hd : Deflating z st taken written phase) {st' : z.Inflate} {eaten given : List UInt8}
    {xs ys : List (List UInt8)} (hi : Inflating z st' eaten given)
    (hxs : eaten ++ xs.flatten <+: written) (hgiven : given <+: taken ++ phase.rest)
    (h : z.inflatePieces size turns st' xs = some ys) :
    given ++ ys.flatten <+: taken ++ phase.rest := by
  induction xs generalizing st' eaten given ys with
  | nil =>
    obtain rfl := Option.some.inj h
    simpa using hgiven
  | cons x xs ih =>
    rw [inflatePieces] at h
    obtain ⟨⟨zs, st₁⟩, hpiece, hrest⟩ := Option.bind_eq_some_iff.mp h
    obtain ⟨ys', hys', rfl⟩ := Option.map_eq_some_iff.mp hrest
    rw [List.flatten_cons, ← List.append_assoc] at hxs
    obtain ⟨hi₁, hgiven₁⟩ :=
      hz.inflatePiece_spec hsize hd hi ((List.prefix_append _ _).trans hxs) hgiven hpiece
    have hrec := ih hi₁ hxs hgiven₁ hys'
    rwa [List.append_assoc, ← List.flatten_append] at hrec

/-- What comes out of pieces of a deflated stream is the beginning of what was deflated. -/
lemma Contract.inflates_prefix (hz : z.Contract) (hsize : 0 < size)
    (hd : Deflating z st taken written phase) {xs ys : List (List UInt8)}
    (hxs : xs.flatten <+: written) (h : z.Inflates size xs ys) :
    ys.flatten <+: taken ++ phase.rest := by
  obtain ⟨turns, hturns⟩ := h
  exact hz.inflatePieces_prefix hsize hd .init hxs (List.nil_prefix) hturns

/-- A call that leaves input fills its buffer, so `inflate` gets through every piece. -/
lemma Contract.exists_inflatePiece (hz : z.Contract) (hsize : 0 < size)
    (hd : Deflating z st taken written phase) {st' : z.Inflate} {eaten given x : List UInt8}
    (hi : Inflating z st' eaten given) (hx : eaten ++ x <+: written) :
    ∃ turns r, z.inflatePiece size turns st' x = some r := by
  induction hfuel : (taken ++ phase.rest).length - given.length using Nat.strong_induction_on
    generalizing st' eaten given x with
  | _ fuel ih =>
    cases x with
    | nil => exact ⟨0, _, by rw [inflatePiece]⟩
    | cons c cs =>
      obtain ⟨hstream, hdata, hfull, hbegins, -⟩ := hz.inflate hd hi hx (by simp) hsize
      have hret : ¬((z.inflate st' (c :: cs) size).ret = .streamError ∨
          (z.inflate st' (c :: cs) size).ret = .dataError) := by simp [hstream, hdata]
      have hsplit : eaten ++ (c :: cs).take (z.inflate st' (c :: cs) size).consumed ++
          (c :: cs).drop (z.inflate st' (c :: cs) size).consumed = eaten ++ c :: cs := by
        rw [List.append_assoc, List.take_append_drop]
      have hmore : ∃ turns r, z.inflatePiece size turns (z.inflate st' (c :: cs) size).state
          ((c :: cs).drop (z.inflate st' (c :: cs) size).consumed) = some r := by
        rcases (z.inflate_consumed_le st' (c :: cs) size).lt_or_eq with hlt | heq
        · have hgrows : (given ++ (z.inflate st' (c :: cs) size).out).length =
              given.length + size := by rw [List.length_append, hfull hlt]
          have hle := hbegins.length_le
          exact ih _ (by omega) (hi.call (c :: cs) size hsize) (hsplit.symm ▸ hx) rfl
        · rw [heq, List.drop_length]
          exact ⟨0, _, by rw [inflatePiece]⟩
      obtain ⟨turns, r, hr⟩ := hmore
      exact ⟨turns + 1, _, by rw [inflatePiece, if_neg hret, hr, Option.map_some]⟩

lemma Contract.exists_inflatePieces (hz : z.Contract) (hsize : 0 < size)
    (hd : Deflating z st taken written phase) {st' : z.Inflate} {eaten given : List UInt8}
    {xs : List (List UInt8)} (hi : Inflating z st' eaten given)
    (hxs : eaten ++ xs.flatten <+: written) (hgiven : given <+: taken ++ phase.rest) :
    ∃ turns ys, z.inflatePieces size turns st' xs = some ys := by
  induction xs generalizing st' eaten given with
  | nil => exact ⟨0, [], rfl⟩
  | cons x xs ih =>
    rw [List.flatten_cons, ← List.append_assoc] at hxs
    have hx := (List.prefix_append _ _).trans hxs
    obtain ⟨turns₁, ⟨zs, st₁⟩, hpiece⟩ := hz.exists_inflatePiece hsize hd hi hx
    obtain ⟨hi₁, hgiven₁⟩ := hz.inflatePiece_spec hsize hd hi hx hgiven hpiece
    obtain ⟨turns₂, ys, hys⟩ := ih hi₁ hxs hgiven₁
    refine ⟨max turns₁ turns₂, zs ++ ys, ?_⟩
    rw [inflatePieces, inflatePiece_mono (le_max_left _ _) hpiece, Option.bind_some]
    exact Option.map_eq_some_iff.mpr ⟨ys, inflatePieces_mono (le_max_right _ _) hys, rfl⟩

lemma Contract.exists_inflates (hz : z.Contract) (hsize : 0 < size)
    (hd : Deflating z st taken written phase) {xs : List (List UInt8)}
    (hxs : xs.flatten <+: written) : ∃ ys, z.Inflates size xs ys := by
  obtain ⟨turns, ys, hys⟩ := hz.exists_inflatePieces hsize hd .init hxs List.nil_prefix
  exact ⟨ys, turns, hys⟩

end Inflating

end Zlib

end OldPart
