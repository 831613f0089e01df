import OldPart.Opc.Wildcard

/-!
# What a wildcard string finds

The replacements together put a backslash in front of each special character, and a `.` or `.*` for
each wildcard.  They forget `{`, which begins a quantifier.  And where `$` matches in front of a
line break too, what is found need not reach the end of the text.
-/

namespace OldPart

/-! ## The replacements -/

/-- The characters that get a backslash. -/
def escapedCharacters : Str := [47, 63, 43, 42, 93, 91, 41, 40, 124, 36, 46, 94, 92]

/-- A character, behind a backslash when it is one of some. -/
def escapeOf (cs : Str) (c : UInt8) : Str := if c ∈ cs then [92, c] else [c]

lemma escapedCharacters_punct {x : UInt8} (hx : x ∈ escapedCharacters) :
    isPunct x = true ∧ x ≠ 123 := by
  have hall : escapedCharacters.all (fun x => isPunct x && x != 123) = true := by decide
  have hone := List.all_eq_true.mp hall x hx
  rwa [Bool.and_eq_true, bne_iff_ne] at hone

lemma syntaxCharacters_escaped {x : UInt8} (hx : x ∈ syntaxCharacters) :
    x = 123 ∨ x ∈ escapedCharacters := by
  have hall : syntaxCharacters.all (fun x => decide (x = 123 ∨ x ∈ escapedCharacters)) = true := by
    decide
  exact of_decide_eq_true (List.all_eq_true.mp hall x hx)

/-- What becomes of a character of a wildcard string. -/
def wildcardToken (c : UInt8) : Str :=
  if c = 63 then [46] else if c = 42 then [46, 42] else escapeOf escapedCharacters c

/-- One more character gets a backslash. -/
lemma replaceAll_escapeOf {cs : Str} {x : UInt8} (hbackslash : 92 ∈ cs) (hx : x ∉ cs) (w : Str) :
    Text.replaceAll [x] [92, x] (w.flatMap (escapeOf cs)) = w.flatMap (escapeOf (x :: cs)) := by
  rw [Text.replaceAll_singleton, List.flatMap_assoc]
  congr 1
  funext c
  have hne : (92 : UInt8) ≠ x := fun h => hx (h ▸ hbackslash)
  by_cases hc : c ∈ cs
  · have hcx : c ≠ x := fun h => hx (h ▸ hc)
    simp [escapeOf, hc, hne, hcx]
  · by_cases hcx : c = x
    · simp [escapeOf, hcx, hx]
    · simp [escapeOf, hc, hcx]

/-- A backslash and a character that only comes behind one. -/
lemma replaceAll_backslash {f : UInt8 → Str} {x : UInt8} (hx : x ≠ 92)
    (hf : ∀ c, (∃ y, f c = [y] ∧ y ≠ 92 ∧ y ≠ x) ∨ ∃ y, f c = [92, y]) (new w : Str) :
    Text.replaceAll [92, x] new (w.flatMap f) =
      w.flatMap fun c => if f c = [92, x] then new else f c := by
  have htokens : ∀ t ∈ w.map f, (∃ y, t = [y] ∧ y ≠ 92 ∧ y ≠ x) ∨ ∃ y, t = [92, y] := by
    intro t ht
    obtain ⟨c, -, rfl⟩ := List.mem_map.mp ht
    exact hf c
  have h := Text.replaceAll_pair new hx htokens
  rw [List.map_map] at h
  exact h

/-- What `escapeOf` makes of a character, as the replacements of two characters see it. -/
lemma escapeOf_cases (c x : UInt8) (hx : x ∈ escapedCharacters) :
    (∃ y, escapeOf escapedCharacters c = [y] ∧ y ≠ 92 ∧ y ≠ x) ∨
      ∃ y, escapeOf escapedCharacters c = [92, y] := by
  by_cases hc : c ∈ escapedCharacters
  · exact Or.inr ⟨c, if_pos hc⟩
  · refine Or.inl ⟨c, if_neg hc, ?_, ?_⟩
    · rintro rfl
      exact hc (by decide)
    · rintro rfl
      exact hc hx

lemma escapeOf_eq_iff {c x : UInt8} (hx : x ∈ escapedCharacters) :
    escapeOf escapedCharacters c = [92, x] ↔ c = x := by
  constructor
  · intro h
    by_cases hc : c ∈ escapedCharacters
    · rw [escapeOf, if_pos hc] at h
      exact (List.cons.inj (List.cons.inj h).2).1
    · rw [escapeOf, if_neg hc] at h
      cases h
  · rintro rfl
    exact if_pos hx

/-- The replacements exchange each character for itself. -/
lemma wildcardText_eq (w : Str) : wildcardText w = w.flatMap wildcardToken ++ [36] := by
  have hfirst : Text.replaceAll [92] [92, 92] w = w.flatMap (escapeOf [92]) := by
    rw [Text.replaceAll_singleton]
    congr 1
    funext c
    by_cases hc : c = 92
    · simp [escapeOf, hc]
    · simp [escapeOf, hc]
  rw [wildcardText, hfirst]
  rw [replaceAll_escapeOf (by decide) (by decide), replaceAll_escapeOf (by decide) (by decide),
    replaceAll_escapeOf (by decide) (by decide), replaceAll_escapeOf (by decide) (by decide),
    replaceAll_escapeOf (by decide) (by decide), replaceAll_escapeOf (by decide) (by decide),
    replaceAll_escapeOf (by decide) (by decide), replaceAll_escapeOf (by decide) (by decide),
    replaceAll_escapeOf (by decide) (by decide), replaceAll_escapeOf (by decide) (by decide),
    replaceAll_escapeOf (by decide) (by decide), replaceAll_escapeOf (by decide) (by decide)]
  show Text.replaceAll [92, 42] [46, 42] (Text.replaceAll [92, 63] [46]
    (w.flatMap (escapeOf escapedCharacters))) ++ [36] = _
  have hquestion : ∀ c, (if escapeOf escapedCharacters c = [92, 63] then [46]
      else escapeOf escapedCharacters c) = if c = 63 then [46] else escapeOf escapedCharacters c :=
    fun c => if_congr (escapeOf_eq_iff (by decide)) rfl rfl
  rw [replaceAll_backslash (by decide) fun c => escapeOf_cases c 63 (by decide)]
  simp only [hquestion]
  rw [replaceAll_backslash (by decide) fun c => ?_]
  · congr 2
    funext c
    rw [wildcardToken]
    by_cases hc : c = 63
    · rw [if_pos hc, if_neg (by decide), if_pos hc]
    · rw [if_neg hc, if_neg hc]
      exact if_congr (escapeOf_eq_iff (by decide)) rfl rfl
  · by_cases hc : c = 63
    · exact Or.inl ⟨46, if_pos hc, by decide, by decide⟩
    · rw [if_neg hc]
      exact escapeOf_cases c 42 (by decide)

/-- What a character becomes. -/
lemma wildcardToken_cases (c : UInt8) :
    c = 63 ∧ wildcardToken c = [46] ∨ c = 42 ∧ wildcardToken c = [46, 42] ∨
      (c ∈ escapedCharacters ∧ c ≠ 63 ∧ c ≠ 42) ∧ wildcardToken c = [92, c] ∨
      c ∉ escapedCharacters ∧ wildcardToken c = [c] := by
  rw [wildcardToken]
  by_cases hquestion : c = 63
  · exact Or.inl ⟨hquestion, if_pos hquestion⟩
  · by_cases hstar : c = 42
    · exact Or.inr (Or.inl ⟨hstar, by rw [if_neg hquestion, if_pos hstar]⟩)
    · rw [if_neg hquestion, if_neg hstar, escapeOf]
      by_cases hc : c ∈ escapedCharacters
      · exact Or.inr (Or.inr (Or.inl ⟨⟨hc, hquestion, hstar⟩, if_pos hc⟩))
      · exact Or.inr (Or.inr (Or.inr ⟨hc, if_neg hc⟩))

/-! ## Reading what they make -/

/-- The next character is no quantifier. -/
lemma readQuantifier_of_head {rest : Str} (hhead : ∀ c ∈ rest.head?, c ≠ 42 ∧ c ≠ 123) :
    readQuantifier rest = some ((1, some 1), rest) := by
  cases rest with
  | nil => rfl
  | cons c rest =>
    obtain ⟨hstar, hbrace⟩ := hhead c rfl
    rw [readQuantifier]
    · exact fun _ h => hstar (List.cons.inj h).1
    · exact fun _ h => hbrace (List.cons.inj h).1

/-- What a wildcard string without `{` becomes does not begin with a quantifier. -/
lemma head?_wildcard {w : Str} (hw : (123 : UInt8) ∉ w) :
    ∀ c ∈ (w.flatMap wildcardToken).head?, c ≠ 42 ∧ c ≠ 123 := by
  cases w with
  | nil => exact fun _ h => nomatch h
  | cons c w =>
    have hne : c ≠ 123 := fun h => hw (h ▸ List.mem_cons_self)
    have htoken : ∃ x rest, wildcardToken c = x :: rest ∧ x ≠ 42 ∧ x ≠ 123 := by
      obtain ⟨-, h⟩ | ⟨-, h⟩ | ⟨-, h⟩ | ⟨hc, h⟩ := wildcardToken_cases c
      · exact ⟨46, [], h, by decide⟩
      · exact ⟨46, [42], h, by decide⟩
      · exact ⟨92, [c], h, by decide⟩
      · exact ⟨c, [], h, fun hstar => hc (hstar ▸ by decide), hne⟩
    obtain ⟨x, rest, h, hx⟩ := htoken
    intro b hb
    rw [List.flatMap_cons, h] at hb
    obtain rfl : x = b := Option.some.inj hb
    exact hx

/-- One atom with its quantifier. -/
lemma readPieces_succ {length : ℕ} {text rest rest' : Str} {atom : Pattern.Atom UInt8} {least : ℕ}
    {most : Option ℕ} (hatom : readAtom text = some (atom, rest))
    (hquantifier : readQuantifier rest = some ((least, most), rest')) :
    readPieces (length + 1) text =
      (readPieces length rest').map fun pieces => ⟨atom, least, most⟩ :: pieces := by
  cases text with
  | nil => cases hatom
  | cons c text =>
    rw [readPieces, hatom, Option.bind_some]
    dsimp only
    rw [hquantifier, Option.bind_some]

/-- A character that stands for itself is read as that. -/
lemma readAtom_self {c : UInt8} (hc : c ∉ escapedCharacters) (hbrace : c ≠ 123) (rest : Str) :
    readAtom (c :: rest) = some (.item c, rest) := by
  have hne : ∀ x ∈ escapedCharacters, c ≠ x := fun x hx h => hc (h ▸ hx)
  have hspecial : c ∉ syntaxCharacters := by
    intro h
    exact (syntaxCharacters_escaped h).elim hbrace hc
  rw [readAtom, if_neg hspecial]
  · exact fun h _ => hne 92 (by decide) h
  · exact fun _ _ h _ => hne 92 (by decide) h
  · exact hne 46 (by decide)

/-- Each character of a wildcard string without `{` is read as what it stands for. -/
lemma readPieces_wildcard {w : Str} (hw : (123 : UInt8) ∉ w) {length : ℕ}
    (hlength : w.length ≤ length) :
    readPieces length (w.flatMap wildcardToken) = some (w.map wildcardPiece) := by
  induction w generalizing length with
  | nil => cases length <;> rfl
  | cons c w ih =>
    have hne : c ≠ 123 := fun h => hw (h ▸ List.mem_cons_self)
    have hrest : (123 : UInt8) ∉ w := fun h => hw (List.mem_cons_of_mem _ h)
    have hone := readQuantifier_of_head (head?_wildcard hrest)
    obtain ⟨length, rfl⟩ : ∃ n, length = n + 1 :=
      ⟨length - 1, by rw [List.length_cons] at hlength; omega⟩
    have hnext := ih hrest (Nat.le_of_succ_le_succ hlength)
    rw [List.flatMap_cons, List.map_cons]
    obtain ⟨rfl, h⟩ | ⟨rfl, h⟩ | ⟨⟨hc, hquestion, hstar⟩, h⟩ | ⟨hc, h⟩ := wildcardToken_cases c
    · have hatom : readAtom ([46] ++ w.flatMap wildcardToken) =
          some (.any, w.flatMap wildcardToken) := rfl
      rw [h, readPieces_succ hatom hone, hnext]
      rfl
    · have hatom : readAtom ([46, 42] ++ w.flatMap wildcardToken) =
          some (.any, 42 :: w.flatMap wildcardToken) := rfl
      have hall : readQuantifier (42 :: w.flatMap wildcardToken) =
          some ((0, none), w.flatMap wildcardToken) := rfl
      rw [h, readPieces_succ hatom hall, hnext]
      rfl
    · have hatom : readAtom ([92, c] ++ w.flatMap wildcardToken) =
          some (.item c, w.flatMap wildcardToken) := if_pos (escapedCharacters_punct hc).1
      rw [h, readPieces_succ hatom hone, hnext, wildcardPiece, if_neg hquestion, if_neg hstar]
      rfl
    · have hself := readAtom_self hc hne (w.flatMap wildcardToken)
      have hquestion : c ≠ 63 := fun heq => hc (heq ▸ by decide)
      have hstar : c ≠ 42 := fun heq => hc (heq ▸ by decide)
      rw [h, List.singleton_append, readPieces_succ hself hone, hnext, wildcardPiece,
        if_neg hquestion, if_neg hstar]
      rfl

lemma length_le_wildcard (w : Str) : w.length ≤ (w.flatMap wildcardToken).length := by
  induction w with
  | nil => exact Nat.le_refl _
  | cons c w ih =>
    have hpos : 0 < (wildcardToken c).length := by
      obtain ⟨-, h⟩ | ⟨-, h⟩ | ⟨-, h⟩ | ⟨-, h⟩ := wildcardToken_cases c <;>
        exact h ▸ Nat.succ_pos _
    rw [List.flatMap_cons, List.length_append, List.length_cons]
    omega

/-! ## A brace -/

/-- A text in which a backslash stands in front of a character that belongs to it, and that is not
`{`. -/
inductive Escaped : Str → Prop
  | nil : Escaped []
  | char {c : UInt8} {rest : Str} (hc : c ≠ 92) (hrest : Escaped rest) : Escaped (c :: rest)
  | pair {c : UInt8} {rest : Str} (hc : c ≠ 123) (hrest : Escaped rest) : Escaped (92 :: c :: rest)

lemma Escaped.tail {c : UInt8} {rest : Str} (h : Escaped (c :: rest)) (hc : c ≠ 92) :
    Escaped rest := by
  cases h with
  | char _ hrest => exact hrest
  | pair => exact (hc rfl).elim

lemma escaped_wildcard (w : Str) : Escaped (w.flatMap wildcardToken) := by
  induction w with
  | nil => exact .nil
  | cons c w ih =>
    rw [List.flatMap_cons]
    obtain ⟨-, h⟩ | ⟨-, h⟩ | ⟨⟨hc, -, -⟩, h⟩ | ⟨hc, h⟩ := wildcardToken_cases c
    · rw [h]
      exact .char (by decide) ih
    · rw [h]
      exact .char (by decide) (.char (by decide) ih)
    · rw [h]
      exact .pair (escapedCharacters_punct hc).2 ih
    · rw [h]
      exact .char (fun heq => hc (heq ▸ by decide)) ih

lemma Escaped.of_readAtom {text rest : Str} {atom : Pattern.Atom UInt8} (h : Escaped text)
    (hread : readAtom text = some (atom, rest)) : Escaped rest ∧ atom ≠ .item 123 := by
  cases h with
  | nil => cases hread
  | @char c rest' hc hrest =>
    by_cases hdot : c = 46
    · subst hdot
      obtain ⟨rfl, rfl⟩ := Prod.mk.inj (Option.some.inj hread)
      exact ⟨hrest, fun heq => nomatch heq⟩
    · rw [readAtom] at hread
      · obtain ⟨hspecial, hread⟩ := Option.ite_none_left_eq_some.mp hread
        obtain ⟨rfl, rfl⟩ := Prod.mk.inj (Option.some.inj hread)
        refine ⟨hrest, fun heq => hspecial ?_⟩
        rw [Pattern.Atom.item.inj heq]
        decide
      · exact fun heq _ => hc heq
      · exact fun _ _ heq _ => hc heq
      · exact hdot
  | @pair c rest' hc hrest =>
    obtain ⟨-, hread⟩ := Option.ite_none_right_eq_some.mp hread
    obtain ⟨rfl, rfl⟩ := Prod.mk.inj (Option.some.inj hread)
    exact ⟨hrest, fun heq => hc (Pattern.Atom.item.inj heq)⟩

lemma Escaped.dropDigits {text : Str} (h : Escaped text) : Escaped (text.dropWhile isDigit) := by
  induction text with
  | nil => exact h
  | cons c text ih =>
    rw [List.dropWhile_cons]
    split
    case isTrue hdigit =>
      refine ih (h.tail ?_)
      rintro rfl
      exact absurd hdigit (by decide)
    case isFalse => exact h

lemma Escaped.of_readNumber {text rest : Str} {n : ℕ} (h : Escaped text)
    (hread : readNumber text = some (n, rest)) : Escaped rest := by
  obtain ⟨-, hread⟩ := Option.ite_none_left_eq_some.mp hread
  obtain ⟨-, rfl⟩ := Prod.mk.inj (Option.some.inj hread)
  exact h.dropDigits

lemma Escaped.of_readBounds {text rest : Str} {least : ℕ} {most : Option ℕ} (h : Escaped text)
    (hread : readBounds text = some ((least, most), rest)) :
    Escaped rest ∧ ∀ m ∈ most, least ≤ m := by
  obtain ⟨⟨n, behind⟩, hnumber, hread⟩ := Option.bind_eq_some_iff.mp hread
  have hbehind := h.of_readNumber hnumber
  dsimp only at hread
  split at hread
  · obtain ⟨hbounds, rfl⟩ := Prod.mk.inj (Option.some.inj hread)
    obtain ⟨rfl, rfl⟩ := Prod.mk.inj hbounds
    exact ⟨hbehind.tail (by decide), fun m hm => Nat.le_of_eq (Option.some.inj hm)⟩
  · obtain ⟨⟨n', behind'⟩, hnumber', hread⟩ := Option.bind_eq_some_iff.mp hread
    have hbehind' := (hbehind.tail (by decide)).of_readNumber hnumber'
    dsimp only at hread
    split at hread
    · obtain ⟨hle, hread⟩ := Option.ite_none_right_eq_some.mp hread
      obtain ⟨hbounds, rfl⟩ := Prod.mk.inj (Option.some.inj hread)
      obtain ⟨rfl, rfl⟩ := Prod.mk.inj hbounds
      exact ⟨hbehind'.tail (by decide), fun m hm => Option.some.inj hm ▸ hle⟩
    · cases hread
  · cases hread

lemma Escaped.of_readQuantifier {text rest : Str} {least : ℕ} {most : Option ℕ} (h : Escaped text)
    (hread : readQuantifier text = some ((least, most), rest)) :
    Escaped rest ∧ ∀ m ∈ most, least ≤ m := by
  rw [readQuantifier.eq_def] at hread
  split at hread
  · obtain ⟨hbounds, rfl⟩ := Prod.mk.inj (Option.some.inj hread)
    obtain ⟨rfl, rfl⟩ := Prod.mk.inj hbounds
    exact ⟨h.tail (by decide), fun _ hm => nomatch hm⟩
  · exact (h.tail (by decide)).of_readBounds hread
  · obtain ⟨hbounds, rfl⟩ := Prod.mk.inj (Option.some.inj hread)
    obtain ⟨rfl, rfl⟩ := Prod.mk.inj hbounds
    exact ⟨h, fun m hm => Nat.le_of_eq (Option.some.inj hm)⟩

/-- No piece stands for `{`, and each stands for something. -/
lemma Escaped.of_readPieces {length : ℕ} {text : Str} {pieces : List (Pattern.Piece UInt8)}
    (h : Escaped text) (hread : readPieces length text = some pieces) :
    ∀ p ∈ pieces, p.atom ≠ .item 123 ∧ ∀ m ∈ p.most, p.least ≤ m := by
  induction length generalizing text pieces with
  | zero =>
    cases text with
    | nil =>
      obtain rfl := Option.some.inj hread
      exact fun _ hp => nomatch hp
    | cons c text => cases hread
  | succ length ih =>
    cases text with
    | nil =>
      obtain rfl := Option.some.inj hread
      exact fun _ hp => nomatch hp
    | cons c text =>
      rw [readPieces] at hread
      obtain ⟨⟨atom, behind⟩, hatom, hread⟩ := Option.bind_eq_some_iff.mp hread
      obtain ⟨⟨⟨least, most⟩, rest⟩, hquantifier, hread⟩ := Option.bind_eq_some_iff.mp hread
      obtain ⟨others, hothers, rfl⟩ := Option.map_eq_some_iff.mp hread
      obtain ⟨hbehind, hbrace⟩ := h.of_readAtom hatom
      obtain ⟨hrest, hbounds⟩ := hbehind.of_readQuantifier hquantifier
      intro p hp
      obtain rfl | hp := List.mem_cons.mp hp
      · exact ⟨hbrace, hbounds⟩
      · exact ih hrest hothers p hp

/-- A text that matches has the characters of the wildcard string that stand for themselves. -/
lemma WildcardMatches.mem {w text : Str} (h : WildcardMatches w text) {c : UInt8} (hc : c ∈ w)
    (hquestion : c ≠ 63) (hstar : c ≠ 42) : c ∈ text := by
  obtain ⟨front, behind, rfl⟩ := List.append_of_mem hc
  rw [WildcardMatches, List.map_append, List.map_cons] at h
  obtain ⟨first, rest, rfl, -, hrest⟩ := Pattern.matches_append_iff.mp h
  obtain ⟨one, rest, rfl, hone, -⟩ := Pattern.matches_cons_iff.mp hrest
  rw [wildcardPiece, if_neg hquestion, if_neg hstar] at hone
  obtain ⟨x, rfl, hx⟩ := Pattern.admits_one_iff.mp hone
  obtain rfl : x = c := hx
  exact List.mem_append_right first List.mem_cons_self

/-! ## The end of a line -/

/-- Behind its last `*`, or all of it when it has none, the wildcard string has only `?`. -/
def Absorbs (w : Str) : Prop :=
  (∀ c ∈ w, c = 63) ∨ ∃ front behind, w = front ++ 42 :: behind ∧ ∀ c ∈ behind, c = 63

/-- The last character that is not `?`. -/
lemma last_not_question (w : Str) :
    (∀ c ∈ w, c = 63) ∨ ∃ front x behind, w = front ++ x :: behind ∧ x ≠ 63 ∧
      ∀ c ∈ behind, c = 63 := by
  induction w with
  | nil => exact Or.inl fun _ hc => nomatch hc
  | cons c w ih =>
    obtain hall | ⟨front, x, behind, rfl, hx, hbehind⟩ := ih
    · by_cases hc : c = 63
      · exact Or.inl fun y hy => (List.mem_cons.mp hy).elim (fun h => h.trans hc) (hall y)
      · exact Or.inr ⟨[], c, w, rfl, hc, hall⟩
    · exact Or.inr ⟨c :: front, x, behind, rfl, hx, hbehind⟩

/-- What matches so many `?` is so long. -/
lemma matches_questions_iff {w : Str} (hw : ∀ c ∈ w, c = 63) (text : Str) :
    WildcardMatches w text ↔ text.length = w.length := by
  induction w generalizing text with
  | nil => exact List.length_eq_zero_iff.symm
  | cons c w ih =>
    obtain rfl : c = 63 := hw c List.mem_cons_self
    have hrest := ih fun c hc => hw c (List.mem_cons_of_mem _ hc)
    rw [WildcardMatches, List.map_cons, Pattern.matches_cons_iff]
    constructor
    · rintro ⟨one, rest, rfl, hone, hmatch⟩
      obtain ⟨x, rfl, -⟩ := Pattern.admits_one_iff.mp hone
      rw [List.length_append, (hrest rest).mp hmatch, List.length_singleton, List.length_cons,
        Nat.add_comm]
    · intro hlength
      cases text with
      | nil => cases hlength
      | cons x text =>
        exact ⟨[x], text, rfl, Pattern.admits_one_iff.mpr ⟨x, rfl, trivial⟩,
          (hrest text).mpr (Nat.succ.inj hlength)⟩

/-- Such a wildcard string matches to the end of a text when it matches a part of it. -/
lemma Absorbs.matches_end {w part : Str} (h : Absorbs w) (hpart : WildcardMatches w part)
    (front rest : Str) :
    ∃ front' part', front ++ (part ++ rest) = front' ++ part' ∧ WildcardMatches w part' := by
  obtain hall | ⟨first, behind, rfl, hbehind⟩ := h
  · have hlength := (matches_questions_iff hall part).mp hpart
    refine ⟨_, _, (List.take_append_drop ((front ++ (part ++ rest)).length - w.length) _).symm,
      (matches_questions_iff hall _).mpr ?_⟩
    simp only [List.length_drop, List.length_append]
    omega
  · rw [WildcardMatches, List.map_append, List.map_cons] at hpart
    obtain ⟨a, b, rfl, hfirst, hpart⟩ := Pattern.matches_append_iff.mp hpart
    obtain ⟨run, c, rfl, -, hend⟩ := Pattern.matches_cons_iff.mp hpart
    have hlength := (matches_questions_iff hbehind c).mp hend
    refine ⟨front, a ++ (run ++ (c ++ rest)), by simp, ?_⟩
    rw [WildcardMatches, List.map_append, List.map_cons]
    refine Pattern.matches_append_iff.mpr ⟨a, _, rfl, hfirst, Pattern.matches_cons_iff.mpr
      ⟨(run ++ (c ++ rest)).take ((run ++ (c ++ rest)).length - behind.length),
        (run ++ (c ++ rest)).drop ((run ++ (c ++ rest)).length - behind.length),
        (List.take_append_drop _ _).symm, Pattern.admits_all _,
        (matches_questions_iff hbehind _).mpr ?_⟩⟩
    simp only [List.length_drop, List.length_append]
    omega

lemma least_le_most (w : Str) : ∀ p ∈ w.map wildcardPiece, ∀ m ∈ p.most, p.least ≤ m := by
  intro p hp m hm
  obtain ⟨c, -, rfl⟩ := List.mem_map.mp hp
  rw [wildcardPiece] at hm ⊢
  by_cases hquestion : c = 63
  · rw [if_pos hquestion] at hm ⊢
    exact Nat.le_of_eq (Option.some.inj hm)
  · by_cases hstar : c = 42
    · rw [if_neg hquestion, if_pos hstar] at hm
      cases hm
    · rw [if_neg hquestion, if_neg hstar] at hm ⊢
      exact Nat.le_of_eq (Option.some.inj hm)

/-- What matches the wildcard string can end with the character. -/
def CanEnd (w : Str) (c : UInt8) : Prop := ∃ x ∈ w.getLast?, x = 63 ∨ x = c

/-- Every other has a last character, which stands for one. -/
lemma exists_last_of_not_absorbs {w : Str} (h : ¬Absorbs w) :
    ∃ front x, w = front ++ [x] ∧ x ≠ 42 := by
  obtain rfl | ⟨front, x, rfl⟩ := List.eq_nil_or_concat' w
  · exact (h (Or.inl fun _ hc => nomatch hc)).elim
  · refine ⟨front, x, rfl, ?_⟩
    rintro rfl
    exact h (Or.inr ⟨front, [], rfl, fun _ hc => nomatch hc⟩)

lemma WildcardMatches.canEnd {w part : Str} (hpart : WildcardMatches w part) (h : ¬Absorbs w)
    (front : Str) : ∃ c, (front ++ part).getLast? = some c ∧ CanEnd w c := by
  obtain ⟨init, x, rfl, hstar⟩ := exists_last_of_not_absorbs h
  rw [WildcardMatches, List.map_append, List.map_singleton] at hpart
  obtain ⟨a, b, rfl, -, hlast⟩ := Pattern.matches_append_iff.mp hpart
  obtain ⟨one, rest, rfl, hone, rfl⟩ := Pattern.matches_cons_iff.mp hlast
  have hexact : ∃ atom, wildcardPiece x = ⟨atom, 1, some 1⟩ ∧
      ∀ y, atom.Fits y → x = 63 ∨ x = y := by
    rw [wildcardPiece]
    by_cases hquestion : x = 63
    · exact ⟨_, if_pos hquestion, fun y _ => Or.inl hquestion⟩
    · rw [if_neg hquestion, if_neg hstar]
      exact ⟨_, rfl, fun y (hy : y = x) => Or.inr hy.symm⟩
  obtain ⟨atom, hpiece, hfits⟩ := hexact
  rw [hpiece] at hone
  obtain ⟨y, rfl, hy⟩ := Pattern.admits_one_iff.mp hone
  exact ⟨y, by simp, x, by simp, hfits y hy⟩

lemma getLast?_sample {w : Str} (h : ¬Absorbs w) {c : UInt8} (hc : CanEnd w c) :
    (Pattern.sample c (w.map wildcardPiece)).getLast? = some c := by
  obtain ⟨init, x, rfl, hstar⟩ := exists_last_of_not_absorbs h
  obtain ⟨_, hx, hlast⟩ := hc
  obtain rfl : x = _ := by simpa using hx
  have hone : Pattern.sample c [wildcardPiece x] = [c] := by
    rw [wildcardPiece]
    by_cases hquestion : x = 63
    · rw [if_pos hquestion]
      rfl
    · rw [if_neg hquestion, if_neg hstar]
      exact congrArg (fun y => [y]) (hlast.resolve_left hquestion)
  have happend : Pattern.sample c ((init ++ [x]).map wildcardPiece) =
      Pattern.sample c (init.map wildcardPiece) ++ Pattern.sample c [wildcardPiece x] := by
    rw [List.map_append, Pattern.sample, List.flatMap_append]
    rfl
  rw [happend, hone, List.getLast?_concat]

/-- Every other is found in front of the end of a line in a text that does not end with it. -/
lemma exists_not_matches_end {w : Str} (h : ¬Absorbs w) {before : UInt8} (hbefore : CanEnd w before)
    (c : UInt8) :
    ∃ part rest, WildcardMatches w part ∧ part.getLast? = some before ∧
      ¬∃ front' part', part ++ c :: rest = front' ++ part' ∧ WildcardMatches w part' := by
  have hlast := getLast?_sample h hbefore
  obtain hall | ⟨first, x, behind, rfl, hx, hbehind⟩ := last_not_question w
  · exact (h (Or.inl hall)).elim
  · have hstar : x ≠ 42 := by
      rintro rfl
      exact h (Or.inr ⟨first, behind, rfl, hbehind⟩)
    obtain ⟨y, hy⟩ : ∃ y, y ≠ x := ⟨x + 1, by simp⟩
    refine ⟨Pattern.sample before ((first ++ x :: behind).map wildcardPiece),
      List.replicate (behind.length + 1) y, Pattern.matches_sample before (least_le_most _), hlast,
      ?_⟩
    rintro ⟨front', part', hsplit, hmatch⟩
    rw [WildcardMatches, List.map_append, List.map_cons] at hmatch
    obtain ⟨a, b, rfl, -, hmatch⟩ := Pattern.matches_append_iff.mp hmatch
    obtain ⟨one, t, rfl, hone, hend⟩ := Pattern.matches_cons_iff.mp hmatch
    have hlength := (matches_questions_iff hbehind t).mp hend
    rw [wildcardPiece, if_neg hx, if_neg hstar] at hone
    obtain ⟨x', rfl, hx'⟩ := Pattern.admits_one_iff.mp hone
    obtain rfl : x' = x := hx'
    -- so far from its end the text has `y`, where `x` would have to be
    have hends : Pattern.sample before ((first ++ x' :: behind).map wildcardPiece) ++ [c] ++
        y :: List.replicate behind.length y = front' ++ a ++ x' :: t := by
      rw [List.append_assoc, List.append_assoc]
      exact hsplit
    have htails := (List.append_inj' hends (by simp [hlength])).2
    exact hy (List.cons.inj htails).1

/-! ## The translation -/

/-- The regular expression is valid, and is found in a text exactly when an end of the text matches
the wildcard string. -/
def Faithful (compile : Str → Except Str Regex) (w : Str) : Prop :=
  ∃ regex, wildcard2Regex compile w = .ok regex ∧ ∀ text, regex.search text = true ↔
    ∃ front part, text = front ++ part ∧ WildcardMatches w part

section Faithful

variable {compile : Str → Except Str Regex} {breaks : Option UInt8 → UInt8 → Bool}
  (hreads : ReadsSyntax compile breaks)
include hreads

/-- What is read of the text is what is searched for. -/
lemma wildcard2Regex_of_read {w : Str} {pieces : List (Pattern.Piece UInt8)}
    (hpieces : readPieces (w.flatMap wildcardToken).length (w.flatMap wildcardToken) =
      some pieces) :
    ∃ regex, wildcard2Regex compile w = .ok regex ∧
      ∀ text, regex.search text = true ↔ Pattern.Found breaks pieces text := by
  rw [wildcard2Regex, wildcardText_eq]
  exact hreads _ _ hpieces

/-- Without `{`, a part is looked for that matches the wildcard string. -/
lemma wildcard2Regex_of_notMem {w : Str} (hw : (123 : UInt8) ∉ w) :
    ∃ regex, wildcard2Regex compile w = .ok regex ∧
      ∀ text, regex.search text = true ↔ ∃ front part rest, text = front ++ (part ++ rest) ∧
        WildcardMatches w part ∧ Pattern.EndsAt breaks (front ++ part) rest := by
  obtain ⟨regex, hcompile, hsearch⟩ :=
    wildcard2Regex_of_read hreads (readPieces_wildcard hw (length_le_wildcard w))
  exact ⟨regex, hcompile, fun text => (hsearch text).trans Pattern.found_iff⟩

lemma faithful_of {w : Str} (hw : (123 : UInt8) ∉ w)
    (hends : (∀ before, CanEnd w before → ∀ c, breaks (some before) c = false) ∨ Absorbs w) :
    Faithful compile w := by
  obtain ⟨regex, hcompile, hsearch⟩ := wildcard2Regex_of_notMem hreads hw
  refine ⟨regex, hcompile, fun text => (hsearch text).trans ?_⟩
  constructor
  · rintro ⟨front, part, rest, rfl, hpart, hrest⟩
    by_cases habsorbs : Absorbs w
    · exact habsorbs.matches_end hpart front rest
    · obtain rfl | ⟨c, -, hc⟩ := hrest
      · exact ⟨front, part, by rw [List.append_nil], hpart⟩
      · obtain ⟨before, hlast, hbefore⟩ := hpart.canEnd habsorbs front
        rw [hlast, hends.resolve_right habsorbs before hbefore c] at hc
        cases hc
  · rintro ⟨front, part, rfl, hpart⟩
    exact ⟨front, part, [], by rw [List.append_nil], hpart, Or.inl rfl⟩

/-- With a quantifier, a text without `{` is found. -/
lemma not_faithful_of_brace {w : Str} (hw : (123 : UInt8) ∈ w)
    {pieces : List (Pattern.Piece UInt8)}
    (hpieces : readPieces (w.flatMap wildcardToken).length (w.flatMap wildcardToken) =
      some pieces) : ¬Faithful compile w := by
  rintro ⟨regex, hcompile, hfaithful⟩
  obtain ⟨regex', hcompile', hsearch⟩ := wildcard2Regex_of_read hreads hpieces
  obtain rfl := Except.ok.inj (hcompile.symm.trans hcompile')
  have hsound := (escaped_wildcard w).of_readPieces hpieces
  have hmatch := Pattern.matches_sample (97 : UInt8) fun p hp => (hsound p hp).2
  have hfound : regex.search (Pattern.sample 97 pieces) = true :=
    (hsearch _).mpr (Pattern.found_iff.mpr
      ⟨[], _, [], (List.append_nil _).symm, hmatch, Or.inl rfl⟩)
  obtain ⟨front, part, htext, hpart⟩ := (hfaithful _).mp hfound
  have hmem : (123 : UInt8) ∈ Pattern.sample 97 pieces := by
    rw [htext]
    exact List.mem_append_right front (hpart.mem hw (by decide) (by decide))
  obtain hfill | ⟨p, hp, hatom⟩ := Pattern.mem_sample hmem
  · cases hfill
  · exact (hsound p hp).1 hatom

/-- Where `$` matches at the end of a line, a text is found that does not end with a match. -/
lemma not_faithful_of_break {w : Str} (hw : (123 : UInt8) ∉ w) {before c : UInt8}
    (hbefore : CanEnd w before) (hc : breaks (some before) c = true) (habsorbs : ¬Absorbs w) :
    ¬Faithful compile w := by
  rintro ⟨regex, hcompile, hfaithful⟩
  obtain ⟨regex', hcompile', hsearch⟩ := wildcard2Regex_of_notMem hreads hw
  obtain rfl := Except.ok.inj (hcompile.symm.trans hcompile')
  obtain ⟨part, rest, hpart, hlast, hnot⟩ := exists_not_matches_end habsorbs hbefore c
  have hfound : regex.search (part ++ c :: rest) = true :=
    (hsearch _).mpr ⟨[], part, c :: rest, rfl, hpart,
      Or.inr ⟨c, rfl, by rw [List.nil_append, hlast, hc]⟩⟩
  exact hnot ((hfaithful _).mp hfound)

/-- A wildcard string finds what it should exactly when it has no `{`, and no line ends behind what
it can end with or that does not matter. -/
theorem wildcard2Regex_faithful_iff (w : Str)
    (hbraces : (123 : UInt8) ∈ w → ∃ text pieces, wildcardText w = text ++ [36] ∧
      readPieces text.length text = some pieces) :
    Faithful compile w ↔ (123 : UInt8) ∉ w ∧
      ((∀ before, CanEnd w before → ∀ c, breaks (some before) c = false) ∨ Absorbs w) := by
  constructor
  · intro hfaithful
    have hw : (123 : UInt8) ∉ w := by
      intro hbrace
      obtain ⟨text, pieces, htext, hpieces⟩ := hbraces hbrace
      rw [wildcardText_eq] at htext
      obtain rfl := List.append_cancel_right htext
      exact not_faithful_of_brace hreads hbrace hpieces hfaithful
    refine ⟨hw, ?_⟩
    refine Classical.or_iff_not_imp_right.mpr fun habsorbs before hbefore c => ?_
    by_contra hc
    rw [Bool.not_eq_false] at hc
    exact not_faithful_of_break hreads hw hbefore hc habsorbs hfaithful
  · rintro ⟨hw, hends⟩
    exact faithful_of hreads hw hends

end Faithful

/-! ## A reader of the syntax -/

/-- `re::sregex::compile` of a regular expression in the syntax that is documented, and nothing
else. -/
def compileSyntax (breaks : Option UInt8 → UInt8 → Bool) (text : Str) : Except Str Regex :=
  match readPieces text.dropLast.length text.dropLast, text.getLast? with
  | some pieces, some 36 => .ok ⟨fun s => decide (Pattern.Found breaks pieces s), fun _ => []⟩
  | _, _ => .error (.literal "not in the syntax")

lemma readsSyntax_compileSyntax (breaks : Option UInt8 → UInt8 → Bool) :
    ReadsSyntax (compileSyntax breaks) breaks := by
  intro text pieces hpieces
  refine ⟨⟨fun s => decide (Pattern.Found breaks pieces s), fun _ => []⟩, ?_,
    fun s => decide_eq_true_iff⟩
  rw [compileSyntax, List.dropLast_concat, hpieces, List.getLast?_concat]
  rfl

/-- `a*`, where `$` matches in front of a line break. -/
theorem wildcard2Regex_faithful_star :
    Faithful (compileSyntax fun before c => c = 10 ∧ before ≠ some 13) [97, 42] :=
  (wildcard2Regex_faithful_iff (readsSyntax_compileSyntax _) [97, 42]
    fun h => absurd h (by decide)).mpr
    ⟨by decide, Or.inr (Or.inr ⟨[97], [], rfl, fun _ hc => nomatch hc⟩)⟩

/-- `a{2}` finds `aa`, even where `$` matches at the end of the text only. -/
theorem not_wildcard2Regex_faithful_brace :
    ¬Faithful (compileSyntax fun _ _ => false) [97, 123, 50, 125] := by
  have hpieces : readPieces 4 [97, 123, 50, 125] = some [⟨.item 97, 2, some 2⟩] := by decide
  exact not_faithful_of_brace (readsSyntax_compileSyntax _) (by decide) hpieces

end OldPart
