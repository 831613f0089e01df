import OldPart.Lib.Pattern
import OldPart.Lib.Replace
import OldPart.Opc.GrepFile

/-!
# `Wildcard2Regex`

The replacements that make a regular expression of a wildcard string, what they amount to together,
and the part of its syntax that xpressive reads them in.
-/

namespace OldPart

/-- The string `Wildcard2Regex` compiles. -/
def wildcardText (wildcardPattern : Str) : Str :=
  -- `\`, in front of those that put another in
  let wildcardPattern := Text.replaceAll [92] [92, 92] wildcardPattern
  -- `^ . $ | ( ) [ ] * + ? /`
  let wildcardPattern := Text.replaceAll [94] [92, 94] wildcardPattern
  let wildcardPattern := Text.replaceAll [46] [92, 46] wildcardPattern
  let wildcardPattern := Text.replaceAll [36] [92, 36] wildcardPattern
  let wildcardPattern := Text.replaceAll [124] [92, 124] wildcardPattern
  let wildcardPattern := Text.replaceAll [40] [92, 40] wildcardPattern
  let wildcardPattern := Text.replaceAll [41] [92, 41] wildcardPattern
  let wildcardPattern := Text.replaceAll [91] [92, 91] wildcardPattern
  let wildcardPattern := Text.replaceAll [93] [92, 93] wildcardPattern
  let wildcardPattern := Text.replaceAll [42] [92, 42] wildcardPattern
  let wildcardPattern := Text.replaceAll [43] [92, 43] wildcardPattern
  let wildcardPattern := Text.replaceAll [63] [92, 63] wildcardPattern
  let wildcardPattern := Text.replaceAll [47] [92, 47] wildcardPattern
  -- `\?` to `.`, and `\*` to `.*`
  let wildcardPattern := Text.replaceAll [92, 63] [46] wildcardPattern
  let wildcardPattern := Text.replaceAll [92, 42] [46, 42] wildcardPattern
  wildcardPattern ++ [36]

/-- `Wildcard2Regex`, with `re::sregex::compile`. -/
def wildcard2Regex (compile : Str → Except Str Regex) (wildcardPattern : Str) :
    Except Str Regex :=
  compile (wildcardText wildcardPattern)

/-! ## Wildcards -/

/-- What a character of a wildcard string stands for: `?` for any character, `*` for any run of
them, and every other for itself. -/
def wildcardPiece (c : UInt8) : Pattern.Piece UInt8 :=
  if c = 63 then ⟨.any, 1, some 1⟩
  else if c = 42 then ⟨.any, 0, none⟩
  else ⟨.item c, 1, some 1⟩

/-- A text matches a wildcard string. -/
def WildcardMatches (w text : Str) : Prop := Pattern.Matches (w.map wildcardPiece) text

instance (w text : Str) : Decidable (WildcardMatches w text) :=
  Pattern.Matches.decidable (w.map wildcardPiece) text

/-! ## The syntax of a regular expression -/

/-- The characters that stand for themselves behind a backslash only. -/
def syntaxCharacters : Str := [92, 94, 46, 36, 124, 40, 41, 91, 42, 43, 63, 123]

/-- `ispunct`. -/
def isPunct (c : UInt8) : Bool :=
  33 ≤ c && c ≤ 47 || 58 ≤ c && c ≤ 64 || 91 ≤ c && c ≤ 96 || 123 ≤ c && c ≤ 126

/-- An atom: `.`, a character behind a backslash, or one that stands for itself. -/
def readAtom : Str → Option (Pattern.Atom UInt8 × Str)
  | [] => none
  | [92] => none
  | 92 :: c :: rest => if isPunct c then some (.item c, rest) else none
  | 46 :: rest => some (.any, rest)
  | c :: rest => if c ∈ syntaxCharacters then none else some (.item c, rest)

/-- `isdigit`. -/
def isDigit (c : UInt8) : Bool := 48 ≤ c && c ≤ 57

/-- A decimal number. -/
def readNumber (text : Str) : Option (ℕ × Str) :=
  let digits := text.takeWhile isDigit
  if digits = [] then none
  else some (digits.foldl (fun n c => 10 * n + (c.toNat - 48)) 0, text.dropWhile isDigit)

/-- What is behind the `{` of `{n}` or `{n,m}`. -/
def readBounds (text : Str) : Option ((ℕ × Option ℕ) × Str) := do
  let (n, rest) ← readNumber text
  match rest with
  | 125 :: rest => some ((n, some n), rest)
  | 44 :: rest => do
      let (m, rest) ← readNumber rest
      match rest with
      | 125 :: rest => if n ≤ m then some ((n, some m), rest) else none
      | _ => none
  | _ => none

/-- A quantifier, if there is one. -/
def readQuantifier : Str → Option ((ℕ × Option ℕ) × Str)
  | 42 :: rest => some ((0, none), rest)
  | 123 :: rest => readBounds rest
  | rest => some ((1, some 1), rest)

/-- A sequence of atoms and their quantifiers.  Each takes a character at least. -/
def readPieces : (length : ℕ) → Str → Option (List (Pattern.Piece UInt8))
  | _, [] => some []
  | 0, _ :: _ => none
  | length + 1, c :: text =>
      (readAtom (c :: text)).bind fun (atom, rest) =>
        (readQuantifier rest).bind fun ((least, most), rest) =>
          (readPieces length rest).map fun pieces => ⟨atom, least, most⟩ :: pieces

/-- What is documented of xpressive: a sequence of atoms and their quantifiers with a `$` behind it
is valid, and `re::regex_search` finds it in a text where that says.  `breaks` says between which
characters a line ends for `$`, if it does before the end of the text. -/
def ReadsSyntax (compile : Str → Except Str Regex) (breaks : Option UInt8 → UInt8 → Bool) : Prop :=
  ∀ text pieces, readPieces text.length text = some pieces →
    ∃ regex, compile (text ++ [36]) = .ok regex ∧
      ∀ s, regex.search s = true ↔ Pattern.Found breaks pieces s

end OldPart
