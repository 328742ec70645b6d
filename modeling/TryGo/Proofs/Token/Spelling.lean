import TryGo.Precedence
import TryGo.Token.Lexer

/-! How a text is divided into tokens when it was put together from pieces. What a token says
is its spelling, that is its kind and its literal; where it stands is left out, so that the
spellings of a text do not depend on what comes before it. A piece is divided off if the text
behind it cannot be taken for a continuation, and `Breaks` says when it cannot. -/
namespace TryGo

/-- What a token says, without where it stands. -/
abbrev Spelling := TokenKind × String

def Token.spelling (token : Token) : Spelling := (token.kind, token.literal)

def spellings (chars : List Char) : List Spelling :=
  (Lexer.words ⟨chars, Position.start⟩).map Token.spelling

namespace Lexer

/-- Blanks are dropped from the front of what is left. -/
theorem rest_skipBlanks (lexer : Lexer) :
    lexer.skipBlanks.rest = lexer.rest.dropWhile isBlank := by
  have hSplit : lexer.rest.takeWhile isBlank ++ lexer.rest.dropWhile isBlank = lexer.rest :=
    List.takeWhile_append_dropWhile
  have hDrop := congrArg (List.drop (lexer.rest.takeWhile isBlank).length) hSplit
  rw [List.drop_left] at hDrop
  exact hDrop.symm

/-- A text of blanks has no tokens. -/
theorem words_of_blank (lexer : Lexer) (hBlank : lexer.rest.dropWhile isBlank = []) :
    lexer.words = [] := by
  rw [words, dif_pos (by rw [rest_skipBlanks, hBlank])]

/-- The first token of a text is its first lexeme after the blanks. -/
theorem words_of_scan (lexer : Lexer) {c : Char} {rest : List Char}
    (hRest : lexer.rest.dropWhile isBlank = c :: rest) :
    ∃ pos pos', lexer.words =
      ⟨(Lexeme.scan (c :: rest)).kind, String.ofList (Lexeme.scan (c :: rest)).literal, pos⟩
        :: words ⟨(c :: rest).drop (Lexeme.scan (c :: rest)).span.length, pos'⟩ := by
  have hSkip : lexer.skipBlanks.rest = c :: rest := by rw [rest_skipBlanks, hRest]
  have hNext : lexer.next =
      (⟨(Lexeme.scan (c :: rest)).kind, String.ofList (Lexeme.scan (c :: rest)).literal,
        lexer.skipBlanks.pos⟩,
        lexer.skipBlanks.drop (Lexeme.scan (c :: rest)).span.length) := by
    rw [next, take, hSkip]
  refine ⟨lexer.skipBlanks.pos,
    (lexer.skipBlanks.drop (Lexeme.scan (c :: rest)).span.length).pos, ?_⟩
  rw [words, dif_neg (by rw [hSkip]; exact List.cons_ne_nil c rest), hNext, ← hSkip]
  rfl

/-- What the tokens of a text say does not depend on where the text stands. -/
theorem map_spelling_words (n : Nat) : (chars : List Char) → chars.length ≤ n →
    (pos pos' : Position) →
      (words ⟨chars, pos⟩).map Token.spelling = (words ⟨chars, pos'⟩).map Token.spelling := by
  induction n with
  | zero =>
      intro chars hLength pos pos'
      obtain rfl : chars = [] := List.length_eq_zero_iff.mp (by omega)
      rw [words_of_blank ⟨[], pos⟩ rfl, words_of_blank ⟨[], pos'⟩ rfl]
  | succ n ih =>
      intro chars hLength pos pos'
      cases hRest : chars.dropWhile isBlank with
      | nil =>
          rw [words_of_blank ⟨chars, pos⟩ hRest,
            words_of_blank ⟨chars, pos'⟩ hRest]
      | cons c rest =>
          have hShorter : (c :: rest).length ≤ chars.length := by
            rw [← hRest]
            exact (List.dropWhile_sublist isBlank).length_le
          have hSpan := List.length_pos_iff.mpr (Lexeme.span_scan_ne_nil c rest)
          obtain ⟨_, _, hWords⟩ := words_of_scan ⟨chars, pos⟩ hRest
          obtain ⟨_, _, hWords'⟩ := words_of_scan ⟨chars, pos'⟩ hRest
          rw [hWords, hWords', List.map_cons, List.map_cons, ih _ (by
            rw [List.length_drop]
            omega) _ _]
          rfl

end Lexer

/-- How a text is spelled does not depend on where it starts. -/
theorem map_spelling_words_eq (lexer : Lexer) :
    lexer.words.map Token.spelling = spellings lexer.rest :=
  Lexer.map_spelling_words lexer.rest.length lexer.rest (Nat.le_refl _) lexer.pos Position.start

@[simp] theorem spellings_nil : spellings [] = [] := by
  rw [spellings, Lexer.words_of_blank _ rfl]
  rfl

/-- Blanks in front of a text say nothing. -/
@[simp] theorem spellings_blank {c : Char} (hBlank : isBlank c = true) (rest : List Char) :
    spellings (c :: rest) = spellings rest := by
  have hDrop : (c :: rest).dropWhile isBlank = rest.dropWhile isBlank := by
    rw [List.dropWhile_cons, if_pos hBlank]
  cases hRest : rest.dropWhile isBlank with
  | nil =>
      rw [spellings, spellings, Lexer.words_of_blank _ (by rw [hDrop, hRest]),
        Lexer.words_of_blank _ hRest]
  | cons d tail =>
      obtain ⟨_, _, hWords⟩ := Lexer.words_of_scan ⟨c :: rest, Position.start⟩
        (hDrop.trans hRest)
      obtain ⟨_, _, hWords'⟩ := Lexer.words_of_scan ⟨rest, Position.start⟩ hRest
      rw [spellings, spellings, hWords, hWords', List.map_cons, List.map_cons,
        map_spelling_words_eq, map_spelling_words_eq]
      rfl

/-- A piece that is scanned as one lexeme is divided off. -/
theorem spellings_piece {c : Char} {piece rest literal : List Char} {kind : TokenKind}
    (hBlank : isBlank c = false)
    (hScan : Lexeme.scan (c :: piece ++ rest) = ⟨kind, literal, c :: piece⟩) :
    spellings (c :: piece ++ rest) = (kind, String.ofList literal) :: spellings rest := by
  have hDrop : (c :: piece ++ rest).dropWhile isBlank = c :: (piece ++ rest) := by
    rw [List.cons_append, List.dropWhile_cons, if_neg (by simp [hBlank])]
  obtain ⟨_, _, hWords⟩ := Lexer.words_of_scan
    ⟨c :: piece ++ rest, Position.start⟩ hDrop
  rw [← List.cons_append, hScan, List.drop_left] at hWords
  rw [spellings, hWords, List.map_cons, map_spelling_words_eq]
  rfl

/-- Letters by their codes. -/
theorem isAlpha_eq (c : Char) :
    c.isAlpha = (decide (c.val ≥ 'A'.val ∧ c.val ≤ 'Z'.val)
      || (decide (c.val ≥ 'a'.val) && decide (c.val ≤ 'z'.val))) := rfl

/-- A text that continues no word and no number. After a number a point is one only if no
digit follows it. -/
def Breaks : List Char → Prop
  | [] => True
  | c :: rest =>
      isWordChar c = false ∧ c ≠ '+' ∧ c ≠ '-'
        ∧ (c = '.' → ∀ d, rest.head? = some d → d.isDigit = false)

/-- A text that continues no word, and no number but one that ends in the mark of an exponent. -/
def Parts : List Char → Prop
  | [] => True
  | c :: rest => isWordChar c = false ∧ (c = '.' → ∀ d, rest.head? = some d → d.isDigit = false)

/-- What breaks off any number parts those that end in no mark of an exponent. -/
theorem Breaks.parts {rest : List Char} (hBreaks : Breaks rest) : Parts rest := by
  cases rest with
  | nil => trivial
  | cons c tail => exact ⟨hBreaks.1, hBreaks.2.2.2⟩

/-- Whether a text ends in the mark of an exponent. -/
def endsInMark (chars : List Char) : Bool := chars.getLast?.any fun c => c == 'e' || c == 'E'

namespace Lexeme

/-- Text in which a test fails at once adds nothing to what was taken before it. -/
theorem takeWhile_append_of_head {p : Char → Bool} {rest : List Char}
    (hRest : ∀ c, rest.head? = some c → p c = false) (chars : List Char) :
    (chars ++ rest).takeWhile p = chars.takeWhile p := by
  induction chars with
  | nil =>
      cases rest with
      | nil => rfl
      | cons c tail => simp [hRest c rfl]
  | cons c chars ih =>
      rw [List.cons_append, List.takeWhile_cons, List.takeWhile_cons, ih]

theorem fraction_of_ne {c : Char} (hPoint : c ≠ '.') (rest : List Char) :
    fraction (c :: rest) = [] := by
  unfold fraction
  split <;> simp_all

/-- A point without a digit behind it is no fraction. -/
theorem fraction_of_head {rest : List Char}
    (hRest : ∀ d, rest.head? = some d → d.isDigit = false) : fraction ('.' :: rest) = [] := by
  cases rest with
  | nil => rfl
  | cons d tail => rw [fraction, if_neg (by simp [hRest d rfl])]

theorem length_fraction_le (chars : List Char) : (fraction chars).length ≤ chars.length := by
  unfold fraction
  split
  next d digits =>
    split
    next =>
      have hTaken := (List.takeWhile_sublist (l := d :: digits) Char.isDigit).length_le
      simp only [List.length_cons] at hTaken ⊢
      omega
    next => exact Nat.zero_le _
  next => exact Nat.zero_le _

/-- The digits of every base are word characters. -/
theorem isWordChar_of_isHexDigit {c : Char} (hDigit : isHexDigit c = true) :
    isWordChar c = true := by
  simp only [isHexDigit, isWordChar, Char.isAlphanum, isAlpha_eq, Char.isDigit, Bool.or_eq_true,
    Bool.and_eq_true, decide_eq_true_eq, Char.le_def, UInt32.le_iff_toNat_le] at hDigit ⊢
  have hLast : 'f'.val.toNat = 102 ∧ 'z'.val.toNat = 122 := ⟨rfl, rfl⟩
  have hLastUpper : 'F'.val.toNat = 70 ∧ 'Z'.val.toNat = 90 := ⟨rfl, rfl⟩
  grind

/-- The digits of any base are among those of the greatest. -/
theorem isHexDigit_of_baseDigits {mark c : Char} {isBaseDigit : Char → Bool}
    (hBase : baseDigits mark = some isBaseDigit) (hDigit : isBaseDigit c = true) :
    isHexDigit c = true := by
  unfold baseDigits at hBase
  split at hBase
  · obtain rfl := Option.some.inj hBase
    exact hDigit
  split at hBase
  · obtain rfl := Option.some.inj hBase
    simp only [isBinaryDigit, Bool.or_eq_true, beq_iff_eq] at hDigit
    rcases hDigit with rfl | rfl <;> decide
  split at hBase
  · obtain rfl := Option.some.inj hBase
    simp only [isOctalDigit, Bool.and_eq_true, decide_eq_true_eq] at hDigit
    simp only [isHexDigit, Char.isDigit, Bool.or_eq_true, Bool.and_eq_true, decide_eq_true_eq]
    exact Or.inl (Or.inl ⟨hDigit.1, Nat.le_trans hDigit.2 (by decide)⟩)
  · cases hBase

theorem number_of_ne {c : Char} (hZero : c ≠ '0') (rest : List Char) :
    number (c :: rest) = decimal (c :: rest) := by
  unfold number
  split <;> simp_all

/-- Behind a zero the mark of a base decides how a number goes on. -/
theorem number_zero (mark : Char) (rest : List Char) :
    number ('0' :: mark :: rest) =
      match baseDigits mark with
      | some isBaseDigit => plain .int ('0' :: mark :: rest.takeWhile isBaseDigit)
      | none => decimal ('0' :: mark :: rest) := rfl

/-- Only certain characters mark a base. -/
theorem baseDigits_of_not_mem {mark : Char} (hMark : mark ∉ ['x', 'X', 'b', 'B', 'o', 'O']) :
    baseDigits mark = none := by
  unfold baseDigits
  simp_all

theorem baseDigits_of_not_isWordChar {mark : Char} (hWord : isWordChar mark = false) :
    baseDigits mark = none := by
  refine baseDigits_of_not_mem fun hMem => ?_
  simp only [List.mem_cons, List.not_mem_nil, or_false] at hMem
  rcases hMem with rfl | rfl | rfl | rfl | rfl | rfl <;> exact absurd hWord (by decide)

section Parting

variable {rest : List Char} (hParts : Parts rest)

include hParts

/-- What parts a number does not go on with a word. -/
theorem not_isWordChar_of_parts : ∀ c, rest.head? = some c → isWordChar c = false := by
  intro c hHead
  cases rest with
  | nil => cases hHead
  | cons d tail =>
      obtain rfl : d = c := by simpa using hHead
      exact hParts.1

theorem not_isDigit_of_parts : ∀ c, rest.head? = some c → c.isDigit = false := by
  intro c hHead
  have hWord := not_isWordChar_of_parts hParts c hHead
  simp only [isWordChar, Char.isAlphanum, Bool.or_eq_false_iff] at hWord
  exact hWord.1.2

theorem fraction_append (chars : List Char) : fraction (chars ++ rest) = fraction chars := by
  have hDigit := not_isDigit_of_parts hParts
  match chars with
  | [] =>
      cases rest with
      | nil => rfl
      | cons c tail =>
          by_cases hPoint : c = '.'
          · subst hPoint
            exact fraction_of_head (hParts.2 rfl)
          · exact fraction_of_ne hPoint tail
  | [c] =>
      by_cases hPoint : c = '.'
      · subst hPoint
        exact fraction_of_head hDigit
      · exact (fraction_of_ne hPoint rest).trans (fraction_of_ne hPoint []).symm
  | c :: d :: digits =>
      by_cases hPoint : c = '.'
      · subst hPoint
        rw [List.cons_append, List.cons_append, fraction, fraction, ← List.cons_append,
          takeWhile_append_of_head hDigit]
      · exact (fraction_of_ne hPoint _).trans (fraction_of_ne hPoint _).symm

/-- A sign at the start of an exponent belongs to it. -/
theorem exponentDigits_append (chars : List Char) (hSign : chars = [] → Breaks rest) :
    exponentDigits (chars ++ rest) = exponentDigits chars := by
  have hDigit := not_isDigit_of_parts hParts
  cases chars with
  | nil =>
      cases rest with
      | nil => rfl
      | cons c tail =>
          obtain ⟨_, hPlus, hMinus, _⟩ := hSign rfl
          rw [List.nil_append, exponentDigits, exponentDigits, if_neg (by simp [hPlus, hMinus]),
            List.takeWhile_cons, if_neg (by simp [hDigit c rfl])]
  | cons c digits =>
      rw [List.cons_append, exponentDigits, exponentDigits, ← List.cons_append,
        takeWhile_append_of_head hDigit, takeWhile_append_of_head hDigit]

/-- An exponent ends in front of what breaks it off. -/
theorem exponent_append (chars : List Char) (hSign : endsInMark chars = true → Breaks rest) :
    exponent (chars ++ rest) = exponent chars := by
  cases chars with
  | nil =>
      cases rest with
      | nil => rfl
      | cons c tail =>
          have hMark : ¬ (c == 'e' || c == 'E') = true := by
            intro hMark
            have hWord := hParts.1
            rcases (by simpa using hMark : c = 'e' ∨ c = 'E') with rfl | rfl <;>
              exact absurd hWord (by decide)
          rw [List.nil_append, exponent, exponent, if_neg hMark]
  | cons c digits =>
      rw [List.cons_append, exponent, exponent]
      split
      next hMark =>
        rw [exponentDigits_append hParts]
        rintro rfl
        exact hSign hMark
      next => rfl

/-- A decimal number ends in front of what parts it off. -/
theorem decimal_append (chars : List Char) (hSign : endsInMark chars = true → Breaks rest) :
    decimal (chars ++ rest) = decimal chars := by
  have hWhole : (chars ++ rest).takeWhile Char.isDigit = chars.takeWhile Char.isDigit :=
    takeWhile_append_of_head (not_isDigit_of_parts hParts) chars
  have hWholeLength := (List.takeWhile_sublist (l := chars) Char.isDigit).length_le
  have hPart := length_fraction_le (chars.drop (chars.takeWhile Char.isDigit).length)
  rw [List.length_drop] at hPart
  unfold decimal
  simp only [hWhole, List.drop_append_of_le_length hWholeLength, fraction_append hParts]
  rw [List.drop_append_of_le_length (by omega), exponent_append hParts]
  intro hMark
  refine hSign ?_
  rw [endsInMark, List.getLast?_drop] at hMark
  split at hMark
  · cases hMark
  · exact hMark

/-- Behind a number stands nothing that belongs to it. -/
theorem number_append (c : Char) (digits : List Char)
    (hSign : number (c :: digits) = decimal (c :: digits) → endsInMark (c :: digits) = true →
      Breaks rest) :
    number (c :: digits ++ rest) = number (c :: digits) := by
  by_cases hZero : c = '0'
  · subst hZero
    match digits, rest, hParts, hSign with
    | [], [], _, _ => rfl
    | [], mark :: tail, hParts, hSign =>
        have hNone := baseDigits_of_not_isWordChar hParts.1
        rw [List.singleton_append, number_zero, hNone]
        exact decimal_append hParts ['0'] (hSign rfl)
    | mark :: digits, rest, hParts, hSign =>
        rw [number_zero] at hSign
        rw [List.cons_append, List.cons_append, number_zero, number_zero]
        cases hBase : baseDigits mark with
        | none =>
            rw [hBase] at hSign
            exact decimal_append hParts ('0' :: mark :: digits) (hSign rfl)
        | some isBaseDigit =>
            have hRest : ∀ c, rest.head? = some c → isBaseDigit c = false := by
              intro c hHead
              have hWord := not_isWordChar_of_parts hParts c hHead
              rw [Bool.eq_false_iff]
              intro hDigit
              have hHex := isWordChar_of_isHexDigit (isHexDigit_of_baseDigits hBase hDigit)
              rw [hWord] at hHex
              cases hHex
            dsimp only
            rw [takeWhile_append_of_head hRest]
  · rw [number_of_ne hZero] at hSign
    rw [List.cons_append, number_of_ne hZero, number_of_ne hZero, ← List.cons_append,
      decimal_append hParts _ (hSign rfl)]

end Parting

theorem isWordChar_head {rest : List Char} (hBreaks : Breaks rest) :
    ∀ c, rest.head? = some c → isWordChar c = false := not_isWordChar_of_parts hBreaks.parts

/-- A decimal integer ends in a digit. -/
theorem endsInMark_of_decimal {chars : List Char} (hInt : decimal chars = plain .int chars) :
    endsInMark chars = false := by
  have hKind : (decimal chars).kind = .int := by rw [hInt]; rfl
  have hLiteral : (decimal chars).literal = chars := by rw [hInt]; rfl
  unfold decimal at hKind hLiteral
  simp only [plain] at hKind hLiteral
  split at hKind
  next hEmpty =>
    rw [Bool.and_eq_true, List.isEmpty_iff, List.isEmpty_iff] at hEmpty
    rw [hEmpty.1] at hLiteral hEmpty
    rw [hEmpty.2, List.append_nil, List.append_nil] at hLiteral
    rw [endsInMark, ← hLiteral]
    cases hLast : (chars.takeWhile Char.isDigit).getLast? with
    | none => rfl
    | some c =>
        have hDigit := List.all_eq_true.mp List.all_takeWhile c (List.mem_of_getLast? hLast)
        rw [Option.any_some, Bool.eq_false_iff]
        intro hMark
        rcases (by simpa using hMark : c = 'e' ∨ c = 'E') with rfl | rfl <;>
          exact absurd hDigit (by decide)
  next => cases hKind

end Lexeme

/-! ### The pieces of a text -/

def isWord : List Char → Bool
  | [] => false
  | c :: rest => isWordStart c && rest.all isWordChar

/-- Whether a text is a name: a word that is not reserved. -/
def isName (name : String) : Bool := isWord name.toList && TokenKind.ofWord name == .ident

/-- Whether a text is one number of a kind, with nothing left over. -/
def isNumber (kind : TokenKind) (literal : String) : Bool :=
  (literal.toList.head?.any Char.isDigit)
    && Lexeme.number literal.toList == Lexeme.plain kind literal.toList

/-- Whether a text is the content of a literal that a quote closes. -/
def isQuoted (quote : Char) (content : String) : Bool :=
  Lexeme.quotedContent quote (content.toList ++ [quote]) == content.toList

section Pieces

variable {rest : List Char}

/-- A word is divided off from what does not continue it. -/
theorem spellings_word {word : List Char} (hWord : isWord word = true)
    (hRest : ∀ c, rest.head? = some c → isWordChar c = false) :
    spellings (word ++ rest) =
      (TokenKind.ofWord (String.ofList word), String.ofList word) :: spellings rest := by
  cases word with
  | nil => cases hWord
  | cons c letters =>
      obtain ⟨hStart, hLetters⟩ : isWordStart c = true ∧ letters.all isWordChar = true := by
        simpa [isWord] using hWord
      have hTaken : (c :: letters ++ rest).takeWhile isWordChar = c :: letters := by
        rw [Lexeme.takeWhile_append_of_head hRest]
        have hAll : ∀ d ∈ c :: letters, isWordChar d = true := by
          intro d hMem
          rcases List.mem_cons.mp hMem with rfl | hMem
          · exact Lexeme.isWordChar_of_isWordStart hStart
          · exact List.all_eq_true.mp hLetters d hMem
        rw [← List.append_nil (c :: letters), List.takeWhile_append_of_pos hAll]
        rfl
      refine spellings_piece ?_ ?_
      · rw [Bool.eq_false_iff]
        intro hBlank
        simp only [isBlank, Bool.or_eq_true, beq_iff_eq] at hBlank
        rcases hBlank with ((rfl | rfl) | rfl) | rfl <;> exact absurd hStart (by decide)
      · rw [List.cons_append, Lexeme.scan, if_pos hStart, Lexeme.word, ← List.cons_append, hTaken]
        rfl

/-- A name is one word in front of anything that does not go on with it. -/
theorem spellings_name {name : String} (hName : isName name = true)
    (hRest : ∀ c, rest.head? = some c → isWordChar c = false) :
    spellings (name.toList ++ rest) = (.ident, name) :: spellings rest := by
  obtain ⟨hWord, hKind⟩ : isWord name.toList = true ∧ TokenKind.ofWord name = .ident := by
    simpa [isName] using hName
  rw [spellings_word hWord hRest, String.ofList_toList, hKind]

theorem isWordStart_of_isDigit {c : Char} (hDigit : c.isDigit = true) : isWordStart c = false := by
  have hLine : c ≠ '_' := by
    rintro rfl
    exact absurd hDigit (by decide)
  simp only [Char.isDigit, Bool.and_eq_true, decide_eq_true_eq, UInt32.le_iff_toNat_le] at hDigit
  simp only [isWordStart, isAlpha_eq, Bool.or_eq_false_iff,
    Bool.and_eq_false_iff, decide_eq_false_iff_not, UInt32.le_iff_toNat_le, ge_iff_le,
    beq_eq_false_iff_ne]
  have hBounds : '9'.val.toNat = 57 ∧ 'A'.val.toNat = 65 ∧ 'a'.val.toNat = 97 := ⟨rfl, rfl, rfl⟩
  grind

/-- A number is divided off from what does not continue it. A sign continues a number that ends
in the mark of an exponent, which no integer does. -/
theorem spellings_number_of_parts {kind : TokenKind} {literal : String}
    (hNumber : isNumber kind literal = true) (hParts : Parts rest)
    (hSign : kind = .int ∨ endsInMark literal.toList = false ∨ Breaks rest) :
    spellings (literal.toList ++ rest) = (kind, literal) :: spellings rest := by
  obtain ⟨hHead, hScan⟩ : literal.toList.head?.any Char.isDigit = true
      ∧ Lexeme.number literal.toList = Lexeme.plain kind literal.toList := by
    simpa only [isNumber, Bool.and_eq_true, beq_iff_eq] using hNumber
  cases hChars : literal.toList with
  | nil =>
      rw [hChars] at hHead
      cases hHead
  | cons c digits =>
      rw [hChars] at hHead hScan hSign
      have hDigit : c.isDigit = true := by simpa using hHead
      have hBreaks : Lexeme.number (c :: digits) = Lexeme.decimal (c :: digits) →
          endsInMark (c :: digits) = true → Breaks rest := by
        intro hDecimal hMark
        rcases hSign with rfl | hSign | hSign
        · rw [Lexeme.endsInMark_of_decimal (hDecimal.symm.trans hScan)] at hMark
          cases hMark
        · rw [hSign] at hMark
          cases hMark
        · exact hSign
      have hPiece : Lexeme.scan (c :: digits ++ rest) = ⟨kind, c :: digits, c :: digits⟩ := by
        rw [List.cons_append, Lexeme.scan, if_neg (by simp [isWordStart_of_isDigit hDigit]),
          if_pos hDigit, ← List.cons_append, Lexeme.number_append hParts c digits hBreaks, hScan]
        rfl
      have hBlank : isBlank c = false := by
        rw [Bool.eq_false_iff]
        intro hBlank
        simp only [isBlank, Bool.or_eq_true, beq_iff_eq] at hBlank
        rcases hBlank with ((rfl | rfl) | rfl) | rfl <;> exact absurd hDigit (by decide)
      rw [spellings_piece hBlank hPiece, ← hChars, String.ofList_toList]

/-- A number is one word in front of anything that breaks it off. -/
theorem spellings_number {kind : TokenKind} {literal : String}
    (hNumber : isNumber kind literal = true) (hBreaks : Breaks rest) :
    spellings (literal.toList ++ rest) = (kind, literal) :: spellings rest :=
  spellings_number_of_parts hNumber hBreaks.parts (Or.inr (Or.inr hBreaks))

section Quotes

variable {quote : Char} (hQuote : quote ≠ '\\')

/-- A quotation ends at its mark. -/
theorem quotedContent_quote (tail : List Char) :
    Lexeme.quotedContent quote (quote :: tail) = [] := by
  rw [Lexeme.quotedContent.eq_def]
  simp

theorem quotedContent_other {c : Char} (hEnd : c ≠ quote) (hEscape : c ≠ '\\') (tail : List Char) :
    Lexeme.quotedContent quote (c :: tail) = c :: Lexeme.quotedContent quote tail := by
  rw [Lexeme.quotedContent.eq_def]
  simp [hEnd, hEscape]

include hQuote

/-- A backslash takes the next character into the quotation. -/
theorem quotedContent_escape (d : Char) (tail : List Char) :
    Lexeme.quotedContent quote ('\\' :: d :: tail) =
      '\\' :: d :: Lexeme.quotedContent quote tail := by
  rw [Lexeme.quotedContent.eq_def]
  simp [hQuote.symm]

/-- The first quote that closes a content does so whatever follows. -/
theorem quotedContent_append :
    (content : List Char) → Lexeme.quotedContent quote (content ++ [quote]) = content →
      Lexeme.quotedContent quote (content ++ quote :: rest) = content
  | [], _ => quotedContent_quote rest
  | c :: content, hClosed => by
      by_cases hEnd : c = quote
      · subst hEnd
        rw [List.cons_append, quotedContent_quote] at hClosed
        cases hClosed
      by_cases hEscape : c = '\\'
      · subst hEscape
        cases content with
        | nil =>
            rw [List.singleton_append, quotedContent_escape hQuote] at hClosed
            cases hClosed
        | cons d content =>
            rw [List.cons_append, List.cons_append, quotedContent_escape hQuote] at hClosed ⊢
            rw [quotedContent_append content (by simpa using hClosed)]
      · rw [List.cons_append, quotedContent_other hEnd hEscape] at hClosed ⊢
        rw [quotedContent_append content (by simpa using hClosed)]

end Quotes

/-- A delimited literal is divided off if its content ends at the delimiter. -/
theorem spellings_delimited {mark : Char} (kind : TokenKind) {content : List Char}
    (hBlank : isBlank mark = false)
    (hScan : Lexeme.scan (mark :: (content ++ mark :: rest)) =
      Lexeme.delimited kind mark content (content ++ mark :: rest)) :
    spellings (mark :: (content ++ mark :: rest)) =
      (kind, String.ofList content) :: spellings rest := by
  have hPiece : Lexeme.scan (mark :: (content ++ [mark]) ++ rest) =
      ⟨kind, content, mark :: (content ++ [mark])⟩ := by
    rw [List.cons_append, List.append_assoc, List.singleton_append, hScan, Lexeme.delimited,
      List.drop_left]
    rfl
  have hSpellings := spellings_piece hBlank hPiece
  rwa [List.cons_append, List.append_assoc, List.singleton_append] at hSpellings

/-- A string in quotes is one word. -/
theorem spellings_string {value : String} (hValue : isQuoted '"' value = true) :
    spellings ('"' :: (value.toList ++ '"' :: rest)) = (.string, value) :: spellings rest := by
  have hContent : Lexeme.quotedContent '"' (value.toList ++ '"' :: rest) = value.toList :=
    quotedContent_append (by decide) _ (by simpa [isQuoted] using hValue)
  rw [spellings_delimited .string (by decide)
    (by rw [Lexeme.scan]; simp [isWordStart, hContent]), String.ofList_toList]

/-- A character in quotes is one word. -/
theorem spellings_char {value : String} (hValue : isQuoted '\'' value = true) :
    spellings ('\'' :: (value.toList ++ '\'' :: rest)) = (.char, value) :: spellings rest := by
  have hContent : Lexeme.quotedContent '\'' (value.toList ++ '\'' :: rest) = value.toList :=
    quotedContent_append (by decide) _ (by simpa [isQuoted] using hValue)
  rw [spellings_delimited .char (by decide)
    (by rw [Lexeme.scan]; simp [isWordStart, hContent]), String.ofList_toList]

/-- A raw string is one word. -/
theorem spellings_raw {value : String} (hValue : backtick ∉ value.toList) :
    spellings (backtick :: (value.toList ++ backtick :: rest)) =
      (.rawString, value) :: spellings rest := by
  have hContent : (value.toList ++ backtick :: rest).takeWhile (· != backtick) = value.toList := by
    have hAll : ∀ c ∈ value.toList, (c != backtick) = true := by
      intro c hMem
      rw [bne_iff_ne]
      rintro rfl
      exact hValue hMem
    rw [List.takeWhile_append_of_pos hAll]
    simp
  rw [spellings_delimited .rawString (by decide)
    (by rw [Lexeme.scan, hContent]; rfl), String.ofList_toList]

/-- A lexeme whose literal is its whole span is divided off as it is. -/
theorem spellings_plain (word : List Char) (kind : TokenKind)
    (hBlank : word.head?.map isBlank = some false)
    (hScan : Lexeme.scan (word ++ rest) = Lexeme.plain kind word) :
    spellings (word ++ rest) = (kind, String.ofList word) :: spellings rest := by
  cases word with
  | nil => cases hBlank
  | cons c piece => exact spellings_piece (by simpa using hBlank) hScan

/-- The delimiters that start no longer operator. -/
def loneDelimiters : List (Char × TokenKind) :=
  [('(', .lparen), (')', .rparen), ('[', .lbracket), (']', .rbracket), ('{', .lbrace),
   ('}', .rbrace), (',', .comma), (';', .semicolon)]

/-- A bracket, comma or the like is a word by itself. -/
theorem spellings_delimiter {c : Char} (kind : TokenKind) (hDelimiter : (c, kind) ∈ loneDelimiters)
    (rest : List Char) :
    spellings (c :: rest) = (kind, String.ofList [c]) :: spellings rest := by
  simp only [loneDelimiters, List.mem_cons, Prod.mk.injEq, List.not_mem_nil, or_false] at hDelimiter
  rcases hDelimiter with ⟨rfl, rfl⟩ | ⟨rfl, rfl⟩ | ⟨rfl, rfl⟩ | ⟨rfl, rfl⟩ | ⟨rfl, rfl⟩ | ⟨rfl, rfl⟩
    | ⟨rfl, rfl⟩ | ⟨rfl, rfl⟩ <;> exact spellings_plain [_] _ rfl rfl

/-- The operators that are the start of longer ones, each with the characters that would make
it longer. -/
def shortOperators : List (Char × TokenKind × List Char) :=
  [('!', .bang, ['=']), ('-', .minus, ['=', '-', '>']), ('^', .bitXor, ['=']),
   ('*', .asterisk, ['=']), ('.', .dot, ['.'])]

/-- A short operator is divided off from what does not make it longer. -/
theorem spellings_shortOperator {op : Char} (kind : TokenKind) (longer : List Char)
    (hOp : (op, kind, longer) ∈ shortOperators)
    (hRest : ∀ c, rest.head? = some c → c ∉ longer) :
    spellings (op :: rest) = (kind, String.ofList [op]) :: spellings rest := by
  have hPiece : isBlank op = false ∧ Lexeme.scan (op :: rest) = Lexeme.plain kind [op] := by
    cases rest with
    | nil =>
        revert hOp
        simp only [shortOperators, List.mem_cons, Prod.mk.injEq, List.not_mem_nil, or_false]
        rintro (⟨rfl, rfl, rfl⟩ | ⟨rfl, rfl, rfl⟩ | ⟨rfl, rfl, rfl⟩ | ⟨rfl, rfl, rfl⟩
          | ⟨rfl, rfl, rfl⟩) <;> exact ⟨rfl, rfl⟩
    | cons c tail =>
        have hNext : ∀ d ∈ longer, (d == c) = false := by
          rintro d hMem
          rw [beq_eq_false_iff_ne]
          rintro rfl
          exact hRest d rfl hMem
        clear hRest
        revert hOp
        simp only [shortOperators, List.mem_cons, Prod.mk.injEq, List.not_mem_nil, or_false]
        rintro (⟨rfl, rfl, rfl⟩ | ⟨rfl, rfl, rfl⟩ | ⟨rfl, rfl, rfl⟩ | ⟨rfl, rfl, rfl⟩
          | ⟨rfl, rfl, rfl⟩) <;> refine ⟨rfl, ?_⟩ <;>
          simp_all [-beq_eq_false_iff_ne, Lexeme.scan, isWordStart, backtick, Lexeme.operator,
            TokenKind.operators, List.find?, List.isPrefixOf]
  exact spellings_plain [op] kind (by simp [hPiece.1]) hPiece.2

/-- A name starts as a word does. -/
theorem exists_head_of_isName {name : String} (hName : isName name = true) :
    ∃ c tail, name.toList = c :: tail ∧ isWordStart c = true := by
  obtain ⟨hWord, -⟩ : isWord name.toList = true ∧ TokenKind.ofWord name = .ident := by
    simpa [isName] using hName
  cases hChars : name.toList with
  | nil =>
      rw [hChars] at hWord
      cases hWord
  | cons c tail =>
      rw [hChars] at hWord
      have hBoth : isWordStart c = true ∧ tail.all isWordChar = true := by
        simpa [isWord] using hWord
      exact ⟨c, tail, rfl, hBoth.1⟩

/-- A point and the name behind it are divided off. -/
theorem spellings_point {name : String} (hName : isName name = true)
    (hRest : ∀ c, rest.head? = some c → isWordChar c = false) :
    spellings ('.' :: (name.toList ++ rest)) =
      (.dot, ".") :: (.ident, name) :: spellings rest := by
  obtain ⟨c, tail, hChars, hStart⟩ := exists_head_of_isName hName
  have hPoint : ∀ d, (name.toList ++ rest).head? = some d → d ∉ ['.'] := by
    intro d hHead hMem
    obtain rfl : c = d := by simpa [hChars] using hHead
    obtain rfl : c = '.' := by simpa using hMem
    exact absurd hStart (by decide)
  rw [spellings_shortOperator .dot ['.'] (by decide) hPoint, spellings_name hName hRest]

def operatorKind (op : String) : TokenKind := (TokenKind.operators.lookup op.toList).getD .illegal

def binaryOperators : List String := Precedence.ofOperators.map Prod.fst

/-- A binary operator with a blank behind it is divided off. -/
theorem spellings_infix {op : String} (hOp : op ∈ binaryOperators)
    (rest : List Char) :
    spellings (op.toList ++ ' ' :: rest) = (operatorKind op, op) :: spellings rest := by
  have hPlain : op.toList.head?.map isBlank = some false
      ∧ Lexeme.scan (op.toList ++ ' ' :: rest) = Lexeme.plain (operatorKind op) op.toList := by
    simp only [binaryOperators, Precedence.ofOperators, List.map_cons, List.map_nil,
      List.mem_cons, List.not_mem_nil, or_false] at hOp
    rcases hOp with rfl | rfl | rfl | rfl | rfl | rfl | rfl | rfl | rfl | rfl | rfl | rfl | rfl
      | rfl | rfl | rfl | rfl | rfl <;> exact ⟨rfl, rfl⟩
  rw [spellings_plain op.toList _ hPlain.1 hPlain.2, String.ofList_toList,
    spellings_blank (by decide)]

end Pieces

end TryGo
