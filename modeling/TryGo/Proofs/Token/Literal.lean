import Mathlib.Data.List.TakeWhile
import TryGo.Proofs.Token.Spelling

/-! What the literals of tokens look like. A keyword, an operator and a delimiter is spelled in
one way only, a comment carries its marks, and a name, a number or a raw string has a literal
that would be divided off as such again. This holds of every token that a text is divided
into, and none of these tokens is an end mark.

Only a quoted literal may differ from all that are closed, if the text breaks off behind a
backslash in it. -/
namespace TryGo

/-- The spelling of a kind that has only one. -/
def TokenKind.fixed? (kind : TokenKind) : Option String :=
  match kind.keyword? with
  | some word => some word
  | none => (TokenKind.operators.find? fun entry => entry.2 == kind).map
      fun entry => String.ofList entry.1

/-- Whether a name, a number or a raw string has a literal of its kind. -/
def Token.FreeForm (token : Token) : Prop :=
  match token.kind with
  | .ident => isName token.literal = true
  | .int => isNumber .int token.literal = true
  | .float => isNumber .float token.literal = true
  | .rawString => backtick ∉ token.literal.toList
  | _ => True

/-- Whether the literal of a token is one that its kind can have. -/
structure Token.Lexed (token : Token) : Prop where
  fixed : ∀ text, token.kind.fixed? = some text → token.literal = text
  line : token.kind = .comment → ['/', '/'] <+: token.literal.toList
  block : token.kind = .blockComment → ['/', '*'] <+: token.literal.toList
  inside : token.kind ≠ .eof
  free : token.FreeForm

/-- A token of a kind with a fixed text has that text. -/
theorem Token.Lexed.literal_eq {token : Token} (hLexed : token.Lexed) {kind : TokenKind}
    (hKind : token.kind = kind) {text : String} (hFixed : kind.fixed? = some text) :
    token.literal = text := hLexed.fixed text (by rw [hKind, hFixed])

def AllLexed (tokens : List Token) : Prop := ∀ token ∈ tokens, token.Lexed

@[simp] theorem allLexed_nil : AllLexed [] := fun _ hMem => absurd hMem List.not_mem_nil

@[simp] theorem allLexed_cons {token : Token} {tokens : List Token} :
    AllLexed (token :: tokens) ↔ token.Lexed ∧ AllLexed tokens := List.forall_mem_cons

@[simp] theorem allLexed_append {tokens more : List Token} :
    AllLexed (tokens ++ more) ↔ AllLexed tokens ∧ AllLexed more := List.forall_mem_append

/-- A token whose kind has no fixed spelling and no marks may have any literal of its kind. -/
theorem Token.lexed_of_free {token : Token} (kind : TokenKind) (hKind : token.kind = kind)
    (hFixed : kind.fixed? = none) (hMarks : kind ∉ [.comment, .blockComment, .eof])
    (hForm : token.FreeForm) : token.Lexed := by
  simp only [List.mem_cons, List.not_mem_nil, or_false, not_or, ← hKind] at hMarks
  refine ⟨fun text hSome => ?_, fun hLine => absurd hLine hMarks.1,
    fun hBlock => absurd hBlock hMarks.2.1, hMarks.2.2, hForm⟩
  rw [hKind, hFixed] at hSome
  cases hSome

/-- A token that is spelled as its kind always is. -/
theorem Token.lexed_of_fixed {token : Token} (hFixed : token.kind.fixed? = some token.literal)
    (hMarks : token.kind ∉ [.comment, .blockComment, .eof]) : token.Lexed := by
  simp only [List.mem_cons, List.not_mem_nil, or_false, not_or] at hMarks
  refine ⟨fun text hSome => ?_, fun hLine => absurd hLine hMarks.1,
    fun hBlock => absurd hBlock hMarks.2.1, hMarks.2.2, ?_⟩
  · rw [hFixed] at hSome
    exact Option.some.inj hSome
  · have hFree : ∀ kind ∈ [TokenKind.ident, .int, .float, .rawString], kind.fixed? = none := by
      decide
    unfold Token.FreeForm
    split
    case h_5 => trivial
    all_goals
      next hKind =>
        rw [hKind, hFree _ (by decide)] at hFixed
        cases hFixed

namespace Lexeme

/-! ### Numbers on their own -/

/-- An exponent starts with its mark, if it is not empty. -/
theorem exponent_head (chars : List Char) :
    ∀ c, (exponent chars).head? = some c → c.isDigit = false ∧ c ≠ '.' := by
  intro c hHead
  cases chars with
  | nil => cases hHead
  | cons d rest =>
      rw [exponent] at hHead
      split at hHead
      next hMark =>
        cases hHead
        simp only [Bool.or_eq_true, beq_iff_eq] at hMark
        rcases hMark with rfl | rfl <;> exact ⟨by decide, by decide⟩
      next => cases hHead

/-- A fraction is empty or a point with digits behind it. -/
theorem fraction_cases (chars : List Char) : fraction chars = []
    ∨ ∃ d rest, d.isDigit = true ∧ fraction chars = '.' :: (d :: rest).takeWhile Char.isDigit := by
  unfold fraction
  split
  next d rest =>
    split
    next hDigit => exact Or.inr ⟨d, rest, hDigit, rfl⟩
    next => exact Or.inl rfl
  next => exact Or.inl rfl

theorem exponentDigits_self (chars : List Char) :
    exponentDigits (exponentDigits chars) = exponentDigits chars := by
  cases chars with
  | nil => rfl
  | cons c rest =>
      by_cases hSign : (c == '+' || c == '-') = true
      · simp only [exponentDigits, hSign, if_true, List.takeWhile_idem]
      · by_cases hDigit : c.isDigit = true
        · simp only [exponentDigits, hSign, Bool.false_eq_true, if_false, List.takeWhile_cons,
            hDigit, if_true, List.takeWhile_idem]
        · simp only [exponentDigits, hSign, Bool.false_eq_true, if_false, List.takeWhile_cons,
            hDigit]

/-- The exponent of an exponent is all of it. -/
theorem exponent_self (chars : List Char) : exponent (exponent chars) = exponent chars := by
  cases chars with
  | nil => rfl
  | cons c rest =>
      by_cases hMark : (c == 'e' || c == 'E') = true
      · simp only [exponent, hMark, if_true, exponentDigits_self]
      · simp only [exponent, hMark, Bool.false_eq_true, if_false]

/-- The fraction of a fraction is all of it, whatever exponent follows. -/
theorem fraction_self (chars power : List Char)
    (hPower : ∀ c, power.head? = some c → c.isDigit = false ∧ c ≠ '.') :
    fraction (fraction chars ++ power) = fraction chars := by
  rcases fraction_cases chars with hNone | ⟨d, rest, hDigit, hSome⟩
  · rw [hNone]
    cases power with
    | nil => rfl
    | cons c rest => exact fraction_of_ne (hPower c rfl).2 rest
  · have hDigits : ((d :: rest).takeWhile Char.isDigit ++ power).takeWhile Char.isDigit =
        (d :: rest).takeWhile Char.isDigit := by
      rw [takeWhile_append_of_head fun c hHead => (hPower c hHead).1, List.takeWhile_idem]
    rw [hSome]
    rw [List.takeWhile_cons, if_pos hDigit] at hDigits ⊢
    rw [List.cons_append, List.cons_append, fraction, if_pos hDigit, ← List.cons_append, hDigits]

/-- A decimal number is a decimal number on its own. -/
theorem decimal_span (chars : List Char) : decimal (decimal chars).span = decimal chars := by
  have hWhole : (chars.takeWhile Char.isDigit).takeWhile Char.isDigit =
      chars.takeWhile Char.isDigit := List.takeWhile_idem
  unfold decimal plain
  dsimp only
  generalize chars.takeWhile Char.isDigit = whole at *
  have hPartCases := fraction_cases (chars.drop whole.length)
  have hPart := fraction_self (chars.drop whole.length)
  generalize fraction (chars.drop whole.length) = part at *
  have hPowerHead := exponent_head (chars.drop (whole.length + part.length))
  have hPower := exponent_self (chars.drop (whole.length + part.length))
  generalize exponent (chars.drop (whole.length + part.length)) = power at *
  have hRest : ∀ c, (part ++ power).head? = some c → c.isDigit = false := by
    intro c hHead
    rcases hPartCases with rfl | ⟨d, rest, -, rfl⟩
    · exact (hPowerHead c hHead).1
    · obtain rfl : '.' = c := by simpa using hHead
      decide
  have hDigits : (whole ++ (part ++ power)).takeWhile Char.isDigit = whole := by
    rw [takeWhile_append_of_head hRest, hWhole]
  rw [List.append_assoc, hDigits, List.drop_left, hPart power hPowerHead, ← List.append_assoc,
    ← List.length_append, List.drop_left, hPower]

/-- The characters of decimal numbers. None of them marks a base. -/
def isDecimalChar (c : Char) : Bool := c.isDigit || ['.', 'e', 'E', '+', '-'].contains c

/-- No character of a decimal number announces another base. -/
theorem baseDigits_of_isDecimalChar {c : Char} (hDecimal : isDecimalChar c = true) :
    baseDigits c = none := by
  refine baseDigits_of_not_mem fun hMem => ?_
  simp only [List.mem_cons, List.not_mem_nil, or_false] at hMem
  rcases hMem with rfl | rfl | rfl | rfl | rfl | rfl <;> exact absurd hDecimal (by decide)

theorem isDecimalChar_digits (chars : List Char) :
    ∀ c ∈ chars.takeWhile Char.isDigit, isDecimalChar c = true := by
  intro c hMem
  simp [isDecimalChar, List.mem_takeWhile_imp hMem]

/-- An exponent has characters of a decimal number only. -/
theorem isDecimalChar_exponent (chars : List Char) :
    ∀ c ∈ exponent chars, isDecimalChar c = true := by
  have hDigits : ∀ rest : List Char, ∀ c ∈ exponentDigits rest, isDecimalChar c = true := by
    intro rest c hMem
    cases rest with
    | nil => cases hMem
    | cons d rest =>
        rw [exponentDigits] at hMem
        split at hMem
        next hSign =>
          rcases List.mem_cons.mp hMem with rfl | hMem
          · simp only [Bool.or_eq_true, beq_iff_eq] at hSign
            rcases hSign with rfl | rfl <;> decide
          · exact isDecimalChar_digits rest c hMem
        next => exact isDecimalChar_digits (d :: rest) c hMem
  intro c hMem
  cases chars with
  | nil => cases hMem
  | cons d rest =>
      rw [exponent] at hMem
      split at hMem
      next hMark =>
        rcases List.mem_cons.mp hMem with rfl | hMem
        · simp only [Bool.or_eq_true, beq_iff_eq] at hMark
          rcases hMark with rfl | rfl <;> decide
        · exact hDigits rest c hMem
      next => cases hMem

/-- So has a decimal number as a whole. -/
theorem isDecimalChar_decimal (chars : List Char) :
    ∀ c ∈ (decimal chars).span, isDecimalChar c = true := by
  intro c hMem
  simp only [decimal, plain, List.mem_append] at hMem
  rcases hMem with (hWhole | hPart) | hPower
  · exact isDecimalChar_digits chars c hWhole
  · rcases fraction_cases (chars.drop (chars.takeWhile Char.isDigit).length) with
      hNone | ⟨d, rest, -, hSome⟩
    · rw [hNone] at hPart
      cases hPart
    · rw [hSome] at hPart
      rcases List.mem_cons.mp hPart with rfl | hPart
      · decide
      · exact isDecimalChar_digits _ c hPart
  · exact isDecimalChar_exponent _ c hPower

/-- A number without the mark of a base is decimal. -/
theorem number_eq_decimal {chars : List Char}
    (hPlain : ∀ mark rest, chars = '0' :: mark :: rest → baseDigits mark = none) :
    number chars = decimal chars := by
  unfold number
  split
  next mark rest => rw [hPlain mark rest rfl]
  next => rfl

/-- A number is a number on its own. -/
theorem number_span (chars : List Char) : number (number chars).span = number chars := by
  by_cases hPlain : ∀ mark rest, chars = '0' :: mark :: rest → baseDigits mark = none
  · rw [number_eq_decimal hPlain, number_eq_decimal, decimal_span]
    intro mark rest hSpan
    exact baseDigits_of_isDecimalChar (isDecimalChar_decimal chars mark (by simp [hSpan]))
  · simp only [Classical.not_forall] at hPlain
    obtain ⟨mark, rest, rfl, hBase⟩ := hPlain
    obtain ⟨isBaseDigit, hBase⟩ := Option.ne_none_iff_exists'.mp hBase
    simp only [number_zero, hBase, plain, List.takeWhile_idem]

/-- The characters of numbers: those of words, the point and the signs. -/
def isNumberChar (c : Char) : Bool := isWordChar c || ['.', '+', '-'].contains c

theorem isNumberChar_of_isDecimalChar {c : Char} (hDecimal : isDecimalChar c = true) :
    isNumberChar c = true := by
  simp only [isDecimalChar, List.contains_cons, List.contains_nil, Bool.or_eq_true, beq_iff_eq,
    Bool.or_false] at hDecimal
  rcases hDecimal with hDigit | rfl | rfl | rfl | rfl | rfl
  · simp [isNumberChar, isWordChar, Char.isAlphanum, hDigit]
  all_goals decide

/-- A number has characters of a number only. -/
theorem isNumberChar_number (chars : List Char) :
    ∀ c ∈ (number chars).span, isNumberChar c = true := by
  intro c hMem
  by_cases hPlain : ∀ mark rest, chars = '0' :: mark :: rest → baseDigits mark = none
  · rw [number_eq_decimal hPlain] at hMem
    exact isNumberChar_of_isDecimalChar (isDecimalChar_decimal chars c hMem)
  · simp only [Classical.not_forall] at hPlain
    obtain ⟨mark, rest, rfl, hBase⟩ := hPlain
    obtain ⟨isBaseDigit, hBase⟩ := Option.ne_none_iff_exists'.mp hBase
    simp only [number_zero, hBase, plain, List.mem_cons] at hMem
    have hWord : isWordChar c = true := by
      rcases hMem with rfl | rfl | hDigit
      · decide
      · by_contra hOther
        rw [Bool.not_eq_true] at hOther
        rw [baseDigits_of_not_isWordChar hOther] at hBase
        cases hBase
      · exact isWordChar_of_isHexDigit
          (isHexDigit_of_baseDigits hBase (List.mem_takeWhile_imp hDigit))
    rw [isNumberChar, hWord, Bool.true_or]

/-- No number has a backslash in it. -/
theorem backslash_not_mem_number (chars : List Char) : '\\' ∉ (number chars).span :=
  fun hMem => absurd (isNumberChar_number chars _ hMem) (by decide)

/-! ### Tokens of lexemes -/

def token (pos : Position) (lexeme : Lexeme) : Token :=
  ⟨lexeme.kind, String.ofList lexeme.literal, pos⟩

variable (pos : Position)

/-- A word is a name or one of the keywords. -/
theorem lexed_word {c : Char} (hStart : isWordStart c = true) (tail : List Char) :
    ((word (c :: tail)).token pos).Lexed := by
  have hTable : ∀ entry ∈ TokenKind.keywords, entry.2.fixed? = some entry.1
      ∧ entry.2 ∉ [.comment, .blockComment, .eof] := by decide
  cases hFound : TokenKind.keywords.lookup (String.ofList ((c :: tail).takeWhile isWordChar)) with
  | none =>
      have hKind : ((word (c :: tail)).token pos).kind = .ident := by
        simp [word, Lexeme.token, plain, TokenKind.ofWord, hFound]
      refine Token.lexed_of_free .ident hKind (by decide) (by decide) ?_
      have hOfWord : TokenKind.ofWord (String.ofList ((c :: tail).takeWhile isWordChar)) = .ident :=
        hKind
      simp only [Token.FreeForm, hKind, isName, Bool.and_eq_true, beq_iff_eq]
      refine ⟨?_, hOfWord⟩
      simp only [Lexeme.token, word, plain, String.toList_ofList, List.takeWhile_cons,
        isWordChar_of_isWordStart hStart, if_true, isWord, hStart, Bool.true_and]
      exact List.all_eq_true.mpr fun d hMem => List.mem_takeWhile_imp hMem
  | some kind =>
      obtain ⟨before, after, hSplit, -⟩ := List.lookup_eq_some_iff.mp hFound
      obtain ⟨hFixed, hFree⟩ := hTable
        (String.ofList ((c :: tail).takeWhile isWordChar), kind) (by rw [hSplit]; simp)
      have hKind : ((word (c :: tail)).token pos).kind = kind := by
        simp [word, Lexeme.token, plain, TokenKind.ofWord, hFound]
      exact Token.lexed_of_fixed (by rw [hKind]; exact hFixed) (by rw [hKind]; exact hFree)

theorem kind_decimal (rest : List Char) :
    (decimal rest).kind = .int ∨ (decimal rest).kind = .float := by
  unfold decimal plain
  dsimp only
  split
  · exact Or.inl rfl
  · exact Or.inr rfl

/-- A number is an integer or a float. -/
theorem kind_number (rest : List Char) :
    (number rest).kind = .int ∨ (number rest).kind = .float := by
  unfold number
  split
  · split
    · exact Or.inl rfl
    · exact kind_decimal _
  · exact kind_decimal _

/-- A number is spelled by the very characters it takes. -/
theorem number_plain (chars : List Char) :
    number chars = plain (number chars).kind (number chars).span := by
  unfold number
  split
  · split <;> rfl
  · rfl

/-- Read by itself, a number takes all of its characters. -/
theorem isNumber_number {c : Char} (hDigit : c.isDigit = true) (tail : List Char) :
    isNumber (number (c :: tail)).kind (String.ofList (number (c :: tail)).literal) = true := by
  have hLiteral : (number (c :: tail)).literal = (number (c :: tail)).span := by
    rw [number_plain]
    rfl
  rw [isNumber, String.toList_ofList, hLiteral, number_span, Bool.and_eq_true]
  refine ⟨?_, by rw [← number_plain, beq_self_eq_true]⟩
  unfold number
  split
  · split
    · rfl
    · rfl
  · simp [decimal, plain, hDigit]

theorem lexed_number {c : Char} (hDigit : c.isDigit = true) (tail : List Char) :
    ((number (c :: tail)).token pos).Lexed := by
  have hNumber := isNumber_number hDigit tail
  rcases kind_number (c :: tail) with hKind | hKind
  all_goals
    refine Token.lexed_of_free _ hKind (by decide) (by decide) ?_
    rw [hKind] at hNumber
    simp only [Token.FreeForm, Lexeme.token, hKind]
    exact hNumber

/-- An operator is spelled as its kind demands. -/
theorem lexed_operator (rest : List Char) : ((operator rest).token pos).Lexed := by
  have hTable : ∀ entry ∈ TokenKind.operators, entry.2.fixed? = some (String.ofList entry.1)
      ∧ entry.2 ∉ [.comment, .blockComment, .eof] := by decide
  unfold operator
  split
  next span kind hFound =>
    obtain ⟨hFixed, hFree⟩ := hTable (span, kind) (List.mem_of_find?_eq_some hFound)
    exact Token.lexed_of_fixed hFixed hFree
  next => exact Token.lexed_of_free .illegal rfl (by decide) (by decide) trivial

/-- A slash is a division, or it opens a comment. -/
theorem lexed_slash (rest : List Char) : ((slash rest).token pos).Lexed := by
  unfold slash
  split
  next tail =>
    have hFixed : TokenKind.comment.fixed? = none := by decide
    refine ⟨fun text hSome => ?_, fun _ => ?_, fun hBlock => ?_, fun hEof => ?_, trivial⟩
    · exact absurd (hFixed.symm.trans hSome) (Option.some_ne_none text).symm
    · simp [Lexeme.token, plain]
    · cases hBlock
    · cases hEof
  next tail =>
    have hFixed : TokenKind.blockComment.fixed? = none := by decide
    refine ⟨fun text hSome => ?_, fun hLine => ?_, fun _ => ?_, fun hEof => ?_, trivial⟩
    · exact absurd (hFixed.symm.trans hSome) (Option.some_ne_none text).symm
    · cases hLine
    · simp [Lexeme.token, plain]
    · cases hEof
  next => exact lexed_operator pos _

/-- The token of the first lexeme of a text has a literal that its kind can have. -/
theorem lexed_scan (c : Char) (rest : List Char) : ((scan (c :: rest)).token pos).Lexed := by
  rw [scan]
  split
  next hStart => exact lexed_word pos hStart rest
  split
  next hDigit => exact lexed_number pos hDigit rest
  split
  · exact Token.lexed_of_free .string rfl (by decide) (by decide) trivial
  split
  · exact Token.lexed_of_free .char rfl (by decide) (by decide) trivial
  split
  · refine Token.lexed_of_free .rawString rfl (by decide) (by decide) ?_
    simp only [Token.FreeForm, Lexeme.token, delimited, String.toList_ofList]
    intro hMem
    simpa using List.mem_takeWhile_imp hMem
  split
  · exact lexed_slash pos rest
  · exact lexed_operator pos _

end Lexeme

/-- Every token of a text is the first lexeme of what is left of the text. -/
theorem exists_scan_of_mem_words (n : Nat) : (lexer : Lexer) → lexer.rest.length ≤ n →
    ∀ token ∈ lexer.words, ∃ pos c rest, (c :: rest) <:+ lexer.rest
      ∧ token = (Lexeme.scan (c :: rest)).token pos := by
  induction n with
  | zero =>
      intro lexer hLength token hMem
      have hNil : lexer.rest = [] := List.length_eq_zero_iff.mp (by omega)
      rw [Lexer.words_of_blank lexer (by rw [hNil]; rfl)] at hMem
      cases hMem
  | succ n ih =>
      intro lexer hLength token hMem
      cases hRest : lexer.rest.dropWhile isBlank with
      | nil =>
          rw [Lexer.words_of_blank lexer hRest] at hMem
          cases hMem
      | cons c rest =>
          have hSuffix : (c :: rest) <:+ lexer.rest := by
            rw [← hRest]
            exact List.dropWhile_suffix isBlank
          have hShorter := hSuffix.length_le
          have hSpan := List.length_pos_iff.mpr (Lexeme.span_scan_ne_nil c rest)
          obtain ⟨pos, pos', hWords⟩ := Lexer.words_of_scan lexer hRest
          rw [hWords] at hMem
          rcases List.mem_cons.mp hMem with rfl | hMem
          · exact ⟨pos, c, rest, hSuffix, rfl⟩
          · obtain ⟨pos, d, more, hMore, hToken⟩ := ih ⟨_, pos'⟩ (by
              rw [List.length_drop]
              omega) token hMem
            exact ⟨pos, d, more, (hMore.trans (List.drop_suffix _ _)).trans hSuffix, hToken⟩

/-- Each word of a text is scanned from some place of it. -/
theorem Lexer.exists_scan (lexer : Lexer) : ∀ token ∈ lexer.words, ∃ pos c rest,
    (c :: rest) <:+ lexer.rest ∧ token = (Lexeme.scan (c :: rest)).token pos :=
  exists_scan_of_mem_words lexer.rest.length lexer (Nat.le_refl _)

/-- Every token of a text has a literal that its kind can have. -/
theorem Lexer.lexed (lexer : Lexer) : ∀ token ∈ lexer.words, token.Lexed := by
  intro token hMem
  obtain ⟨pos, c, rest, -, rfl⟩ := lexer.exists_scan token hMem
  exact Lexeme.lexed_scan pos c rest

/-! ### Closed literals -/

/-- Whether a quoted literal ends where a quote would close it. One that breaks off behind a
backslash does not. -/
def Token.isClosed (token : Token) : Bool :=
  match token.kind with
  | .string => isQuoted '"' token.literal
  | .char => isQuoted '\'' token.literal
  | _ => true

/-- What a text does not end in, its tail does not end in. -/
theorem getLast?_of_cons_ne {c d : Char} {rest : List Char} (hLast : (c :: rest).getLast? ≠ some d) :
    rest.getLast? ≠ some d := by
  cases rest with
  | nil => exact (Option.some_ne_none d).symm
  | cons e rest => rwa [List.getLast?_cons_cons] at hLast

/-- A quoted literal that does not break off behind a backslash could be closed. -/
theorem quotedContent_closed {quote : Char} (hQuote : quote ≠ '\\') :
    (chars : List Char) → chars.getLast? ≠ some '\\' →
      Lexeme.quotedContent quote (Lexeme.quotedContent quote chars ++ [quote]) =
        Lexeme.quotedContent quote chars
  | [], _ => quotedContent_quote []
  | c :: rest, hLast => by
      by_cases hEnd : c = quote
      · subst hEnd
        rw [quotedContent_quote]
        exact quotedContent_quote []
      by_cases hEscape : c = '\\'
      · subst hEscape
        cases rest with
        | nil => exact absurd rfl hLast
        | cons d rest =>
            rw [quotedContent_escape hQuote, List.cons_append, List.cons_append,
              quotedContent_escape hQuote,
              quotedContent_closed hQuote rest (getLast?_of_cons_ne (getLast?_of_cons_ne hLast))]
      · rw [quotedContent_other hEnd hEscape, List.cons_append, quotedContent_other hEnd hEscape,
          quotedContent_closed hQuote rest (getLast?_of_cons_ne hLast)]

/-- Only a string or a character can be left open. -/
theorem Token.isClosed_of_kind {token : Token} (hKind : token.kind ∉ [.string, .char]) :
    token.isClosed = true := by
  unfold Token.isClosed
  split <;> simp_all

namespace Lexeme

def wordKinds : List TokenKind := .ident :: TokenKind.keywords.map Prod.snd

def operatorKinds : List TokenKind := .illegal :: TokenKind.operators.map Prod.snd

/-- A word is never a literal in quotes. -/
theorem kind_word_mem (rest : List Char) : (word rest).kind ∈ wordKinds := by
  change (TokenKind.keywords.lookup _).getD .ident ∈ _
  cases hFound : TokenKind.keywords.lookup (String.ofList (rest.takeWhile isWordChar)) with
  | none => exact List.mem_cons_self
  | some kind =>
      obtain ⟨before, after, hSplit, -⟩ := List.lookup_eq_some_iff.mp hFound
      have hMem : (String.ofList (rest.takeWhile isWordChar), kind) ∈ TokenKind.keywords := by
        rw [hSplit]
        exact List.mem_append_right _ List.mem_cons_self
      exact List.mem_cons_of_mem _ (List.mem_map_of_mem hMem)

/-- An operator is never a literal in quotes. -/
theorem kind_operator_mem (rest : List Char) : (operator rest).kind ∈ operatorKinds := by
  unfold operator
  split
  next span kind hFound =>
    exact List.mem_cons_of_mem _ (List.mem_map_of_mem (List.mem_of_find?_eq_some hFound))
  next => exact List.mem_cons_self

theorem isClosed_word (pos : Position) (rest : List Char) :
    ((word rest).token pos).isClosed = true := by
  have hTable : ∀ kind ∈ wordKinds, kind ∉ [TokenKind.string, .char] := by decide
  exact Token.isClosed_of_kind (hTable _ (kind_word_mem rest))

theorem isClosed_operator (pos : Position) (rest : List Char) :
    ((operator rest).token pos).isClosed = true := by
  have hTable : ∀ kind ∈ operatorKinds, kind ∉ [TokenKind.string, .char] := by decide
  exact Token.isClosed_of_kind (hTable _ (kind_operator_mem rest))

/-- A literal in quotes is closed unless the text ends in a backslash. -/
theorem isClosed_quoted (pos : Position) {kind : TokenKind} {quote : Char} {rest : List Char}
    (hKind : (kind, quote) ∈ [(TokenKind.string, '"'), (.char, '\'')])
    (hLast : rest.getLast? ≠ some '\\') :
    ((delimited kind quote (quotedContent quote rest) rest).token pos).isClosed = true := by
  simp only [List.mem_cons, Prod.mk.injEq, List.not_mem_nil, or_false] at hKind
  rcases hKind with ⟨rfl, rfl⟩ | ⟨rfl, rfl⟩
  all_goals
    simp only [Token.isClosed, Lexeme.token, delimited, isQuoted, String.toList_ofList, beq_iff_eq]
    exact quotedContent_closed (by decide) rest hLast

/-- The first token of a text that does not end in a backslash is closed. -/
theorem isClosed_scan (pos : Position) (c : Char) {rest : List Char}
    (hLast : rest.getLast? ≠ some '\\') : ((scan (c :: rest)).token pos).isClosed = true := by
  rw [scan]
  split
  · exact isClosed_word pos _
  split
  · refine Token.isClosed_of_kind ?_
    change (number (c :: rest)).kind ∉ _
    rcases kind_number (c :: rest) with hKind | hKind <;> rw [hKind] <;> decide
  split
  · exact isClosed_quoted pos (by decide) hLast
  split
  · exact isClosed_quoted pos (by decide) hLast
  split
  · rfl
  split
  · unfold slash
    split
    · rfl
    · rfl
    · exact isClosed_operator pos _
  · exact isClosed_operator pos _

end Lexeme

/-- A text that does not end in a backslash has only closed literals. -/
theorem Lexer.isClosed (lexer : Lexer) (hLast : lexer.rest.getLast? ≠ some '\\') :
    ∀ token ∈ lexer.words, token.isClosed = true := by
  intro token hMem
  obtain ⟨pos, c, rest, ⟨before, hText⟩, rfl⟩ := lexer.exists_scan token hMem
  have hRest : rest.getLast? ≠ some '\\' := by
    have hEnd : (c :: rest).getLast? ≠ some '\\' := by
      rw [← hText, List.getLast?_append] at hLast
      simpa using hLast
    exact getLast?_of_cons_ne hEnd
  exact Lexeme.isClosed_scan pos c hRest

end TryGo
