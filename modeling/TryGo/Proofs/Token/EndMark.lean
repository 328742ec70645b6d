import TryGo.Proofs.Token.Rejoin

/-! The characters that end tokens without being part of them. The literal of a quoted token leaves
out the quote that closes it, and that of a line comment the newline behind it. So a text has more
of these characters than the literals of its tokens, one more for each such token with others behind
it, and the bare literal of such a token does not stand for the token. That of any other token
does, where a bracket follows. -/
namespace TryGo

/-- Whether the literals of a kind leave out the character that ends them. -/
def TokenKind.omitsEnd : TokenKind → Bool
  | .string | .rawString | .char | .comment => true
  | _ => false

/-- The characters that end such literals. -/
def isEndMark (c : Char) : Bool := ['"', '\'', backtick, '\n'].contains c

theorem separates_rbracket : Separates ']' := ⟨by decide, by decide, by decide⟩

/-! ### One lexeme -/

namespace Lexical

variable {c : Char} {rest : List Char} {lexeme : Lexeme}

/-- The literal of a lexeme without delimiters is its span. -/
theorem literal_eq_span (hLexical : Lexical (c :: rest) lexeme)
    (hPlain : lexeme.kind.delimiter? = none) : lexeme.literal = lexeme.span := by
  obtain ⟨behind, -, hCovers⟩ := Lexeme.heads_scan c rest
  obtain rfl := Lexeme.eq_scan_of_lexical hLexical (List.cons_ne_nil c rest)
  have hSpan := hCovers Position.start
  simp only [Token.Covers, Lexeme.token, hPlain, String.toList_ofList] at hSpan
  exact hSpan.symm

/-- Of a lexeme with delimiters at least the first one is left out. -/
theorem countP_literal (hLexical : Lexical (c :: rest) lexeme) :
    lexeme.literal.countP isEndMark + (if lexeme.kind.delimiter?.isSome then 1 else 0)
      ≤ lexeme.span.countP isEndMark := by
  cases hDelimiter : lexeme.kind.delimiter? with
  | none =>
      rw [hLexical.literal_eq_span hDelimiter]
      exact Nat.le_refl _
  | some mark =>
      have hMark : isEndMark mark = true := by
        revert hDelimiter
        cases lexeme.kind <;> simp [TokenKind.delimiter?] <;> rintro rfl <;> decide
      obtain ⟨behind, -, hCovers⟩ := Lexeme.heads_scan c rest
      obtain rfl := Lexeme.eq_scan_of_lexical hLexical (List.cons_ne_nil c rest)
      have hSpan := hCovers Position.start
      simp only [Token.Covers, Lexeme.token, hDelimiter, String.toList_ofList] at hSpan
      rcases hSpan with hSpan | ⟨hSpan, -⟩
      · rw [hSpan, List.countP_cons_of_pos hMark, List.countP_append]
        simp
      · rw [hSpan, List.countP_cons_of_pos hMark]
        simp

/-- A line comment goes on to the end of its line. -/
theorem newline_behind (hLexical : Lexical (c :: rest) lexeme) (hComment : lexeme.kind = .comment)
    {behind : List Char} (hSplit : c :: rest = lexeme.span ++ behind) :
    behind = [] ∨ ∃ tail, behind = '\n' :: tail := by
  cases hLexical with
  | word _ _ hKind => exact absurd hComment hKind.not_comment.1
  | number _ _ hKind => exact absurd hComment hKind.not_comment.1
  | quoted hQuote =>
      obtain rfl : _ = TokenKind.comment := hComment
      exact absurd hQuote (by simp)
  | raw => cases hComment
  | @lineComment line after hLine =>
      obtain rfl : after = behind := by simpa [Lexeme.plain] using hSplit
      exact hLine.cut.imp_right fun hMeets => List.head?_eq_some_iff.mp hMeets
  | blockComment => cases hComment
  | operator _ hSpan => exact absurd hComment hSpan.not_comment.1
  | illegal => cases hComment

/-- A literal that leaves out its end has fewer end marks than the text up to the next token. -/
theorem exists_gap (hLexical : Lexical (c :: rest) lexeme) {behind : List Char}
    (hSplit : c :: rest = lexeme.span ++ behind) (hMore : behind ≠ []) :
    ∃ gap after, behind = gap ++ after ∧ (∀ d ∈ gap, isBlank d = true)
      ∧ lexeme.literal.countP isEndMark + (if lexeme.kind.omitsEnd then 1 else 0)
        ≤ (lexeme.span ++ gap).countP isEndMark := by
  have hLiteral := hLexical.countP_literal
  by_cases hComment : lexeme.kind = .comment
  · obtain hEnd | ⟨tail, rfl⟩ := hLexical.newline_behind hComment hSplit
    · exact absurd hEnd hMore
    refine ⟨['\n'], tail, rfl, List.forall_mem_singleton.mpr (by decide), ?_⟩
    have hNewline : ['\n'].countP isEndMark = 1 := rfl
    rw [List.countP_append, hNewline, hComment]
    rw [hComment] at hLiteral
    exact Nat.add_le_add_right hLiteral 1
  · have hOmits : lexeme.kind.omitsEnd = lexeme.kind.delimiter?.isSome := by
      revert hComment
      cases lexeme.kind <;> decide
    refine ⟨[], behind, rfl, by simp, ?_⟩
    rw [List.append_nil, hOmits]
    exact hLiteral

/-- In front of a bracket the bare literal of a lexeme without delimiters stands for itself. -/
theorem spellings_bracket (hLexical : Lexical (c :: rest) lexeme) (hHead : isBlank c = false)
    (hClosed : lexeme.Closed) (hWhole : lexeme.kind.omitsEnd = false) (pos : Position)
    (tail : List Char) :
    spellings (lexeme.literal ++ ']' :: tail) =
      (lexeme.token pos).spelling :: (.rbracket, "]") :: spellings tail := by
  have hPlain : lexeme.kind.delimiter? = none := by
    revert hWhole
    cases lexeme.kind <;> decide
  have hNoLine : lexeme.kind ≠ .comment := by
    intro hComment
    rw [hComment] at hWhole
    cases hWhole
  obtain ⟨span, behind, hSpan, -⟩ := hLexical.exists_span
  have hSelf := hLexical.self
  rw [hLexical.literal_eq_span hPlain]
  rw [hSpan] at hSelf ⊢
  have hLonger : Lexical (c :: span ++ ']' :: tail) lexeme :=
    hSelf.append hClosed separates_rbracket fun hComment => absurd hComment hNoLine
  rw [List.cons_append] at hLonger ⊢
  rw [spellings_lexeme hHead hLonger pos (by rw [hSpan]; rfl)]
  exact congrArg _ (spellings_delimiter .rbracket (by decide) tail)

end Lexical

/-! ### Whole texts -/

/-- A text with tokens starts with blanks and a lexeme. -/
theorem spellings_cases (chars : List Char) :
    spellings chars = [] ∨ ∃ gap c rest lexeme behind, (∀ d ∈ gap, isBlank d = true)
      ∧ Lexical (c :: rest) lexeme ∧ chars = gap ++ c :: rest ∧ c :: rest = lexeme.span ++ behind
      ∧ lexeme.span ≠ []
      ∧ spellings chars = (lexeme.kind, String.ofList lexeme.literal) :: spellings behind := by
  by_cases hMore : (Lexer.skipBlanks ⟨chars, Position.start⟩).rest = []
  · left
    rw [Lexer.rest_skipBlanks] at hMore
    rw [spellings, Lexer.words_of_blank _ hMore]
    rfl
  · right
    obtain ⟨gap, c, rest, behind, lexeme, hGap, hHead, hLexical, hSplit, hChars, -, -⟩ :=
      Lexer.exists_lexeme hMore
    obtain ⟨span, -, hSpan, -⟩ := hLexical.exists_span
    refine ⟨gap, c, rest, lexeme, behind, hGap, hLexical, hChars, hSplit, ?_, ?_⟩
    · rw [hSpan]
      exact List.cons_ne_nil c span
    · change chars = _ at hChars
      rw [hChars, spellings_blanks hGap, spellings_lexeme hHead hLexical Position.start hSplit]
      rfl

/-- How many end marks stand in the literals of some tokens. -/
def endMarks (words : List Spelling) : Nat :=
  (words.flatMap fun spelling => spelling.2.toList).countP isEndMark

@[simp] theorem endMarks_nil : endMarks [] = 0 := rfl

@[simp] theorem endMarks_cons (spelling : Spelling) (words : List Spelling) :
    endMarks (spelling :: words) = spelling.2.toList.countP isEndMark + endMarks words := by
  rw [endMarks, List.flatMap_cons, List.countP_append]
  rfl

@[simp] theorem endMarks_append (words more : List Spelling) :
    endMarks (words ++ more) = endMarks words + endMarks more := by
  rw [endMarks, List.flatMap_append, List.countP_append]
  rfl

/-- A text has an end mark for each one in the literals of its tokens, and one more for each literal
that leaves out its end, except perhaps the last. The induction is on the length of the text. -/
theorem countP_spellings (chars : List Char) :
    endMarks (spellings chars)
        + (spellings chars).dropLast.countP (fun spelling => spelling.1.omitsEnd)
      ≤ chars.countP isEndMark := by
  induction hLength : chars.length using Nat.strong_induction_on generalizing chars with
  | _ length ih =>
  subst hLength
  obtain hNone | ⟨gap, c, rest, lexeme, behind, hGap, hLexical, hChars, hSplit, hSpan, hWords⟩ :=
    spellings_cases chars
  · rw [hNone]
    exact Nat.zero_le _
  have hShorter : behind.length < chars.length := by
    have hPositive := List.length_pos_iff.mpr hSpan
    rw [hChars, hSplit]
    simp only [List.length_append]
    omega
  have hText : chars.countP isEndMark =
      gap.countP isEndMark + (lexeme.span.countP isEndMark + behind.countP isEndMark) := by
    rw [hChars, hSplit, List.countP_append, List.countP_append]
  rw [hWords, hText, endMarks_cons, String.toList_ofList]
  by_cases hLast : spellings behind = []
  · have hLiteral := hLexical.countP_literal
    rw [hLast]
    simp only [endMarks_nil, List.countP_nil, List.dropLast_singleton]
    omega
  · have hMore : behind ≠ [] := by
      rintro rfl
      exact hLast spellings_nil
    obtain ⟨blanks, after, rfl, hBlanks, hCount⟩ := hLexical.exists_gap hSplit hMore
    have hAfter := ih after.length (by
      rw [List.length_append] at hShorter
      omega) after rfl
    rw [spellings_blanks hBlanks] at hLast ⊢
    rw [List.dropLast_cons_of_ne_nil hLast, List.countP_cons]
    simp only [List.countP_append] at hCount ⊢
    omega

/-- So the tokens of a text with no more end marks than their literals have none that leaves out
its end, except perhaps the last. -/
theorem omitsEnd_of_countP {chars : List Char}
    (hCount : chars.countP isEndMark = endMarks (spellings chars)) :
    ∀ spelling ∈ (spellings chars).dropLast, spelling.1.omitsEnd = false := by
  have hLe := countP_spellings chars
  have hNone : (spellings chars).dropLast.countP (fun spelling => spelling.1.omitsEnd) = 0 := by
    omega
  intro spelling hMem
  simpa using List.countP_eq_zero.mp hNone spelling hMem

namespace Lexer

/-- Every token is a lexeme at its place, and one with tokens behind it has its closing mark. -/
theorem exists_closed (lexer : Lexer) : ∀ front token back, lexer.words = front ++ token :: back →
    ∃ c rest lexeme pos, isBlank c = false ∧ Lexical (c :: rest) lexeme
      ∧ token = lexeme.token pos ∧ (back ≠ [] → lexeme.Closed) := by
  fun_induction words lexer with
  | case1 => exact fun front token back hSplit => absurd hSplit.symm (by simp)
  | case2 lexer hMore ih =>
      intro front token back hSplit
      cases front with
      | nil =>
          obtain ⟨rfl, rfl⟩ := List.cons.inj hSplit
          obtain ⟨gap, c, rest, behind, lexeme, -, hHead, hLexical, hText, -, hToken, hLater⟩ :=
            exists_lexeme hMore
          refine ⟨c, rest, lexeme, _, hHead, hLexical, hToken, fun hBack => hLexical.closed ?_⟩
          have hBehind : behind ≠ [] := by
            rintro rfl
            rw [hLater] at hBack
            exact hBack (words_of_blank _ rfl)
          have hPositive := List.length_pos_iff.mpr hBehind
          rw [hText, List.length_append]
          omega
      | cons first front =>
          obtain ⟨-, hRest⟩ := List.cons.inj hSplit
          exact ih front token back hRest

end Lexer

end TryGo
