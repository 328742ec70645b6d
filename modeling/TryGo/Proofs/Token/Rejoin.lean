import TryGo.Proofs.Token.Newline

/-! Tokens delimit themselves. The spans of the tokens of a source may be taken out of it and put
together again with any blanks between them, as long as there is a newline in each gap: the tokens
are the same. Only the blanks that end the line of a line comment become part of that comment. -/
namespace TryGo

/-- The span of a token in its source: its literal, with its delimiters if its kind has them. The
closing one is missing if the source ends in front of it. -/
def Token.spanIn (source : String) (token : Token) : List Char :=
  (source.toList.drop token.pos.offset).take
    (token.literal.length + if token.kind.delimiter?.isSome then 2 else 0)

/-- Whether a text may stand between two tokens: blanks with a newline among them. -/
def IsGap (gap : List Char) : Prop := (∀ c ∈ gap, isBlank c = true) ∧ '\n' ∈ gap

instance (gap : List Char) : Decidable (IsGap gap) :=
  decidable_of_iff (gap.all isBlank = true ∧ '\n' ∈ gap) (by rw [IsGap, List.all_eq_true])

/-- The spans of some tokens of a source, with a gap behind each but the last. -/
def rejoin (source : String) (tokens : List Token) (gaps : List (List Char)) : String :=
  String.ofList
    (List.zipWith (fun token gap => token.spanIn source ++ gap) tokens (gaps ++ [[]])).flatten

theorem rejoin_cons (source : String) (token : Token) (tokens : List Token) (gap : List Char)
    (gaps : List (List Char)) : (rejoin source (token :: tokens) (gap :: gaps)).toList =
      token.spanIn source ++ gap ++ (rejoin source tokens gaps).toList := by
  simp only [rejoin, List.cons_append, List.zipWith_cons_cons, List.flatten_cons,
    String.toList_ofList]

/-- What a token says in front of a gap. A line comment takes the blanks in front of the first
newline. -/
def Token.continued (token : Token) (gap : List Char) : Spelling :=
  if token.kind = .comment then
    (.comment, token.literal ++ String.ofList (gap.takeWhile (· != '\n')))
  else token.spelling

@[simp] theorem Token.continued_nil (token : Token) : token.continued [] = token.spelling := by
  unfold Token.continued
  split
  next hComment =>
    rw [← hComment]
    exact congrArg (Prod.mk token.kind) (by simp)
  next => rfl

/-! ### One token -/

theorem spellings_blanks {gap : List Char} (hGap : ∀ c ∈ gap, isBlank c = true)
    (rest : List Char) : spellings (gap ++ rest) = spellings rest := by
  rw [spellings, Lexer.words_blanks hGap, map_spelling_words_eq]

theorem takeWhile_newline {text : List Char} (hText : '\n' ∉ text) (rest : List Char) :
    (text ++ '\n' :: rest).takeWhile (· != '\n') = text := by
  have hAll : ∀ c ∈ text, (c != '\n') = true := by
    rintro c hMem
    rw [bne_iff_ne]
    rintro rfl
    exact hText hMem
  rw [List.takeWhile_append_of_pos hAll, List.takeWhile_cons_of_neg (by simp), List.append_nil]

theorem firstCut_newline {text : List Char} (hText : '\n' ∉ text) (rest : List Char) :
    FirstCut (Meets '\n') text ('\n' :: rest) := by
  have hAlone : FirstCut (Meets '\n') text [] := by
    refine ⟨.inl rfl, fun before after hSplit _ hMeets => hText ?_⟩
    obtain ⟨more, rfl⟩ := List.head?_eq_some_iff.mp hMeets
    rw [List.append_nil] at hSplit
    simp [← hSplit]
  have hEnd : Meets '\n' text ([] ++ '\n' :: rest) := rfl
  exact hAlone.append (FirstCut.local_meets '\n') hEnd

section Lexemes

variable {c : Char} {rest behind : List Char} {lexeme : Lexeme} (hHead : isBlank c = false)
  (hLexical : Lexical (c :: rest) lexeme) (pos : Position)

include hHead hLexical

theorem spellings_lexeme (hSplit : c :: rest = lexeme.span ++ behind) :
    spellings (c :: rest) = (lexeme.token pos).spelling :: spellings behind := by
  rw [spellings, Lexer.words_lexeme hHead hLexical hSplit, List.map_cons, map_spelling_words_eq]
  rfl

/-- The span of a lexeme is one token on its own. -/
theorem spellings_span : spellings lexeme.span = [(lexeme.token pos).spelling] := by
  obtain ⟨span, behind, hSpan, -⟩ := hLexical.exists_span
  have hSelf := hLexical.self
  rw [hSpan] at hSelf ⊢
  rw [spellings_lexeme hHead hSelf pos (by rw [hSpan, List.append_nil]), spellings_nil]

/-- A line comment has no newline in it. -/
theorem exists_line (hComment : lexeme.kind = .comment) :
    ∃ line, '\n' ∉ line ∧ lexeme = .plain .comment ('/' :: '/' :: line) := by
  cases hLexical with
  | word _ _ hKind => exact absurd hComment hKind.not_comment.1
  | number _ _ hKind => exact absurd hComment hKind.not_comment.1
  | quoted hQuote =>
      obtain rfl : _ = TokenKind.comment := hComment
      exact absurd hQuote (by simp)
  | raw => cases hComment
  | @lineComment line after hLine =>
      refine ⟨line, fun hMem => ?_, rfl⟩
      have hTaken := ((firstCut_takeWhile '\n' (line ++ after)).eq hLine
        List.takeWhile_append_dropWhile).1
      rw [← hTaken] at hMem
      simpa using List.mem_takeWhile_imp hMem
  | blockComment => cases hComment
  | operator _ hSpan => exact absurd hComment hSpan.not_comment.1
  | illegal => cases hComment

/-- A closed lexeme is one token in front of a gap. -/
theorem spellings_gap (hClosed : lexeme.Closed) {gap : List Char} (hGap : IsGap gap)
    (more : List Char) :
    spellings (lexeme.span ++ gap ++ more) =
      (lexeme.token pos).continued gap :: spellings more := by
  by_cases hComment : lexeme.kind = .comment
  · obtain ⟨line, hLine, rfl⟩ := exists_line hHead hLexical hComment
    obtain ⟨front, after, rfl, hFront⟩ := List.eq_append_cons_of_mem hGap.2
    have hText : '\n' ∉ line ++ front := by
      rw [List.mem_append, not_or]
      exact ⟨hLine, hFront⟩
    have hLonger := Lexical.lineComment (firstCut_newline hText (after ++ more))
    have hAfter : ∀ d ∈ '\n' :: after, isBlank d = true := fun d hMem =>
      hGap.1 d (List.mem_append_right front hMem)
    have hContinued : ((Lexeme.plain .comment ('/' :: '/' :: line)).token pos).continued
        (front ++ '\n' :: after) =
          ((Lexeme.plain .comment ('/' :: '/' :: (line ++ front))).token pos).spelling := by
      have hKind : ((Lexeme.plain .comment ('/' :: '/' :: line)).token pos).kind = .comment := rfl
      rw [Token.continued, if_pos hKind, takeWhile_newline hFront]
      exact congrArg (Prod.mk TokenKind.comment) String.ofList_append.symm
    have hSpellings := spellings_lexeme (by decide) hLonger pos rfl
    rw [hContinued, ← spellings_blanks hAfter more, List.cons_append, ← hSpellings]
    simp [Lexeme.plain]
  · obtain ⟨b, blanks, rfl⟩ := List.exists_cons_of_ne_nil (List.ne_nil_of_mem hGap.2)
    obtain ⟨span, behind, hSpan, -⟩ := hLexical.exists_span
    have hSelf := hLexical.self
    have hContinued : (lexeme.token pos).continued (b :: blanks) = (lexeme.token pos).spelling :=
      if_neg hComment
    rw [hSpan] at hSelf ⊢
    have hLonger : Lexical (c :: span ++ b :: (blanks ++ more)) lexeme :=
      hSelf.append hClosed (separates_of_isBlank (hGap.1 b List.mem_cons_self))
        fun hLine => absurd hLine hComment
    have hSplit : c :: (span ++ b :: (blanks ++ more)) = lexeme.span ++ b :: (blanks ++ more) := by
      rw [hSpan, List.cons_append]
    rw [hContinued, List.append_assoc, ← spellings_blanks hGap.1 more]
    exact spellings_lexeme hHead hLonger pos hSplit

end Lexemes

/-! ### All tokens -/

/-- The span of a token is that of its lexeme. -/
theorem spanIn_token {source : String} {front rest : List Char} {c : Char} {lexeme : Lexeme}
    {pos : Position} (hLexical : Lexical (c :: rest) lexeme)
    (hSource : source.toList = front ++ c :: rest) (hOffset : pos.offset = front.length) :
    (lexeme.token pos).spanIn source = lexeme.span := by
  obtain rfl := Lexeme.eq_scan_of_lexical hLexical (List.cons_ne_nil c rest)
  obtain ⟨behind, hSplit, hCovers⟩ := Lexeme.heads_scan c rest
  have hCover := hCovers pos
  have hDrop : source.toList.drop ((Lexeme.scan (c :: rest)).token pos).pos.offset =
      (Lexeme.scan (c :: rest)).span ++ behind := by
    rw [hSource, ← hSplit]
    exact (congrArg (List.drop · (front ++ c :: rest)) hOffset).trans List.drop_left
  rw [Token.spanIn, hDrop, ← String.length_toList]
  unfold Token.Covers at hCover
  split at hCover
  next hNone => simp [hNone, hCover]
  next mark hSome =>
    rcases hCover with hSpan | ⟨hSpan, rfl⟩
    · rw [hSome, hSpan]
      exact List.take_left' (by simp)
    · simp [hSome, hSpan]

/-- What is left of a source is rejoined to the tokens that are left of it. The induction is along
these tokens, and all of them but the last are closed, since there is text behind them. -/
theorem spellings_rejoin (source : String) (lexer : Lexer) : ∀ front gaps,
    (Lexer.ofString source).Reads front lexer → gaps.length = lexer.words.length - 1 →
      (∀ gap ∈ gaps, IsGap gap) →
        spellings (rejoin source lexer.words gaps).toList =
          List.zipWith Token.continued lexer.words (gaps ++ [[]]) := by
  fun_induction Lexer.words lexer with
  | case1 =>
      intro front gaps _ _ _
      rw [rejoin, List.zipWith_nil_left, List.zipWith_nil_left, List.flatten_nil,
        String.toList_ofList, spellings_nil]
  | case2 lexer hMore ih =>
      intro front gaps hReads hCount hGaps
      obtain ⟨gap, c, rest, behind, lexeme, hGap, hHead, hLexical, hSplit, hRest, hToken, hLater⟩ :=
        Lexer.exists_lexeme hMore
      rw [hLater] at ih hCount
      rw [hToken, hLater]
      rw [List.length_cons, Nat.add_sub_cancel] at hCount
      have hFront : (Lexer.ofString source).Reads (front ++ gap)
          ⟨c :: rest, lexer.pos.advance gap⟩ := hReads.trans ⟨hRest, rfl⟩
      have hNextReads : (Lexer.ofString source).Reads (front ++ gap ++ lexeme.span)
          ⟨behind, (lexer.pos.advance gap).advance lexeme.span⟩ := hFront.trans ⟨hSplit, rfl⟩
      have hOffset : (lexer.pos.advance gap).offset = (front ++ gap).length := by
        have hPos : lexer.pos.advance gap = Position.start.advance (front ++ gap) := hFront.2
        rw [hPos, Position.offset_advance]
        exact Nat.zero_add _
      have hSpan := spanIn_token hLexical hFront.1 hOffset
      cases gaps with
      | nil =>
          have hLast := List.length_eq_zero_iff.mp hCount.symm
          have hAlone := spellings_span hHead hLexical (lexer.pos.advance gap)
          simp [rejoin, hLast, hSpan, hAlone]
      | cons first gaps =>
          have hBehind : behind ≠ [] := by
            rintro rfl
            rw [Lexer.words_of_blank _ rfl] at hCount
            cases hCount
          have hClosed : lexeme.Closed := by
            refine hLexical.closed ?_
            rw [hSplit, List.length_append]
            exact Nat.lt_add_of_pos_right (List.length_pos_iff.mpr hBehind)
          rw [rejoin_cons, hSpan,
            spellings_gap hHead hLexical (lexer.pos.advance gap) hClosed
              (hGaps first List.mem_cons_self),
            ih _ gaps hNextReads (by rw [← hCount, List.length_cons, Nat.add_sub_cancel])
              fun later hMem => hGaps later (List.mem_cons_of_mem _ hMem)]
          rfl

theorem map_spelling_tokenize (source : String) :
    (tokenize source).map Token.spelling = spellings source.toList ++ [(.eof, "")] := by
  rw [tokenize, Lexer.tokens, List.map_append, map_spelling_words_eq]
  rfl

/-- Tokens delimit themselves. If the spans of the tokens of a source are joined with gaps, the
same tokens are found again, and every span alone is its one token. A gap that does not start with
its newline continues the line comment in front of it. -/
theorem tokenize_rejoin (source : String) (gaps : List (List Char))
    (hCount : gaps.length = (tokenize source).dropLast.length - 1)
    (hGaps : ∀ gap ∈ gaps, IsGap gap) :
    (tokenize (rejoin source (tokenize source).dropLast gaps)).map Token.spelling =
        List.zipWith Token.continued (tokenize source).dropLast (gaps ++ [[]]) ++ [(.eof, "")]
      ∧ ∀ token ∈ (tokenize source).dropLast,
          (tokenize (String.ofList (token.spanIn source))).map Token.spelling =
            [token.spelling, (.eof, "")] := by
  have hWords : (tokenize source).dropLast = (Lexer.ofString source).words := by
    rw [tokenize, Lexer.tokens, List.dropLast_concat]
  rw [hWords] at hCount ⊢
  constructor
  · have hStart : (Lexer.ofString source).Reads [] (Lexer.ofString source) := ⟨rfl, rfl⟩
    rw [map_spelling_tokenize, spellings_rejoin source _ [] gaps hStart hCount hGaps]
  · intro token hMem
    obtain ⟨front, c, rest, later, ⟨hText, hPos⟩, hRest, hHead, rfl⟩ :=
      (Lexer.ofString source).exists_reading token hMem
    have hSource : source.toList = front ++ c :: rest := hText.trans (congrArg (front ++ ·) hRest)
    have hOffset : later.pos.offset = front.length := by
      rw [hPos, Position.offset_advance]
      exact Nat.zero_add _
    have hLexical := Lexeme.lexical_scan c rest
    rw [map_spelling_tokenize, String.toList_ofList, spanIn_token hLexical hSource hOffset,
      spellings_span hHead hLexical later.pos]
    rfl

/-- A point behind a number and a block comment that is left open stay what they are. -/
theorem tokenize_rejoin_open :
    [[' ', '\n'], ['\n'], ['\r', '\n', '\t']].length =
        (tokenize "5.String/*/x").dropLast.length - 1
      ∧ (∀ gap ∈ [[' ', '\n'], ['\n'], ['\r', '\n', '\t']], IsGap gap)
      ∧ (tokenize (rejoin "5.String/*/x" (tokenize "5.String/*/x").dropLast
          [[' ', '\n'], ['\n'], ['\r', '\n', '\t']])).map Token.spelling =
        List.zipWith Token.continued (tokenize "5.String/*/x").dropLast
          ([[' ', '\n'], ['\n'], ['\r', '\n', '\t']] ++ [[]]) ++ [(.eof, "")] := by
  have hCount : [[' ', '\n'], ['\n'], ['\r', '\n', '\t']].length =
      (tokenize "5.String/*/x").dropLast.length - 1 := by decide +kernel
  have hGaps : ∀ gap ∈ [[' ', '\n'], ['\n'], ['\r', '\n', '\t']], IsGap gap := by decide
  exact ⟨hCount, hGaps, (tokenize_rejoin "5.String/*/x" _ hCount hGaps).1⟩

/-- A blank in front of a newline becomes part of the line comment in front of it, so the literal
of a line comment need not stay the same. -/
theorem tokenize_rejoin_comment :
    [[' ', '\n']].length = (tokenize "//a\nb").dropLast.length - 1
      ∧ (∀ gap ∈ [[' ', '\n']], IsGap gap)
      ∧ rejoin "//a\nb" (tokenize "//a\nb").dropLast [[' ', '\n']] = "//a \nb"
      ∧ (tokenize "//a \nb").map Token.spelling =
        [(.comment, "//a "), (.ident, "b"), (.eof, "")]
      ∧ (tokenize "//a \nb").map Token.spelling ≠ (tokenize "//a\nb").map Token.spelling := by
  exact ⟨by decide +kernel, by decide, by decide +kernel, by decide +kernel, by decide +kernel⟩

end TryGo
