import TryGo.Proofs.Token.Apart

/-! Lexing from line to line. At a newline outside of literals and block comments nothing is left
over from the text in front of it, so the tokens of two texts with a newline in between are the
tokens of the first and those of the second, whose places are moved by the size of the first. -/
namespace TryGo

/-- A place moved down and on by some lines and characters. The column stays. -/
def Position.shift (lines chars : Nat) (pos : Position) : Position :=
  ⟨pos.line + lines, pos.column, pos.offset + chars⟩

def Token.shift (lines chars : Nat) (token : Token) : Token :=
  { token with pos := token.pos.shift lines chars }

/-- Whether a token of a source lacks its closing mark: a literal whose content ends where the
source does, or a block comment that does not end with its mark. -/
def Token.IsOpen (source : String) (token : Token) : Prop :=
  token.kind.delimiter?.isSome ∧ token.pos.offset + 1 + token.literal.length = source.length
    ∨ token.kind = .blockComment ∧ ¬ ['*', '/'] <:+ token.literal.toList.drop 2

instance (source : String) (token : Token) : Decidable (token.IsOpen source) :=
  inferInstanceAs (Decidable (_ ∨ _))

/-! ### Steps of a lexer -/

namespace Lexer

/-- Blanks in front of a text only move its place. -/
theorem words_blanks {gap : List Char} (hGap : ∀ c ∈ gap, isBlank c = true) (rest : List Char)
    (pos : Position) : words ⟨gap ++ rest, pos⟩ = words ⟨rest, pos.advance gap⟩ := by
  have hTaken : (gap ++ rest).takeWhile isBlank = gap ++ rest.takeWhile isBlank :=
    List.takeWhile_append_of_pos hGap
  have hSkip : skipBlanks ⟨gap ++ rest, pos⟩ = skipBlanks ⟨rest, pos.advance gap⟩ := by
    simp only [skipBlanks, drop, hTaken, List.length_append, List.take_length_add_append,
      List.drop_length_add_append, Position.advance_append]
  rw [words.eq_def ⟨gap ++ rest, pos⟩, words.eq_def ⟨rest, pos.advance gap⟩, next, next, hSkip]

/-- The first token of a text that does not start with a blank is its first lexeme. -/
theorem words_lexeme {c : Char} {rest behind : List Char} {lexeme : Lexeme}
    (hBlank : isBlank c = false) (hLexical : Lexical (c :: rest) lexeme)
    (hSplit : c :: rest = lexeme.span ++ behind) (pos : Position) :
    words ⟨c :: rest, pos⟩ =
      lexeme.token pos :: words ⟨behind, pos.advance lexeme.span⟩ := by
  obtain rfl := Lexeme.eq_scan_of_lexical hLexical (List.cons_ne_nil c rest)
  have hSkip : skipBlanks ⟨c :: rest, pos⟩ = ⟨c :: rest, pos⟩ := by
    rw [skipBlanks, List.takeWhile_cons_of_neg (by simp [hBlank])]
    rfl
  have hNext : next ⟨c :: rest, pos⟩ = ((Lexeme.scan (c :: rest)).token pos,
      ⟨behind, pos.advance (Lexeme.scan (c :: rest)).span⟩) := by
    rw [next, hSkip]
    exact congrArg (Prod.mk _) (offset_drop hSplit)
  rw [words, dif_neg (by rw [hSkip]; exact List.cons_ne_nil c rest), hNext]

/-- A lexer with tokens is at blanks with a lexeme behind them. -/
theorem exists_lexeme {lexer : Lexer} (hMore : lexer.skipBlanks.rest ≠ []) :
    ∃ gap c rest behind lexeme, (∀ d ∈ gap, isBlank d = true) ∧ isBlank c = false
      ∧ Lexical (c :: rest) lexeme ∧ c :: rest = lexeme.span ++ behind
      ∧ lexer.rest = gap ++ c :: rest
      ∧ lexer.next.1 = lexeme.token (lexer.pos.advance gap)
      ∧ lexer.next.2 = ⟨behind, (lexer.pos.advance gap).advance lexeme.span⟩ := by
  obtain ⟨c, rest, hRest⟩ := List.exists_cons_of_ne_nil hMore
  obtain ⟨behind, hSplit, -⟩ := Lexeme.heads_scan c rest
  have hText : lexer.rest = lexer.rest.takeWhile isBlank ++ c :: rest := by
    rw [← hRest, rest_skipBlanks, List.takeWhile_append_dropWhile]
  have hHead : isBlank c = false := by
    have hNot := List.head?_dropWhile_not isBlank lexer.rest
    rw [← rest_skipBlanks, hRest] at hNot
    simpa using hNot
  have hPos : lexer.skipBlanks.pos = lexer.pos.advance (lexer.rest.takeWhile isBlank) := by
    rw [skipBlanks, offset_drop hText]
  refine ⟨lexer.rest.takeWhile isBlank, c, rest, behind, _, fun d => List.mem_takeWhile_imp, hHead,
    Lexeme.lexical_scan c rest, hSplit, hText, ?_, ?_⟩
  · rw [next, take, hRest, ← hPos]
    rfl
  · rw [next, take, hRest, ← hPos]
    exact offset_drop (hRest.trans hSplit)

end Lexer

/-! ### Texts with a newline in between -/

/-- A token that is not open has its closing mark. -/
theorem Lexical.closed_of_not_isOpen {source : String} {pos : Position} {c : Char}
    {rest : List Char} {lexeme : Lexeme} (hLexical : Lexical (c :: rest) lexeme)
    (hEnd : pos.offset + (c :: rest).length = source.length)
    (hOpen : ¬ (lexeme.token pos).IsOpen source) : lexeme.Closed := by
  have hClosing {kind : TokenKind} {mark : Char} {content after : List Char}
      (hDelimiter : kind.delimiter? = some mark) (hKind : kind ≠ .blockComment)
      (hEnd : pos.offset + (mark :: (content ++ after)).length = source.length)
      (hOpen : ¬ (Lexeme.token pos
        ⟨kind, content, mark :: (content ++ after.take 1)⟩).IsOpen source) :
      Lexeme.Closed ⟨kind, content, mark :: (content ++ after.take 1)⟩ := by
    refine ⟨fun _ => ?_, fun hBlock => absurd hBlock hKind⟩
    have hBehind : pos.offset + 1 + content.length ≠ source.length := by
      intro hLength
      refine hOpen (.inl ⟨by simp only [Lexeme.token, hDelimiter, Option.isSome_some], ?_⟩)
      simpa only [Lexeme.token, String.length_ofList] using hLength
    simp only [List.length_cons, List.length_append, List.length_take] at hEnd ⊢
    omega
  cases hLexical with
  | word _ _ hKind => exact Lexeme.closed_plain hKind.not_comment.2 _
  | number _ _ hKind => exact Lexeme.closed_plain hKind.not_comment.2 _
  | quoted hQuote _ =>
      simp only [List.mem_cons, Prod.mk.injEq, List.not_mem_nil, or_false] at hQuote
      rcases hQuote with ⟨rfl, rfl⟩ | ⟨rfl, rfl⟩
      · exact hClosing rfl (by decide) hEnd hOpen
      · exact hClosing rfl (by decide) hEnd hOpen
  | raw => exact hClosing rfl (by decide) hEnd hOpen
  | lineComment => exact Lexeme.closed_plain (by decide) _
  | blockComment =>
      refine ⟨fun hOther => absurd rfl hOther, fun hBlock => ?_⟩
      by_contra hMark
      exact hOpen (.inr ⟨hBlock, by simpa [Lexeme.token, Lexeme.plain] using hMark⟩)
  | operator _ hSpan => exact Lexeme.closed_plain hSpan.not_comment.2 _
  | illegal => exact Lexeme.closed_plain (by decide) _

namespace Lexer

/-- The tokens of a text with a newline and another text behind it. The induction is along the
tokens of the first text. Each of them is closed, so the newline makes no difference to it. -/
theorem words_newline (source : String) (behind : List Char) (lexer : Lexer)
    (hEnd : lexer.pos.offset + lexer.rest.length = source.length)
    (hClosed : ∀ token ∈ lexer.words, ¬ token.IsOpen source) :
    words ⟨lexer.rest ++ '\n' :: behind, lexer.pos⟩ =
      lexer.words ++ words ⟨behind, lexer.endPos.step '\n'⟩ := by
  fun_induction words lexer with
  | case1 lexer hBlank =>
      rw [rest_skipBlanks, List.dropWhile_eq_nil_iff] at hBlank
      have hGap : ∀ c ∈ lexer.rest ++ ['\n'], isBlank c = true :=
        List.forall_mem_append.mpr ⟨hBlank, List.forall_mem_singleton.mpr rfl⟩
      have hBlanks := words_blanks hGap behind lexer.pos
      rwa [List.append_assoc, Position.advance_append] at hBlanks
  | case2 lexer hMore ih =>
      obtain ⟨gap, c, rest, after, lexeme, hGap, hHead, hLexical, hSplit, hRest, hToken, hLater⟩ :=
        exists_lexeme hMore
      rw [hToken, hLater] at hClosed ⊢
      rw [hLater] at ih
      have hPos : (lexer.pos.advance gap).offset + (c :: rest).length = source.length := by
        rw [hRest, List.length_append] at hEnd
        rw [Position.offset_advance]
        omega
      have hAfter : ((lexer.pos.advance gap).advance lexeme.span).offset + after.length =
          source.length := by
        rw [hSplit, List.length_append] at hPos
        rw [Position.offset_advance]
        omega
      have hWhole := hLexical.closed_of_not_isOpen hPos (hClosed _ List.mem_cons_self)
      have hLonger : Lexical (c :: (rest ++ '\n' :: behind)) lexeme :=
        hLexical.append hWhole (separates_of_isBlank (by decide)) fun _ => rfl
      have hLongerSplit : c :: (rest ++ '\n' :: behind) =
          lexeme.span ++ (after ++ '\n' :: behind) := by
        rw [← List.cons_append, hSplit, List.append_assoc]
      have hEndPos :
          endPos ⟨after, (lexer.pos.advance gap).advance lexeme.span⟩ = lexer.endPos := by
        rw [endPos, endPos, hRest, hSplit, Position.advance_append, Position.advance_append]
      rw [hRest, List.append_assoc, words_blanks hGap, List.cons_append,
        words_lexeme hHead hLonger hLongerSplit,
        ih hAfter fun token hMem => hClosed token (List.mem_cons_of_mem _ hMem), hEndPos]
      rfl

/-! ### Places -/

theorem shift_step (lines chars : Nat) (pos : Position) (c : Char) :
    (pos.shift lines chars).step c = (pos.step c).shift lines chars := by
  unfold Position.step Position.shift
  split
  · simp only [Nat.add_right_comm]
  · simp only [Nat.add_right_comm]

theorem shift_advance (lines chars : Nat) (text : List Char) : (pos : Position) →
    (pos.shift lines chars).advance text = (pos.advance text).shift lines chars := by
  induction text with
  | nil => exact fun _ => rfl
  | cons c rest ih =>
      intro pos
      rw [Position.advance_cons, Position.advance_cons, shift_step, ih]

/-- The tokens of a text that stands elsewhere are the same, at places moved accordingly. -/
theorem words_shift (lines chars : Nat) (lexer : Lexer) :
    words ⟨lexer.rest, lexer.pos.shift lines chars⟩ =
      lexer.words.map (Token.shift lines chars) := by
  fun_induction words lexer with
  | case1 lexer hBlank =>
      rw [rest_skipBlanks] at hBlank
      exact words_of_blank ⟨lexer.rest, lexer.pos.shift lines chars⟩ hBlank
  | case2 lexer hMore ih =>
      obtain ⟨gap, c, rest, after, lexeme, hGap, hHead, hLexical, hSplit, hRest, hToken, hLater⟩ :=
        exists_lexeme hMore
      rw [hLater] at ih
      rw [hToken, hLater]
      rw [hRest, words_blanks hGap, words_lexeme hHead hLexical hSplit, shift_advance,
        shift_advance, ih, List.map_cons]
      rfl

end Lexer

/-- Lexing is compositional at a newline. If nothing is left open in front of it, the tokens there
are those of the text in front, and the tokens behind it are those of the text behind, further down
by the lines and on by the characters in front of them. -/
theorem tokenize_newline (front behind : String)
    (hClosed : ∀ token ∈ tokenize front, ¬ token.IsOpen front) :
    tokenize (front ++ "\n" ++ behind) = (tokenize front).dropLast
      ++ (tokenize behind).map
        (Token.shift (1 + front.toList.count '\n') (front.length + 1)) := by
  have hChars : (front ++ "\n" ++ behind).toList = front.toList ++ '\n' :: behind.toList := by
    simp
  have hEnd : (Lexer.ofString front).pos.offset + (Lexer.ofString front).rest.length =
      front.length := by
    rw [← String.length_toList]
    exact Nat.zero_add _
  have hPlace : (Lexer.ofString front).endPos.step '\n' =
      Position.start.shift (1 + front.toList.count '\n') (front.length + 1) := by
    have hLine : (Lexer.ofString front).endPos.line = 1 + front.toList.count '\n' :=
      Position.line_advance front.toList Position.start
    have hOffset : (Lexer.ofString front).endPos.offset = front.length := by
      rw [Lexer.endPos, Position.offset_advance, hEnd]
    rw [Position.step, if_pos rfl, hLine, hOffset]
    simp only [Position.shift, Position.start, Position.mk.injEq, true_and]
    omega
  have hBehind : Lexer.words ⟨behind.toList, (Lexer.ofString front).endPos.step '\n'⟩ =
      (Lexer.ofString behind).words.map
        (Token.shift (1 + front.toList.count '\n') (front.length + 1)) := by
    rw [hPlace]
    exact Lexer.words_shift _ _ (Lexer.ofString behind)
  have hWords : (Lexer.ofString (front ++ "\n" ++ behind)).words = (Lexer.ofString front).words
      ++ (Lexer.ofString behind).words.map
        (Token.shift (1 + front.toList.count '\n') (front.length + 1)) := by
    rw [Lexer.ofString, hChars, ← hBehind]
    exact Lexer.words_newline front behind.toList (Lexer.ofString front) hEnd fun token hMem =>
      hClosed token (List.mem_append_left _ hMem)
  have hEof : (Lexer.ofString (front ++ "\n" ++ behind)).endPos =
      (Lexer.ofString behind).endPos.shift (1 + front.toList.count '\n') (front.length + 1) := by
    rw [Lexer.endPos, Lexer.endPos, ← Lexer.shift_advance]
    change Position.start.advance (front ++ "\n" ++ behind).toList =
      (Position.start.shift _ _).advance behind.toList
    rw [hChars, Position.advance_append, Position.advance_cons, ← hPlace]
    rfl
  rw [tokenize, Lexer.tokens, hWords, hEof, tokenize, Lexer.tokens, List.dropLast_concat,
    List.append_assoc, tokenize, Lexer.tokens, List.map_append]
  rfl

/-- A quote that is closed in front of a newline is not in view behind it. -/
theorem tokenize_newline_quotes :
    (∀ token ∈ tokenize "'a' // b's", ¬ token.IsOpen "'a' // b's")
      ∧ tokenize ("'a' // b's" ++ "\n" ++ " c'") = (tokenize "'a' // b's").dropLast
        ++ (tokenize " c'").map (Token.shift (1 + 0) (10 + 1)) := by
  have hClosed : ∀ token ∈ tokenize "'a' // b's", ¬ token.IsOpen "'a' // b's" := by
    have hTokens : tokenize "'a' // b's" =
        [⟨.char, "a", ⟨1, 1, 0⟩⟩, ⟨.comment, "// b's", ⟨1, 5, 4⟩⟩, ⟨.eof, "", ⟨1, 11, 10⟩⟩] := by
      decide +kernel
    rw [hTokens]
    decide
  exact ⟨hClosed, tokenize_newline "'a' // b's" " c'" hClosed⟩

end TryGo
