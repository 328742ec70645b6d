import TryGo.Proofs.Token.Grammar

/-! What the text behind a token has to do with it. A lexeme was found with that text in view, yet
it is the same when the text is taken away, and it is the same when a blank or another character
that continues nothing is put behind it, as long as it does not run to the end of its text for want
of a closing mark. A line comment takes everything but a newline. All of this is read off the
grammar, since none of its classes but the literals and the comments has such a character in it. -/
namespace TryGo

variable {b : Char} {tail : List Char}

/-! ### Longest prefixes and first cuts -/

/-- A text that starts another one and lacks a character of it ends in front of that character. -/
theorem isPrefix_of_not_mem {text chars : List Char} (hStarts : text <+: chars ++ b :: tail)
    (hApart : b ∉ text) : text <+: chars := by
  have hFront : chars ++ [b] <+: chars ++ b :: tail :=
    (List.prefix_append_right_inj chars).mpr ⟨tail, rfl⟩
  by_cases hShort : text.length ≤ chars.length
  · exact List.prefix_of_prefix_length_le hStarts (List.prefix_append _ _) hShort
  · have hReach : chars ++ [b] <+: text := by
      refine List.prefix_of_prefix_length_le hFront hStarts ?_
      rw [List.length_append, List.length_singleton]
      omega
    exact absurd (hReach.subset (by simp)) hApart

namespace LongestIn

variable {inClass : List Char → Prop} {span chars : List Char}

/-- What is longest in a text is longest in itself. -/
theorem self (hSpan : LongestIn inClass span chars) : LongestIn inClass span span :=
  ⟨hSpan.mem, List.prefix_rfl, fun _ _ hStarts => hStarts.length_le⟩

/-- A character that occurs in no text of a class makes none of them longer. -/
theorem append (hSpan : LongestIn inClass span chars)
    (hApart : ∀ text, inClass text → b ∉ text) : LongestIn inClass span (chars ++ b :: tail) := by
  refine ⟨hSpan.mem, hSpan.starts.trans (List.prefix_append _ _), fun other hOther hStarts => ?_⟩
  exact hSpan.longest other hOther (isPrefix_of_not_mem hStarts (hApart other hOther))

end LongestIn

namespace FirstCut

variable {mayCut : List Char → List Char → Prop} {taken rest more : List Char}

/-- Whether the next character is enough to see if a text may be cut in front of it. -/
def Local (mayCut : List Char → List Char → Prop) : Prop :=
  ∀ before c after more, mayCut before (c :: after ++ more) ↔ mayCut before (c :: after)

/-- Whether a mark comes next is seen in the next character. -/
theorem local_meets (mark : Char) : Local (Meets mark) := fun _ _ _ _ => Iff.rfl

theorem local_meetsQuote (quote : Char) : Local (MeetsQuote quote) := fun _ _ _ _ => Iff.rfl

theorem local_hasMark : Local HasMark := fun _ _ _ _ => Iff.rfl

/-- Where a text is cut first does not depend on what follows the cut. -/
theorem append (hLocal : Local mayCut) (hFirst : FirstCut mayCut taken rest)
    (hCut : mayCut taken (rest ++ more)) : FirstCut mayCut taken (rest ++ more) := by
  refine ⟨.inr hCut, fun before after hText hShort hMay => ?_⟩
  obtain ⟨within, hTaken, hAfter⟩ : ∃ within, taken = before ++ within
      ∧ after = within ++ (rest ++ more) := by
    rcases List.append_eq_append_iff.mp hText with ⟨within, hTaken, hAfter⟩ | ⟨longer, hBefore, -⟩
    · exact ⟨within, hTaken, hAfter⟩
    · rw [hBefore, List.length_append] at hShort
      omega
  cases within with
  | nil =>
      rw [hTaken, List.append_nil] at hShort
      exact Nat.lt_irrefl _ hShort
  | cons c within =>
      rw [hAfter, ← List.append_assoc, List.cons_append, hLocal] at hMay
      refine hFirst.first before (c :: (within ++ rest)) ?_ hShort hMay
      rw [hTaken, List.append_assoc, List.cons_append]

/-- The first cut of a longer text is the first of a shorter one that reaches it. -/
theorem of_append (hLocal : Local mayCut) (hFirst : FirstCut mayCut taken (rest ++ more))
    (hCut : rest = [] ∨ mayCut taken rest) : FirstCut mayCut taken rest := by
  refine ⟨hCut, fun before after hText hShort hMay => ?_⟩
  cases after with
  | nil =>
      rw [List.append_nil] at hText
      rw [hText, List.length_append] at hShort
      omega
  | cons c after =>
      refine hFirst.first before (c :: after ++ more) ?_ hShort ((hLocal _ _ _ _).mpr hMay)
      rw [← List.append_assoc, hText, List.append_assoc]

/-- Of the text behind a cut only the first character counts. -/
theorem take_one (hLocal : Local mayCut) (hFirst : FirstCut mayCut taken rest) :
    FirstCut mayCut taken (rest.take 1) := by
  have hSplit : rest.take 1 ++ rest.drop 1 = rest := List.take_append_drop 1 rest
  refine of_append hLocal (hSplit.symm ▸ hFirst) (hFirst.cut.imp ?_ fun hMay => ?_)
  · rintro rfl
    rfl
  · cases rest with
    | nil => exact hMay
    | cons d rest => exact (hLocal taken d [] rest).mp hMay

end FirstCut

/-! ### Characters that continue nothing -/

theorem not_isBlank_of_isWordChar {c : Char} (hWord : isWordChar c = true) : isBlank c = false := by
  rw [Bool.eq_false_iff]
  intro hBlank
  simp only [isBlank, Bool.or_eq_true, beq_iff_eq] at hBlank
  rcases hBlank with ((rfl | rfl) | rfl) | rfl <;> exact absurd hWord (by decide)

theorem not_isBlank_of_isNumberChar {c : Char} (hNumber : Lexeme.isNumberChar c = true) :
    isBlank c = false := by
  rw [Lexeme.isNumberChar, Bool.or_eq_true] at hNumber
  rcases hNumber with hWord | hSign
  · exact not_isBlank_of_isWordChar hWord
  · simp only [List.contains_iff_mem, List.mem_cons, List.not_mem_nil, or_false] at hSign
    rcases hSign with rfl | rfl | rfl <;> decide

/-- Whether a character stands in no word, number or mark of a comment, and in no operator but
itself. -/
structure Separates (b : Char) : Prop where
  number : Lexeme.isNumberChar b = false
  comment : b ∉ ['/', '*']
  operator : ∀ text ∈ TokenKind.operators.map Prod.fst, b ∈ text → text = [b]

/-- A blank separates words. -/
theorem separates_of_isBlank (hBlank : isBlank b = true) : Separates b := by
  have hTable : ∀ text ∈ TokenKind.operators.map Prod.fst,
      (text.all fun c => !isBlank c) = true := by decide
  refine ⟨?_, fun hMem => ?_, fun text hText hMem => ?_⟩
  · rw [← Bool.not_eq_true]
    intro hNumber
    exact Bool.false_ne_true ((not_isBlank_of_isNumberChar hNumber).symm.trans hBlank)
  · simp only [List.mem_cons, List.not_mem_nil, or_false] at hMem
    rcases hMem with rfl | rfl <;> exact absurd hBlank (by decide)
  · have hNoBlank := List.all_eq_true.mp (hTable text hText) b hMem
    rw [hBlank] at hNoBlank
    cases hNoBlank

namespace Separates

variable (hApart : Separates b)

include hApart

theorem not_mem_run {text : List Char} (hText : ∀ c ∈ text, isWordChar c = true) : b ∉ text := by
  intro hMem
  have hNumber := hApart.number
  rw [Lexeme.isNumberChar, hText b hMem, Bool.true_or] at hNumber
  cases hNumber

/-- A text that has the form of a number is a number on its own, so it has nothing else in it. -/
theorem not_mem_number {kind : TokenKind} {text : List Char} (hForm : NumberForm kind text) :
    b ∉ text := by
  have hLong := Lexeme.length_le_number hForm List.prefix_rfl
  obtain ⟨rest, hText, -⟩ := Lexeme.heads_number text
  have hWhole : (Lexeme.number text).span = text := by
    have hPrefix : (Lexeme.number text).span <+: text := ⟨rest, hText.symm⟩
    exact hPrefix.eq_of_length (Nat.le_antisymm hPrefix.length_le hLong)
  intro hMem
  have hChar := Lexeme.isNumberChar_number text b (by rwa [hWhole])
  exact Bool.false_ne_true (hApart.number.symm.trans hChar)

/-- An operator that starts a text with the character behind it starts the text alone. -/
theorem operator_isPrefix {c : Char} {rest text : List Char}
    (hText : text ∈ TokenKind.operators.map Prod.fst)
    (hStarts : text <+: c :: rest ++ b :: tail) : text <+: c :: rest := by
  by_cases hMem : b ∈ text
  · obtain rfl := hApart.operator text hText hMem
    obtain ⟨rfl, -⟩ := List.cons_prefix_cons.mp hStarts
    exact List.cons_prefix_cons.mpr ⟨rfl, List.nil_prefix⟩
  · exact isPrefix_of_not_mem hStarts hMem

end Separates

/-! ### Lexemes and what follows them -/

/-- Whether a lexeme has its closing mark, if it needs one. A literal that leaves out its delimiters
needs the second of them, and a block comment ends with its mark. -/
structure Lexeme.Closed (lexeme : Lexeme) : Prop where
  literal : lexeme.literal ≠ lexeme.span → lexeme.span.length = lexeme.literal.length + 2
  comment : lexeme.kind = .blockComment → ['*', '/'] <:+ lexeme.literal.drop 2

theorem Lexeme.closed_plain {kind : TokenKind} (hKind : kind ≠ .blockComment) (span : List Char) :
    (plain kind span).Closed := ⟨fun hOther => absurd rfl hOther, fun hBlock => absurd hBlock hKind⟩

/-- A closed literal is cut off by its mark, whatever follows the mark. -/
theorem Lexeme.Closed.cut_append {kind : TokenKind} {mark : Char} {content rest : List Char}
    {mayCut : List Char → List Char → Prop}
    (hClosed : Closed ⟨kind, content, mark :: (content ++ rest.take 1)⟩)
    (hLocal : FirstCut.Local mayCut) (hFirst : FirstCut mayCut content rest) (more : List Char) :
    FirstCut mayCut content (rest ++ more) ∧ (rest ++ more).take 1 = rest.take 1 := by
  cases rest with
  | nil =>
      have hLength := hClosed.literal (by simp)
      simp at hLength
  | cons d rest =>
      have hCut := hFirst.cut.resolve_left (List.cons_ne_nil d rest)
      exact ⟨hFirst.append hLocal ((hLocal content d rest more).mpr hCut), rfl⟩

/-- A word is no comment. -/
theorem WordKind.not_comment {word : String} {kind : TokenKind} (hKind : WordKind word kind) :
    kind ≠ .comment ∧ kind ≠ .blockComment := by
  have hTable : ∀ entry ∈ TokenKind.keywords, entry.2 ≠ .comment ∧ entry.2 ≠ .blockComment := by
    decide
  rcases hKind with hEntry | ⟨rfl, -⟩
  · exact hTable _ hEntry
  · decide

/-- A number is no comment. -/
theorem NumberForm.not_comment {kind : TokenKind} {text : List Char}
    (hForm : NumberForm kind text) : kind ≠ .comment ∧ kind ≠ .blockComment := by
  rcases Lexeme.numberForm_cases hForm with ⟨rfl, -⟩ | ⟨_, _, _, -, -, -, -, rfl⟩
  · decide
  · split <;> decide

theorem LongestOperator.not_comment {span chars : List Char} {kind : TokenKind}
    (hSpan : LongestOperator span kind chars) : kind ≠ .comment ∧ kind ≠ .blockComment := by
  have hTable : ∀ entry ∈ TokenKind.operators, entry.2 ≠ .comment ∧ entry.2 ≠ .blockComment := by
    decide
  exact hTable _ hSpan.mem

/-- What starts a symbol does so with less behind it. -/
theorem StartsSymbol.of_append {c : Char} {rest more : List Char}
    (hStart : StartsSymbol c (rest ++ more)) : StartsSymbol c rest := by
  refine ⟨hStart.word, hStart.digit, hStart.mark, fun hSlash d hHead => ?_⟩
  obtain ⟨after, rfl⟩ := List.head?_eq_some_iff.mp hHead
  exact hStart.comment hSlash d rfl

/-- What separates words joins no symbol. -/
theorem StartsSymbol.append {c : Char} {rest : List Char} (hStart : StartsSymbol c rest)
    (hApart : Separates b) : StartsSymbol c (rest ++ b :: tail) := by
  refine ⟨hStart.word, hStart.digit, hStart.mark, fun hSlash d hHead => ?_⟩
  cases rest with
  | nil =>
      obtain rfl : b = d := Option.some.inj hHead
      exact hApart.comment
  | cons e rest => exact hStart.comment hSlash d hHead

namespace Lexical

variable {c : Char} {rest : List Char} {lexeme : Lexeme}

/-- The span of a lexeme starts its text. -/
theorem exists_span (hLexical : Lexical (c :: rest) lexeme) :
    ∃ span behind, lexeme.span = c :: span ∧ rest = span ++ behind := by
  obtain ⟨behind, hText, -⟩ := Lexeme.heads_scan c rest
  obtain rfl := Lexeme.eq_scan_of_lexical hLexical (List.cons_ne_nil c rest)
  obtain ⟨d, span, hSpan⟩ := List.exists_cons_of_ne_nil (Lexeme.span_scan_ne_nil c rest)
  rw [hSpan] at hText
  obtain ⟨rfl, hRest⟩ := List.cons.inj hText
  exact ⟨span, behind, hSpan, hRest⟩

/-- Only the last lexeme of a text can lack its closing mark. -/
theorem closed (hLexical : Lexical (c :: rest) lexeme)
    (hBehind : lexeme.span.length < (c :: rest).length) : lexeme.Closed := by
  have hClosing {content behind : List Char}
      (hBehind : (c :: (content ++ behind.take 1)).length < (c :: (content ++ behind)).length) :
      (c :: (content ++ behind.take 1)).length = content.length + 2 := by
    simp only [List.length_cons, List.length_append, List.length_take] at hBehind ⊢
    omega
  cases hLexical with
  | word _ _ hKind => exact Lexeme.closed_plain hKind.not_comment.2 _
  | number _ _ hKind => exact Lexeme.closed_plain hKind.not_comment.2 _
  | quoted hQuote _ =>
      refine ⟨fun _ => hClosing hBehind, ?_⟩
      rintro rfl
      exact absurd hQuote (by simp)
  | raw => exact ⟨fun _ => hClosing hBehind, nofun⟩
  | lineComment => exact Lexeme.closed_plain (by decide) _
  | @blockComment body behind hBody =>
      refine ⟨fun hOther => absurd rfl hOther, fun _ => ?_⟩
      rcases hBody.cut with rfl | hMark
      · rw [List.append_nil] at hBehind
        exact absurd hBehind (Nat.lt_irrefl _)
      · exact hMark
  | operator _ hSpan => exact Lexeme.closed_plain hSpan.not_comment.2 _
  | illegal => exact Lexeme.closed_plain (by decide) _

/-- A lexeme is the same without the text behind it. -/
theorem self (hLexical : Lexical (c :: rest) lexeme) : Lexical lexeme.span lexeme := by
  obtain ⟨span, behind, hSpan, hRest⟩ := hLexical.exists_span
  cases hLexical with
  | @word _ _ text kind hStart hText hKind =>
      obtain rfl : text = c :: span := hSpan
      exact .word hStart hText.self hKind
  | @number _ _ text kind hDigit hText hKind =>
      obtain rfl : text = c :: span := hSpan
      exact .number hDigit hText.self hKind
  | @quoted _ content after kind hQuote hContent =>
      have hLexical := Lexical.quoted hQuote (hContent.take_one (FirstCut.local_meetsQuote c))
      rwa [List.take_take, Nat.min_self] at hLexical
  | @raw content after hContent =>
      have hLexical := Lexical.raw (hContent.take_one (FirstCut.local_meets backtick))
      rwa [List.take_take, Nat.min_self] at hLexical
  | @lineComment line after hLine =>
      have hAlone : FirstCut (Meets '\n') line [] :=
        FirstCut.of_append (FirstCut.local_meets '\n') hLine (.inl rfl)
      have hLexical := Lexical.lineComment hAlone
      rwa [List.append_nil] at hLexical
  | @blockComment body after hBody =>
      have hAlone : FirstCut HasMark body [] :=
        FirstCut.of_append FirstCut.local_hasMark hBody (.inl rfl)
      have hLexical := Lexical.blockComment hAlone
      rwa [List.append_nil] at hLexical
  | @operator _ _ text kind hStart hText =>
      obtain rfl : text = c :: span := hSpan
      rw [hRest] at hStart
      exact .operator hStart.of_append ⟨hText.mem, hText.longest.self⟩
  | @illegal _ _ hStart hNone =>
      have hAlone : StartsSymbol c ([] ++ rest) := hStart
      refine .illegal hAlone.of_append fun entry hMem hStarts => ?_
      exact hNone entry hMem (hStarts.trans ⟨rest, rfl⟩)

/-- A closed lexeme is the same with a character behind its text that continues nothing. If it is a
line comment, the character has to be a newline. -/
theorem append (hLexical : Lexical (c :: rest) lexeme) (hClosed : lexeme.Closed)
    (hApart : Separates b) (hLine : lexeme.kind = .comment → b = '\n') :
    Lexical (c :: rest ++ b :: tail) lexeme := by
  cases hLexical with
  | word hStart hText hKind =>
      exact .word hStart (hText.append fun text hRun => hApart.not_mem_run hRun) hKind
  | number hDigit hText hKind =>
      refine .number hDigit (hText.append ?_) hKind
      rintro text ⟨kind, hForm⟩
      exact hApart.not_mem_number hForm
  | @quoted _ content after kind hQuote hContent =>
      obtain ⟨hCut, hTake⟩ := hClosed.cut_append (FirstCut.local_meetsQuote c) hContent (b :: tail)
      have hLexical := Lexical.quoted hQuote hCut
      rwa [hTake, ← List.append_assoc] at hLexical
  | @raw content after hContent =>
      obtain ⟨hCut, hTake⟩ := hClosed.cut_append (FirstCut.local_meets backtick) hContent (b :: tail)
      have hLexical := Lexical.raw hCut
      rwa [hTake, ← List.append_assoc] at hLexical
  | @lineComment line after hFirst =>
      obtain rfl := hLine rfl
      have hEnd : Meets '\n' line (after ++ '\n' :: tail) := by
        rcases hFirst.cut with rfl | hMay
        · exact rfl
        · obtain ⟨more, rfl⟩ := List.head?_eq_some_iff.mp hMay
          exact rfl
      have hLexical := Lexical.lineComment (hFirst.append (FirstCut.local_meets '\n') hEnd)
      rwa [← List.append_assoc] at hLexical
  | @blockComment body after hFirst =>
      have hCut : FirstCut HasMark body (after ++ b :: tail) :=
        hFirst.append FirstCut.local_hasMark (hClosed.comment rfl)
      have hLexical := Lexical.blockComment hCut
      rwa [← List.append_assoc] at hLexical
  | @operator _ _ span _ hStart hText =>
      refine .operator (hStart.append hApart) ⟨hText.mem, hText.longest.mem,
        hText.longest.starts.trans (List.prefix_append _ _), fun other hOther hStarts => ?_⟩
      exact hText.longest.longest other hOther (hApart.operator_isPrefix hOther hStarts)
  | illegal hStart hNone =>
      refine .illegal (hStart.append hApart) fun entry hMem hStarts => ?_
      exact hNone entry hMem (hApart.operator_isPrefix (List.mem_map_of_mem hMem) hStarts)

end Lexical

end TryGo
