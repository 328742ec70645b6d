import TryGo.Proofs.Token.NumberForm

/-! The lexical grammar. Each class of tokens is described by the texts that belong to it, and a
token is the longest one at its place: the longest run, the longest number, the longest operator,
or the text up to the first place where a literal or a comment may be cut. The description says
nothing about how a text is read. It leaves exactly one reading at every place, and this is the
one that lexing finds. -/
namespace TryGo

/-! ### Words and operators -/

/-- Whether a kind is the kind of a word: the kind of its entry among the keywords, or that of
identifiers if it has none. -/
def WordKind (word : String) (kind : TokenKind) : Prop :=
  (word, kind) ∈ TokenKind.keywords
    ∨ kind = .ident ∧ word ∉ TokenKind.keywords.map Prod.fst

theorem WordKind.eq_ofWord {word : String} {kind : TokenKind} (hKind : WordKind word kind) :
    kind = TokenKind.ofWord word := by
  have hTable : ∀ entry ∈ TokenKind.keywords, TokenKind.ofWord entry.1 = entry.2 := by decide
  rcases hKind with hEntry | ⟨rfl, hNone⟩
  · exact (hTable _ hEntry).symm
  · have hLookup : TokenKind.keywords.lookup word = none := by
      rw [List.lookup_eq_none_iff]
      intro entry hMem
      rw [bne_iff_ne]
      rintro rfl
      exact hNone (List.mem_map_of_mem hMem)
    rw [TokenKind.ofWord, hLookup]
    rfl

theorem wordKind_ofWord (word : String) : WordKind word (TokenKind.ofWord word) := by
  by_cases hWord : word ∈ TokenKind.keywords.map Prod.fst
  · obtain ⟨⟨entry, kind⟩, hMem, rfl⟩ := List.mem_map.mp hWord
    rw [← (show WordKind entry kind from .inl hMem).eq_ofWord]
    exact .inl hMem
  · rw [← (show WordKind word .ident from .inr ⟨rfl, hWord⟩).eq_ofWord]
    exact .inr ⟨rfl, hWord⟩

/-- Whether an entry of the table of operators is the longest that starts a text. -/
structure LongestOperator (span : List Char) (kind : TokenKind) (chars : List Char) : Prop where
  mem : (span, kind) ∈ TokenKind.operators
  longest : LongestIn (fun text => text ∈ TokenKind.operators.map Prod.fst) span chars

theorem LongestOperator.eq {span other chars : List Char} {kind otherKind : TokenKind}
    (hSpan : LongestOperator span kind chars) (hOther : LongestOperator other otherKind chars) :
    span = other ∧ kind = otherKind := by
  have hTable : ∀ entry ∈ TokenKind.operators,
      TokenKind.operators.lookup entry.1 = some entry.2 := by decide
  obtain rfl := hSpan.longest.eq hOther.longest
  exact ⟨rfl, Option.some.inj ((hTable _ hSpan.mem).symm.trans (hTable _ hOther.mem))⟩

/-- The first entry that starts a text is the longest, since the longer ones stand first. -/
theorem longestOperator_of_find? {chars span : List Char} {kind : TokenKind}
    (hFind : TokenKind.operators.find? (fun entry => entry.1.isPrefixOf chars) =
      some (span, kind)) :
    LongestOperator span kind chars := by
  have hOrder : TokenKind.operators.Pairwise fun a b => b.1.length ≤ a.1.length := by decide
  obtain ⟨hStarts, before, after, hSplit, hBefore⟩ := List.find?_eq_some_iff_append.mp hFind
  have hMem : (span, kind) ∈ TokenKind.operators := List.mem_of_find?_eq_some hFind
  refine ⟨hMem, List.mem_map_of_mem hMem, List.isPrefixOf_iff_prefix.mp hStarts, ?_⟩
  intro other hOther hOtherStarts
  obtain ⟨entry, hEntry, rfl⟩ := List.mem_map.mp hOther
  rw [hSplit] at hOrder hEntry
  rcases List.mem_append.mp hEntry with hEarlier | hLater
  · have hNot := hBefore entry hEarlier
    rw [List.isPrefixOf_iff_prefix.mpr hOtherStarts] at hNot
    cases hNot
  · rcases List.mem_cons.mp hLater with rfl | hLater
    · exact Nat.le_refl _
    · exact (List.pairwise_cons.mp (List.pairwise_append.mp hOrder).2.1).1 entry hLater

/-! ### The grammar -/

/-- Whether no word, number, literal or comment starts with these characters. -/
structure StartsSymbol (c : Char) (rest : List Char) : Prop where
  word : isWordStart c = false
  digit : c.isDigit = false
  mark : c ∉ ['"', '\'', backtick]
  comment : c = '/' → ∀ d, rest.head? = some d → d ∉ ['/', '*']

/-- The lexical grammar: which lexeme stands at the start of a text. -/
inductive Lexical : List Char → Lexeme → Prop
  | eof : Lexical [] ⟨.eof, [], []⟩
  | word {c : Char} {rest span : List Char} {kind : TokenKind} (hStart : isWordStart c = true)
      (hSpan : LongestIn (fun run => ∀ d ∈ run, isWordChar d = true) span (c :: rest))
      (hKind : WordKind (String.ofList span) kind) :
      Lexical (c :: rest) (.plain kind span)
  | number {c : Char} {rest span : List Char} {kind : TokenKind} (hDigit : c.isDigit = true)
      (hSpan : LongestIn (fun text => ∃ kind, NumberForm kind text) span (c :: rest))
      (hKind : NumberForm kind span) :
      Lexical (c :: rest) (.plain kind span)
  | quoted {quote : Char} {content rest : List Char} {kind : TokenKind}
      (hQuote : (kind, quote) ∈ [(TokenKind.string, '"'), (.char, '\'')])
      (hContent : FirstCut (MeetsQuote quote) content rest) :
      Lexical (quote :: (content ++ rest)) ⟨kind, content, quote :: (content ++ rest.take 1)⟩
  | raw {content rest : List Char} (hContent : FirstCut (Meets backtick) content rest) :
      Lexical (backtick :: (content ++ rest))
        ⟨.rawString, content, backtick :: (content ++ rest.take 1)⟩
  | lineComment {line rest : List Char} (hLine : FirstCut (Meets '\n') line rest) :
      Lexical ('/' :: '/' :: (line ++ rest)) (.plain .comment ('/' :: '/' :: line))
  | blockComment {body rest : List Char} (hBody : FirstCut HasMark body rest) :
      Lexical ('/' :: '*' :: (body ++ rest)) (.plain .blockComment ('/' :: '*' :: body))
  | operator {c : Char} {rest span : List Char} {kind : TokenKind} (hStart : StartsSymbol c rest)
      (hSpan : LongestOperator span kind (c :: rest)) :
      Lexical (c :: rest) (.plain kind span)
  | illegal {c : Char} {rest : List Char} (hStart : StartsSymbol c rest)
      (hNone : ∀ entry ∈ TokenKind.operators, ¬ entry.1 <+: c :: rest) :
      Lexical (c :: rest) (.plain .illegal [c])

namespace Lexeme

theorem lexical_operator {c : Char} {rest : List Char} (hStart : StartsSymbol c rest) :
    Lexical (c :: rest) (operator (c :: rest)) := by
  unfold operator
  split
  next span kind hFind => exact .operator hStart (longestOperator_of_find? hFind)
  next hNone =>
    refine .illegal hStart fun entry hMem hStarts => ?_
    exact List.find?_eq_none.mp hNone entry hMem (List.isPrefixOf_iff_prefix.mpr hStarts)

theorem delimited_append (kind : TokenKind) (mark : Char) (content rest : List Char) :
    delimited kind mark content (content ++ rest) =
      ⟨kind, content, mark :: (content ++ rest.take 1)⟩ := by
  rw [delimited, List.drop_left, List.cons_append]

theorem lexical_quoted {kind : TokenKind} {quote : Char} (chars : List Char)
    (hQuote : (kind, quote) ∈ [(TokenKind.string, '"'), (.char, '\'')]) :
    Lexical (quote :: chars) (delimited kind quote (quotedContent quote chars) chars) := by
  obtain ⟨rest, hChars, hCut⟩ := firstCut_quotedContent quote chars
  generalize quotedContent quote chars = content at hChars hCut
  subst hChars
  rw [delimited_append]
  exact .quoted hQuote hCut

theorem lexical_raw (chars : List Char) :
    Lexical (backtick :: chars)
      (delimited .rawString backtick (chars.takeWhile (· != backtick)) chars) := by
  have hChars : chars.takeWhile (· != backtick) ++ chars.dropWhile (· != backtick) = chars :=
    List.takeWhile_append_dropWhile
  have hLexical := Lexical.raw (firstCut_takeWhile backtick chars)
  rwa [← delimited_append, hChars] at hLexical

/-- What is read at the start of a text is what the grammar finds there. -/
theorem lexical_scan (c : Char) (rest : List Char) : Lexical (c :: rest) (scan (c :: rest)) := by
  rw [scan]
  split
  next hStart => exact .word hStart (longestIn_takeWhile isWordChar _) (wordKind_ofWord _)
  split
  next hDigit =>
    rw [number_plain]
    exact .number hDigit (longestIn_number hDigit rest) (numberForm_number hDigit rest)
  split
  next hQuote =>
    subst hQuote
    exact lexical_quoted rest (by decide)
  split
  next hQuote =>
    subst hQuote
    exact lexical_quoted rest (by decide)
  split
  next hQuote =>
    subst hQuote
    exact lexical_raw rest
  next hWord hDigit hString hChar hRaw =>
  have hStarts : (c = '/' → ∀ d, rest.head? = some d → d ∉ ['/', '*']) → StartsSymbol c rest :=
    fun hComment => ⟨by simpa using hWord, by simpa using hDigit, by simp [hString, hChar, hRaw],
      hComment⟩
  split
  next hSlash =>
    subst hSlash
    unfold slash
    split
    next tail =>
      have hLexical := Lexical.lineComment (firstCut_takeWhile '\n' tail)
      rwa [List.takeWhile_append_dropWhile] at hLexical
    next tail =>
      obtain ⟨rest, hTail, hCut⟩ := firstCut_blockCommentTail tail
      have hLexical := Lexical.blockComment hCut
      rwa [← hTail] at hLexical
    next hLine hBlock =>
      refine lexical_operator (hStarts fun _ d hHead hMem => ?_)
      obtain ⟨tail, rfl⟩ := List.head?_eq_some_iff.mp hHead
      simp only [List.mem_cons, List.not_mem_nil, or_false] at hMem
      rcases hMem with rfl | rfl
      · exact hLine tail rfl
      · exact hBlock tail rfl
  next hSlash => exact lexical_operator (hStarts fun hEq => absurd hEq hSlash)

/-- Behind a character that starts a symbol, only the table of operators is looked up. -/
theorem scan_of_startsSymbol {c : Char} {rest : List Char} (hStart : StartsSymbol c rest) :
    scan (c :: rest) = operator (c :: rest) := by
  obtain ⟨hWord, hDigit, hMark, hComment⟩ := hStart
  simp only [List.mem_cons, List.not_mem_nil, or_false, not_or] at hMark
  rw [scan, if_neg (by simp [hWord]), if_neg (by simp [hDigit]), if_neg hMark.1, if_neg hMark.2.1,
    if_neg hMark.2.2]
  split
  next hSlash =>
    subst hSlash
    unfold slash
    split
    · exact absurd List.mem_cons_self (hComment rfl '/' rfl)
    · exact absurd (List.mem_cons_of_mem _ List.mem_cons_self) (hComment rfl '*' rfl)
    · rfl
  next => rfl

/-- The grammar leaves no choice: what it finds is what is read. -/
theorem eq_scan_of_lexical {chars : List Char} {lexeme : Lexeme} (hLexical : Lexical chars lexeme)
    (hSome : chars ≠ []) : lexeme = scan chars := by
  cases hLexical with
  | eof => exact absurd rfl hSome
  | word hStart hSpan hKind =>
      rw [scan, if_pos hStart, word, hKind.eq_ofWord,
        hSpan.eq (longestIn_takeWhile isWordChar _)]
  | @number c rest span kind hDigit hSpan hKind =>
      obtain rfl := hSpan.eq (longestIn_number hDigit rest)
      rw [scan, if_neg (by simp [isWordStart_of_isDigit hDigit]), if_pos hDigit, number_plain,
        numberForm_kind_eq hKind (numberForm_number hDigit rest)]
      rfl
  | @quoted quote content rest kind hQuote hContent =>
      obtain ⟨rest', hChars, hCut⟩ := firstCut_quotedContent quote (content ++ rest)
      have hSame : quotedContent quote (content ++ rest) = content :=
        (hCut.eq hContent hChars.symm).1
      rw [← delimited_append]
      simp only [List.mem_cons, Prod.mk.injEq, List.not_mem_nil, or_false] at hQuote
      rcases hQuote with ⟨rfl, rfl⟩ | ⟨rfl, rfl⟩
      · rw [scan]
        simp [isWordStart, hSame]
      · rw [scan]
        simp [isWordStart, hSame]
  | @raw content rest hContent =>
      have hSame : (content ++ rest).takeWhile (· != backtick) = content :=
        ((firstCut_takeWhile backtick (content ++ rest)).eq hContent
          List.takeWhile_append_dropWhile).1
      rw [← delimited_append, scan, hSame]
      rfl
  | @lineComment line rest hLine =>
      have hSame : (line ++ rest).takeWhile (· != '\n') = line :=
        ((firstCut_takeWhile '\n' (line ++ rest)).eq hLine List.takeWhile_append_dropWhile).1
      change _ = plain .comment ('/' :: '/' :: (line ++ rest).takeWhile (· != '\n'))
      rw [hSame]
  | @blockComment body rest hBody =>
      obtain ⟨rest', hChars, hCut⟩ := firstCut_blockCommentTail (body ++ rest)
      change _ = plain .blockComment ('/' :: '*' :: blockCommentTail (body ++ rest))
      rw [(hCut.eq hBody hChars.symm).1]
  | @operator c rest span kind hStart hSpan =>
      rw [scan_of_startsSymbol hStart, operator]
      split
      next other otherKind hFind =>
        obtain ⟨rfl, rfl⟩ := hSpan.eq (longestOperator_of_find? hFind)
        rfl
      next hNone =>
        exact absurd (List.isPrefixOf_iff_prefix.mpr hSpan.longest.starts)
          (List.find?_eq_none.mp hNone _ hSpan.mem)
  | @illegal c rest hStart hNone =>
      rw [scan_of_startsSymbol hStart, operator]
      split
      next other otherKind hFind =>
        exact absurd (longestOperator_of_find? hFind).longest.starts
          (hNone _ (List.mem_of_find?_eq_some hFind))
      next => rfl

end Lexeme

/-- The grammar finds one lexeme at most. -/
theorem Lexical.unique {chars : List Char} {lexeme other : Lexeme} (hLexical : Lexical chars lexeme)
    (hOther : Lexical chars other) : other = lexeme := by
  by_cases hSome : chars = []
  · subst hSome
    cases hLexical
    cases hOther
    rfl
  · rw [Lexeme.eq_scan_of_lexical hLexical hSome, Lexeme.eq_scan_of_lexical hOther hSome]

/-- Every token of a text stands where some of the text has been read, and is the first lexeme of
what is left of it. -/
theorem Lexer.exists_reading (lexer : Lexer) : ∀ token ∈ lexer.words, ∃ front c rest later,
    lexer.Reads front later ∧ later.rest = c :: rest ∧ isBlank c = false
      ∧ token = (Lexeme.scan (c :: rest)).token later.pos := by
  fun_induction words lexer with
  | case1 => exact fun token hMem => absurd hMem List.not_mem_nil
  | case2 lexer hMore ih =>
      intro token hMem
      have hSkip : lexer.Reads _ lexer.skipBlanks := reads_drop lexer _
      obtain ⟨c, rest, hRest⟩ := List.exists_cons_of_ne_nil hMore
      rcases List.mem_cons.mp hMem with rfl | hMem
      · refine ⟨_, c, rest, lexer.skipBlanks, hSkip, hRest, ?_, ?_⟩
        · have hNot := List.head?_dropWhile_not isBlank lexer.rest
          rw [← rest_skipBlanks, hRest] at hNot
          simpa using hNot
        · rw [next, take, hRest]
          rfl
      · obtain ⟨-, chars, -, hNext⟩ := reads_next hMore
        obtain ⟨front, d, tail, later, hReads, hLater⟩ := ih token hMem
        exact ⟨_, d, tail, later, (hSkip.trans hNext).trans hReads, hLater⟩

/-- Lexing realises the grammar: at every token of a source, the end mark included, the grammar
finds the kind and the literal of the token, and nothing else. -/
theorem tokenize_lexical (source : String) : ∀ token ∈ tokenize source, ∃ span,
    Lexical (source.toList.drop token.pos.offset) ⟨token.kind, token.literal.toList, span⟩
      ∧ ∀ other, Lexical (source.toList.drop token.pos.offset) other →
          other = ⟨token.kind, token.literal.toList, span⟩ := by
  intro token hMem
  rcases List.mem_append.mp hMem with hWord | hEnd
  · obtain ⟨front, c, rest, later, ⟨hText, hPos⟩, hRest, -, rfl⟩ :=
      (Lexer.ofString source).exists_reading token hWord
    have hSource : source.toList = front ++ c :: rest := hText.trans (congrArg (front ++ ·) hRest)
    have hOffset : later.pos.offset = front.length := by
      rw [hPos, Position.offset_advance]
      exact Nat.zero_add _
    have hLexical := Lexeme.lexical_scan c rest
    refine ⟨(Lexeme.scan (c :: rest)).span, ?_⟩
    simp only [Lexeme.token, String.toList_ofList, hSource, hOffset, List.drop_left]
    exact ⟨hLexical, fun other hOther => hLexical.unique hOther⟩
  · obtain rfl := List.mem_singleton.mp hEnd
    have hOffset : (Lexer.ofString source).endPos.offset = source.toList.length := by
      rw [Lexer.endPos, Position.offset_advance]
      exact Nat.zero_add _
    refine ⟨[], ?_⟩
    simp only [Token.eof, hOffset, List.drop_length]
    exact ⟨.eof, fun other hOther => Lexical.eof.unique hOther⟩

/-- A dangling exponent belongs to its number. -/
theorem tokenize_lexical_exponent :
    (⟨.float, "1e+", ⟨1, 4, 3⟩⟩ : Token) ∈ tokenize "if 1e+..."
      ∧ ∃ span, Lexical ("if 1e+...".toList.drop 3) ⟨.float, "1e+".toList, span⟩
        ∧ ∀ other, Lexical ("if 1e+...".toList.drop 3) other →
            other = ⟨.float, "1e+".toList, span⟩ := by
  have hMem : (⟨.float, "1e+", ⟨1, 4, 3⟩⟩ : Token) ∈ tokenize "if 1e+..." := by decide +kernel
  exact ⟨hMem, tokenize_lexical "if 1e+..." _ hMem⟩

end TryGo
