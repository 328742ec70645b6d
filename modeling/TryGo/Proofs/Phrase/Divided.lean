import TryGo.Proofs.Again.Expr

/-! The text of a phrase is divided into the tokens of the phrase. There is one exception: a minus
sign that directly follows another one is taken together with it. -/
namespace TryGo

mutual

/-- Whether no minus sign directly follows another one in the text of a phrase. -/
def ExprPhrase.SignsApart : ExprPhrase → Prop
  | .atom _ _ _ => True
  | .group _ inner _ => inner.SignsApart
  | .unary op _ operand =>
      (op.kind = .minus → nextKind operand.tokens ≠ .minus) ∧ operand.SignsApart
  | .binary left _ _ right => left.SignsApart ∧ right.SignsApart
  | .callEmpty callee _ _ => callee.SignsApart
  | .call callee _ args _ => callee.SignsApart ∧ args.SignsApart
  | .select left _ _ => left.SignsApart
  | .index left _ position _ => left.SignsApart ∧ position.SignsApart

def ExprsPhrase.SignsApart : ExprsPhrase → Prop
  | .last e => e.SignsApart
  | .more e _ rest => e.SignsApart ∧ rest.SignsApart

end

/-! ### Pieces of a text -/

/-- Whether a text is divided into some words in front of another one. If its signs need not be
apart, two of them may be taken together instead. -/
def Divides (apart : Prop) (chars : List Char) (words : List Spelling) (rest : List Char) : Prop :=
  spellings (chars ++ rest) = words ++ spellings rest
    ∨ ¬apart ∧ .dec ∈ (spellings (chars ++ rest)).map Prod.fst

namespace Divides

variable {apart stronger : Prop} {front back rest : List Char} {words more : List Spelling}

theorem imp (hImp : stronger → apart) (hDivides : Divides apart front words rest) :
    Divides stronger front words rest :=
  Or.imp_right (And.imp_left (mt hImp)) hDivides

theorem append (hFront : Divides apart front words (back ++ rest))
    (hBack : Divides apart back more rest) :
    Divides apart (front ++ back) (words ++ more) rest := by
  unfold Divides
  rw [List.append_assoc]
  rcases hFront with hFront | hFused
  · rcases hBack with hBack | ⟨hApart, hDec⟩
    · exact .inl (by rw [hFront, hBack, List.append_assoc])
    · refine .inr ⟨hApart, ?_⟩
      rw [hFront, List.map_append]
      exact List.mem_append_right _ hDec
  · exact .inr hFused

end Divides

section Pieces

variable {apart : Prop} {token op : Token} {value : Expr} {rest : List Char}

/-- An operand has the text of its value. -/
theorem source_operand (hValue : operand? token = some value) (hLexed : token.Lexed) :
    token.source = value.goText.toList := by
  unfold operand? at hValue
  unfold Token.source
  split at hValue
  case h_10 => cases hValue
  case h_2 hKind =>
    obtain ⟨number, -, rfl⟩ := Option.map_eq_some_iff.mp hValue
    rw [hKind]
    rfl
  case h_3 hKind =>
    obtain ⟨number, -, rfl⟩ := Option.map_eq_some_iff.mp hValue
    rw [hKind]
    rfl
  all_goals
    next hKind =>
      obtain rfl := Option.some.inj hValue
      rw [hKind]
      first
        | (rw [hLexed.literal_eq hKind rfl]; rfl)
        | simp [TokenKind.delimiter?, Expr.goText, stringText, charText, backtick]

theorem source_operator (hOp : op.kind.isUnary = true ∨ op.kind.isBinary = true) :
    op.source = op.literal.toList := by
  have hNone : op.kind.delimiter? = none := by
    revert hOp
    cases op.kind <;> decide
  rw [Token.source, hNone]

theorem divides_operand (hValue : operand? token = some value) (hSound : token.Sound)
    (hBreaks : Breaks rest) : Divides apart token.source [token.spelling] rest := by
  have hClosed : value.isClosed = true := (isClosed_operand hValue).trans hSound.closed
  have hLexes := value.lexes (wellFormed_operand hValue)
    (lexical_operand hValue hSound.lexed hClosed) rest hBreaks
  rw [written_operand hValue hSound.lexed, ← source_operand hValue hSound.lexed] at hLexes
  exact .inl hLexes

/-- The kinds of the brackets in an expression and of the comma. -/
def TokenKind.brackets : List TokenKind := [.lparen, .rparen, .lbracket, .rbracket, .comma]

theorem Mark.exists_source {kind : TokenKind} (mark : Mark kind)
    (hKind : kind ∈ TokenKind.brackets) (hLexed : mark.val.Lexed) :
    ∃ c ∈ enders, (c, kind) ∈ loneDelimiters ∧ mark.val.source = [c]
      ∧ mark.val.spelling = (kind, String.ofList [c]) := by
  have hTable : ∀ kind ∈ TokenKind.brackets, ∃ c ∈ enders, (c, kind) ∈ loneDelimiters
      ∧ kind.fixed? = some (String.ofList [c]) ∧ kind.delimiter? = none := by
    simp only [TokenKind.brackets, List.forall_mem_cons]
    exact ⟨⟨'(', by simp [enders], by simp [loneDelimiters], rfl, rfl⟩,
      ⟨')', by simp [enders], by simp [loneDelimiters], rfl, rfl⟩,
      ⟨'[', by simp [enders], by simp [loneDelimiters], rfl, rfl⟩,
      ⟨']', by simp [enders], by simp [loneDelimiters], rfl, rfl⟩,
      ⟨',', by simp [enders], by simp [loneDelimiters], rfl, rfl⟩, List.forall_mem_nil _⟩
  obtain ⟨c, hEnder, hDelimiter, hFixed, hNone⟩ := hTable kind hKind
  refine ⟨c, hEnder, hDelimiter, ?_, mark.spelling_eq hLexed hFixed⟩
  rw [mark.source_eq hNone, hLexed.literal_eq mark.property hFixed, String.toList_ofList]

/-- Brackets and commas are divided off from whatever follows. -/
theorem Mark.divides {kind : TokenKind} (mark : Mark kind) (hKind : kind ∈ TokenKind.brackets)
    (hSound : mark.val.Sound) (rest : List Char) :
    Divides apart mark.val.source [mark.val.spelling] rest := by
  obtain ⟨c, -, hDelimiter, hSource, hSpelling⟩ := mark.exists_source hKind hSound.lexed
  rw [hSource, hSpelling]
  exact .inl (spellings_delimiter kind hDelimiter rest)

/-- Brackets and commas continue nothing. -/
theorem Mark.breaks {kind : TokenKind} (mark : Mark kind) (hKind : kind ∈ TokenKind.brackets)
    (hSound : mark.val.Sound) (rest : List Char) : Breaks (mark.val.source ++ rest) := by
  obtain ⟨c, hEnder, -, hSource, -⟩ := mark.exists_source hKind hSound.lexed
  rw [hSource]
  exact breaks_ender hEnder rest

theorem divides_blank : Divides apart [' '] [] rest := .inl (spellings_blank rfl rest)

/-- A point and the name behind it are divided off. -/
theorem divides_field (dot : Mark .dot) (field : Mark .ident) (hDot : dot.val.Sound)
    (hField : field.val.Sound) (hBreaks : Breaks rest) :
    Divides apart (dot.val.source ++ field.val.source) [dot.val.spelling, field.val.spelling]
      rest := by
  have hName := isName_mark field hField.lexed
  rw [dot.source_eq rfl, field.source_eq rfl, dot.spelling_eq hDot.lexed rfl,
    field.spelling_ident, hDot.lexed.literal_eq dot.property rfl]
  exact .inl (spellings_point hName (Lexeme.isWordChar_head hBreaks))

/-- A binary operator is divided off from the blank behind it. -/
theorem divides_binary (hBinary : op.kind.isBinary = true) (hSound : op.Sound) (rest : List Char) :
    Divides apart (' ' :: (op.source ++ [' '])) [op.spelling] rest := by
  have hOp := mem_binaryOperators hSound.lexed hBinary
  have hSource : op.source = op.literal.toList := source_operator (.inr hBinary)
  have hText : ' ' :: (op.source ++ [' ']) ++ rest = ' ' :: (op.literal.toList ++ ' ' :: rest) := by
    rw [hSource]
    simp
  rw [Divides, hText, spellings_blank (by decide), spellings_infix hOp,
    spelling_binary hSound.lexed hBinary]
  exact .inl rfl

/-- Two minus signs in a row are taken together. -/
theorem spellings_dec (rest : List Char) :
    spellings ('-' :: '-' :: rest) = (.dec, "--") :: spellings rest :=
  spellings_plain ['-', '-'] .dec rfl rfl

/-- The text of a phrase starts with no character that makes an operator longer, but perhaps with
a minus sign. -/
theorem ExprPhrase.exists_head (phrase : ExprPhrase) (hSound : AllSound phrase.tokens) :
    ∃ c tail, phrase.source = c :: tail ∧ c ∉ ['=', '>']
      ∧ (c = '-' → ∀ more, nextKind (phrase.tokens ++ more) = .minus) := by
  match phrase with
  | .atom token value hValue =>
      have hToken := hSound token List.mem_cons_self
      have hClosed : value.isClosed = true := (isClosed_operand hValue).trans hToken.closed
      have hLevel : Precedence.call.level ≤ value.goLevel := by
        rw [goLevel_operand hValue]
        decide
      obtain ⟨c, tail, hText, hStarts⟩ := value.startsOperand_goText (wellFormed_operand hValue)
        (lexical_operand hValue hToken.lexed hClosed) hLevel
      have hNone := startsOperand_not_mem hStarts
      simp only [List.mem_cons, List.not_mem_nil, or_false, not_or] at hNone ⊢
      refine ⟨c, tail, ?_, ⟨hNone.1, hNone.2.2.1⟩, fun hMinus => absurd hMinus hNone.2.1⟩
      rw [ExprPhrase.source, source_operand hValue hToken.lexed, hText]
  | .group opening inner closing =>
      have hOpening := hSound opening.val List.mem_cons_self
      refine ⟨'(', inner.source ++ closing.val.source, ?_, by decide, nofun⟩
      rw [ExprPhrase.source, opening.source_eq rfl, hOpening.lexed.literal_eq opening.property rfl]
      rfl
  | .unary op hOp operand =>
      have hLexed := (hSound op List.mem_cons_self).lexed
      have hTable : ∀ kind ∈ TokenKind.unaryKinds, ∃ c ∈ ['!', '-', '^'],
          kind.fixed? = some (String.ofList [c]) ∧ c ∉ ['=', '>'] ∧ (c = '-' → kind = .minus) := by
        simp only [TokenKind.unaryKinds, List.forall_mem_cons]
        exact ⟨⟨'!', by simp, rfl, by simp, by simp⟩, ⟨'-', by simp, rfl, by simp, by simp⟩,
          ⟨'^', by simp, rfl, by simp, by simp⟩, List.forall_mem_nil _⟩
      obtain ⟨c, -, hFixed, hHead, hMinus⟩ := hTable op.kind (TokenKind.mem_unaryKinds hOp)
      refine ⟨c, operand.source, ?_, hHead, fun hSign _ => hMinus hSign⟩
      rw [ExprPhrase.source, source_operator (.inl hOp), hLexed.fixed _ hFixed,
        String.toList_ofList, List.singleton_append]
  | .binary left _ _ _ | .callEmpty left _ _ | .call left _ _ _ | .select left _ _
  | .index left _ _ _ =>
      rw [ExprPhrase.tokens, allSound_append] at hSound
      obtain ⟨c, tail, hText, hHead, hMinus⟩ := left.exists_head hSound.1
      refine ⟨c, tail ++ _, by rw [ExprPhrase.source, hText]; rfl, hHead, fun hSign more => ?_⟩
      rw [ExprPhrase.tokens, List.append_assoc]
      exact hMinus hSign _

/-- A unary operator is divided off from its operand, unless both are minus signs. -/
theorem divides_unary (hUnary : op.kind.isUnary = true) (hSound : op.Sound) {operand : ExprPhrase}
    (hOperand : AllSound operand.tokens) (rest : List Char) :
    Divides (op.kind = .minus → nextKind operand.tokens ≠ .minus) op.source [op.spelling]
      (operand.source ++ rest) := by
  obtain ⟨c, tail, hText, hHead, hMinus⟩ := operand.exists_head hOperand
  simp only [List.mem_cons, List.not_mem_nil, or_false, not_or] at hHead
  have hNext : c = '-' → nextKind operand.tokens = .minus := fun hSign => by
    have hFirst := hMinus hSign []
    rwa [List.append_nil] at hFirst
  have hLexed := hSound.lexed
  rw [source_operator (.inl hUnary), hText, Token.spelling, List.cons_append]
  rcases (by simpa [TokenKind.unaryKinds] using TokenKind.mem_unaryKinds hUnary :
    op.kind = .bang ∨ op.kind = .minus ∨ op.kind = .bitXor) with hKind | hKind | hKind
  · rw [hKind, hLexed.literal_eq hKind rfl]
    refine .inl (spellings_shortOperator .bang ['='] (by decide) fun d hFirst => ?_)
    obtain rfl : c = d := Option.some.inj hFirst
    simpa using hHead.1
  · rw [hKind, hLexed.literal_eq hKind rfl]
    by_cases hSign : c = '-'
    · subst hSign
      refine .inr ⟨fun hApart => hApart rfl (hNext rfl), ?_⟩
      exact List.mem_map.mpr ⟨_, (spellings_dec _).symm ▸ List.mem_cons_self, rfl⟩
    · refine .inl (spellings_shortOperator .minus ['=', '-', '>'] (by decide) fun d hFirst => ?_)
      obtain rfl : c = d := Option.some.inj hFirst
      simpa using ⟨hHead.1, hSign, hHead.2⟩
  · rw [hKind, hLexed.literal_eq hKind rfl]
    refine .inl (spellings_shortOperator .bitXor ['='] (by decide) fun d hFirst => ?_)
    obtain rfl : c = d := Option.some.inj hFirst
    simpa using hHead.1

theorem breaks_field (dot : Mark .dot) (field : Mark .ident) (hDot : dot.val.Sound)
    (hField : field.val.Sound) (rest : List Char) :
    Breaks (dot.val.source ++ field.val.source ++ rest) := by
  rw [dot.source_eq rfl, field.source_eq rfl, hDot.lexed.literal_eq dot.property rfl]
  exact breaks_point (isName_mark field hField.lexed) rest

end Pieces

mutual

/-- The text of a phrase is divided into the tokens of the phrase, in front of whatever does not
continue the last of them. -/
theorem ExprPhrase.divides : (phrase : ExprPhrase) → AllSound phrase.tokens →
    ∀ rest, Breaks rest →
      Divides phrase.SignsApart phrase.source (phrase.tokens.map Token.spelling) rest
  | .atom token value hValue, hSound, _, hBreaks =>
      divides_operand hValue (hSound token List.mem_cons_self) hBreaks
  | .group opening inner closing, hSound, rest, _ => by
      simp only [ExprPhrase.tokens, allSound_cons, allSound_append, allSound_nil,
        and_true] at hSound
      obtain ⟨hOpening, hInner, hClosing⟩ := hSound
      rw [ExprPhrase.tokens, List.map_cons, List.map_append]
      exact (opening.divides (by decide) hOpening _).append
        ((inner.divides hInner _ (closing.breaks (by decide) hClosing _)).append
          (closing.divides (by decide) hClosing _))
  | .unary op hOp operand, hSound, rest, hBreaks => by
      simp only [ExprPhrase.tokens, allSound_cons] at hSound
      rw [ExprPhrase.tokens, List.map_cons]
      exact ((divides_unary hOp hSound.1 hSound.2 rest).imp And.left).append
        ((operand.divides hSound.2 rest hBreaks).imp And.right)
  | .binary left op hOp right, hSound, rest, hBreaks => by
      simp only [ExprPhrase.tokens, allSound_cons, allSound_append] at hSound
      obtain ⟨hLeft, hOperator, hRight⟩ := hSound
      have hSource : (ExprPhrase.binary left op hOp right).source =
          left.source ++ (' ' :: (op.source ++ [' ']) ++ right.source) := by
        simp [ExprPhrase.source]
      rw [ExprPhrase.tokens, List.map_append, List.map_cons, hSource]
      exact ((left.divides hLeft _ (breaks_ender (by decide) _)).imp And.left).append
        ((divides_binary hOp hOperator _).append
          ((right.divides hRight rest hBreaks).imp And.right))
  | .callEmpty callee opening closing, hSound, rest, _ => by
      simp only [ExprPhrase.tokens, allSound_cons, allSound_append, allSound_nil,
        and_true] at hSound
      obtain ⟨hCallee, hOpening, hClosing⟩ := hSound
      rw [ExprPhrase.tokens, List.map_append]
      refine (callee.divides hCallee _ ?_).append
        ((opening.divides (by decide) hOpening _).append (closing.divides (by decide) hClosing _))
      rw [List.append_assoc]
      exact opening.breaks (by decide) hOpening _
  | .call callee opening args closing, hSound, rest, _ => by
      simp only [ExprPhrase.tokens, allSound_cons, allSound_append, allSound_nil,
        and_true] at hSound
      obtain ⟨hCallee, hOpening, hArgs, hClosing⟩ := hSound
      rw [ExprPhrase.tokens, List.map_append, List.map_cons, List.map_append]
      refine ((callee.divides hCallee _ ?_).imp And.left).append
        ((opening.divides (by decide) hOpening _).append
          (((args.divides hArgs _ (closing.breaks (by decide) hClosing _)).imp
            And.right).append (closing.divides (by decide) hClosing _)))
      rw [List.append_assoc]
      exact opening.breaks (by decide) hOpening _
  | .select left dot field, hSound, rest, hBreaks => by
      simp only [ExprPhrase.tokens, allSound_cons, allSound_append, allSound_nil,
        and_true] at hSound
      obtain ⟨hLeft, hDot, hField⟩ := hSound
      rw [ExprPhrase.tokens, List.map_append]
      exact (left.divides hLeft _ (breaks_field dot field hDot hField _)).append
        (divides_field dot field hDot hField hBreaks)
  | .index left opening position closing, hSound, rest, _ => by
      simp only [ExprPhrase.tokens, allSound_cons, allSound_append, allSound_nil,
        and_true] at hSound
      obtain ⟨hLeft, hOpening, hPosition, hClosing⟩ := hSound
      rw [ExprPhrase.tokens, List.map_append, List.map_cons, List.map_append]
      refine ((left.divides hLeft _ ?_).imp And.left).append
        ((opening.divides (by decide) hOpening _).append
          (((position.divides hPosition _ (closing.breaks (by decide) hClosing _)).imp
            And.right).append (closing.divides (by decide) hClosing _)))
      rw [List.append_assoc]
      exact opening.breaks (by decide) hOpening _

theorem ExprsPhrase.divides : (phrase : ExprsPhrase) → AllSound phrase.tokens →
    ∀ rest, Breaks rest →
      Divides phrase.SignsApart phrase.source (phrase.tokens.map Token.spelling) rest
  | .last e, hSound, rest, hBreaks => e.divides hSound rest hBreaks
  | .more e comma others, hSound, rest, hBreaks => by
      simp only [ExprsPhrase.tokens, allSound_cons, allSound_append] at hSound
      obtain ⟨hFirst, hComma, hOthers⟩ := hSound
      have hSource : (ExprsPhrase.more e comma others).source =
          e.source ++ (comma.val.source ++ ([' '] ++ others.source)) := by
        simp [ExprsPhrase.source]
      rw [ExprsPhrase.tokens, List.map_append, List.map_cons, hSource]
      refine ((e.divides hFirst _ ?_).imp And.left).append
        ((comma.divides (by decide) hComma _).append
          (divides_blank.append ((others.divides hOthers rest hBreaks).imp And.right)))
      rw [List.append_assoc]
      exact comma.breaks (by decide) hComma _

end

end TryGo
