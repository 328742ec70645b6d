import TryGo.Proofs.Again.Token
import TryGo.Proofs.GoReading.Meaning
import TryGo.Proofs.GoType.Results
import TryGo.Proofs.PassThrough.Text

/-! The phrase of a printed expression. It has the tokens of the expression but for the parentheses,
which are those that the printer puts. It stands for the same tree, says what the tree is
written as, and may be read wherever an expression may. -/
namespace TryGo

/-- The parentheses that the printer puts. -/
def printedOpening : Mark .lparen := ⟨⟨.lparen, "(", .start⟩, rfl⟩

def printedClosing : Mark .rparen := ⟨⟨.rparen, ")", .start⟩, rfl⟩

def ExprPhrase.groupIf (wanted : Bool) (phrase : ExprPhrase) : ExprPhrase :=
  if wanted then .group printedOpening phrase printedClosing else phrase

mutual

def ExprPhrase.printed : ExprPhrase → ExprPhrase
  | .atom token value hValue => .atom token value hValue
  | .group _ inner _ => inner.printed
  | .unary op hOp operand =>
      .unary op hOp (operand.printed.groupIf operand.tree.needsParensInUnary)
  | .binary left op hOp right =>
      .binary (left.printed.groupIf (left.tree.goLevel < (Precedence.ofOperator op.literal).level))
        op hOp
        (right.printed.groupIf
          (right.tree.goLevel < (Precedence.ofOperator op.literal).level + 1))
  | .callEmpty callee opening closing =>
      .callEmpty (callee.printed.groupIf (callee.tree.goLevel < Precedence.call.level))
        opening closing
  | .call callee opening args closing =>
      .call (callee.printed.groupIf (callee.tree.goLevel < Precedence.call.level)) opening
        args.printed closing
  | .select left dot field =>
      .select (left.printed.groupIf (left.tree.goLevel < Precedence.call.level)) dot field
  | .index left opening position closing =>
      .index (left.printed.groupIf (left.tree.goLevel < Precedence.call.level)) opening
        position.printed closing

def ExprsPhrase.printed : ExprsPhrase → ExprsPhrase
  | .last e => .last e.printed
  | .more e comma rest => .more e.printed comma rest.printed

end

namespace ExprPhrase

variable (wanted : Bool) (phrase : ExprPhrase)

/-- Brackets do not change the tree. -/
theorem tree_groupIf : (phrase.groupIf wanted).tree = phrase.tree := by
  cases wanted <;> rfl

/-- Brackets are spelled around what stands in them. -/
theorem map_spelling_groupIf : (phrase.groupIf wanted).tokens.map Token.spelling =
    bracketIf wanted (phrase.tokens.map Token.spelling) := by
  cases wanted with
  | false => rfl
  | true =>
      rw [groupIf, if_pos rfl, ExprPhrase.tokens, List.map_cons, List.map_append]
      rfl

/-- What is levelled is levelled in brackets. -/
theorem levelled_groupIf {phrase : ExprPhrase} (hLevelled : phrase.Levelled TokenKind.level) :
    (phrase.groupIf wanted).Levelled TokenKind.level := by
  cases wanted <;> exact hLevelled

/-- Parentheses bring a phrase to any level. -/
theorem le_level_groupIf {level : Nat} (hLevel : level ≤ Precedence.dot.level)
    (hWanted : wanted = false → level ≤ phrase.level TokenKind.level) :
    level ≤ (phrase.groupIf wanted).level TokenKind.level := by
  cases wanted with
  | false => exact hWanted rfl
  | true => exact hLevel

end ExprPhrase

mutual

/-- Printing does not change the tree. -/
theorem ExprPhrase.tree_printed : (phrase : ExprPhrase) → phrase.printed.tree = phrase.tree
  | .atom _ _ _ => rfl
  | .group _ inner _ => inner.tree_printed
  | .unary _ _ operand => by
      rw [ExprPhrase.printed, ExprPhrase.tree, ExprPhrase.tree, ExprPhrase.tree_groupIf,
        operand.tree_printed]
  | .binary left _ _ right => by
      rw [ExprPhrase.printed, ExprPhrase.tree, ExprPhrase.tree, ExprPhrase.tree_groupIf,
        ExprPhrase.tree_groupIf, left.tree_printed, right.tree_printed]
  | .callEmpty callee _ _ => by
      rw [ExprPhrase.printed, ExprPhrase.tree, ExprPhrase.tree, ExprPhrase.tree_groupIf,
        callee.tree_printed]
  | .call callee _ args _ => by
      rw [ExprPhrase.printed, ExprPhrase.tree, ExprPhrase.tree, ExprPhrase.tree_groupIf,
        callee.tree_printed, args.trees_printed]
  | .select left _ _ => by
      rw [ExprPhrase.printed, ExprPhrase.tree, ExprPhrase.tree, ExprPhrase.tree_groupIf,
        left.tree_printed]
  | .index left _ position _ => by
      rw [ExprPhrase.printed, ExprPhrase.tree, ExprPhrase.tree, ExprPhrase.tree_groupIf,
        left.tree_printed, position.tree_printed]

theorem ExprsPhrase.trees_printed : (phrase : ExprsPhrase) → phrase.printed.trees = phrase.trees
  | .last e => by
      rw [ExprsPhrase.printed, ExprsPhrase.trees, ExprsPhrase.trees, e.tree_printed]
  | .more e _ rest => by
      rw [ExprsPhrase.printed, ExprsPhrase.trees, ExprsPhrase.trees, e.tree_printed,
        rest.trees_printed]

end

/-! ### What the tokens say -/

/-- A token of a kind with one spelling says that. -/
theorem Mark.spelling_eq {kind : TokenKind} (mark : Mark kind) (hLexed : mark.val.Lexed)
    {text : String} (hFixed : kind.fixed? = some text) : mark.val.spelling = (kind, text) := by
  rw [Token.spelling, hLexed.literal_eq mark.property hFixed, mark.property]

/-- A name is spelled as it is. -/
theorem Mark.spelling_ident (mark : Mark .ident) :
    mark.val.spelling = (.ident, mark.val.literal) := by
  rw [Token.spelling, mark.property]

/-- A unary operator is spelled as its text. -/
theorem spelling_unary {op : Token} (hLexed : op.Lexed) (hUnary : op.kind.isUnary = true) :
    op.spelling = (operatorKind op.literal, op.literal) := by
  have hTable : ∀ kind ∈ TokenKind.unaryKinds, kind.fixed?.map operatorKind = some kind := by
    decide
  rw [Token.spelling,
    operatorKind_of_fixed hLexed (hTable op.kind (TokenKind.mem_unaryKinds hUnary))]

theorem spelling_binary {op : Token} (hLexed : op.Lexed) (hBinary : op.kind.isBinary = true) :
    op.spelling = (operatorKind op.literal, op.literal) := by
  rw [Token.spelling, operatorKind_literal hLexed hBinary]

/-- An operand says what its tree is written as. -/
theorem written_operand {token : Token} {value : Expr} (hValue : operand? token = some value)
    (hLexed : token.Lexed) : value.written = [token.spelling] := by
  unfold operand? at hValue
  split at hValue
  case h_10 => cases hValue
  case h_2 hKind =>
    obtain ⟨number, -, rfl⟩ := Option.map_eq_some_iff.mp hValue
    rw [Expr.written, Token.spelling, hKind]
  case h_3 hKind =>
    obtain ⟨number, -, rfl⟩ := Option.map_eq_some_iff.mp hValue
    rw [Expr.written, Token.spelling, hKind]
  case h_7 hKind | h_8 hKind | h_9 hKind =>
    obtain rfl := Option.some.inj hValue
    rw [Mark.spelling_eq ⟨token, hKind⟩ hLexed rfl]
    rfl
  all_goals
    next hKind =>
      obtain rfl := Option.some.inj hValue
      rw [Token.spelling, hKind]
      rfl

mutual

/-- The tokens of a printed expression say what it is written as. -/
theorem ExprPhrase.map_spelling_printed : (phrase : ExprPhrase) → AllLexed phrase.tokens →
    phrase.printed.tokens.map Token.spelling = phrase.tree.written
  | .atom token _ hValue, hLexed => (written_operand hValue (hLexed token List.mem_cons_self)).symm
  | .group _ inner _, hLexed => by
      simp only [ExprPhrase.tokens, allLexed_cons, allLexed_append] at hLexed
      exact inner.map_spelling_printed hLexed.2.1
  | .unary op hOp operand, hLexed => by
      simp only [ExprPhrase.tokens, allLexed_cons] at hLexed
      rw [ExprPhrase.printed, ExprPhrase.tokens, List.map_cons, ExprPhrase.map_spelling_groupIf,
        operand.map_spelling_printed hLexed.2, spelling_unary hLexed.1 hOp]
      rfl
  | .binary left op hOp right, hLexed => by
      simp only [ExprPhrase.tokens, allLexed_cons, allLexed_append] at hLexed
      rw [ExprPhrase.printed, ExprPhrase.tokens, List.map_append, List.map_cons,
        ExprPhrase.map_spelling_groupIf, ExprPhrase.map_spelling_groupIf,
        left.map_spelling_printed hLexed.1, right.map_spelling_printed hLexed.2.2,
        spelling_binary hLexed.2.1 hOp]
      rfl
  | .callEmpty callee opening closing, hLexed => by
      simp only [ExprPhrase.tokens, allLexed_cons, allLexed_append] at hLexed
      rw [ExprPhrase.printed, ExprPhrase.tokens, List.map_append, List.map_cons, List.map_singleton,
        ExprPhrase.map_spelling_groupIf, callee.map_spelling_printed hLexed.1,
        opening.spelling_eq hLexed.2.1 rfl, closing.spelling_eq hLexed.2.2.1 rfl]
      rfl
  | .call callee opening args closing, hLexed => by
      simp only [ExprPhrase.tokens, allLexed_cons, allLexed_append] at hLexed
      rw [ExprPhrase.printed, ExprPhrase.tokens, List.map_append, List.map_cons, List.map_append,
        List.map_singleton, ExprPhrase.map_spelling_groupIf, callee.map_spelling_printed hLexed.1,
        args.map_spelling_printed hLexed.2.2.1, opening.spelling_eq hLexed.2.1 rfl,
        closing.spelling_eq hLexed.2.2.2.1 rfl]
      rfl
  | .select left dot field, hLexed => by
      simp only [ExprPhrase.tokens, allLexed_cons, allLexed_append] at hLexed
      rw [ExprPhrase.printed, ExprPhrase.tokens, List.map_append, List.map_cons, List.map_singleton,
        ExprPhrase.map_spelling_groupIf, left.map_spelling_printed hLexed.1,
        dot.spelling_eq hLexed.2.1 rfl, field.spelling_ident]
      rfl
  | .index left opening position closing, hLexed => by
      simp only [ExprPhrase.tokens, allLexed_cons, allLexed_append] at hLexed
      rw [ExprPhrase.printed, ExprPhrase.tokens, List.map_append, List.map_cons, List.map_append,
        List.map_singleton, ExprPhrase.map_spelling_groupIf, left.map_spelling_printed hLexed.1,
        position.map_spelling_printed hLexed.2.2.1, opening.spelling_eq hLexed.2.1 rfl,
        closing.spelling_eq hLexed.2.2.2.1 rfl]
      rfl

theorem ExprsPhrase.map_spelling_printed : (phrase : ExprsPhrase) → AllLexed phrase.tokens →
    phrase.printed.tokens.map Token.spelling = Expr.writtenAll phrase.trees
  | .last e, hLexed => e.map_spelling_printed hLexed
  | .more e comma rest, hLexed => by
      simp only [ExprsPhrase.tokens, allLexed_cons, allLexed_append] at hLexed
      rw [ExprsPhrase.printed, ExprsPhrase.tokens, List.map_append, List.map_cons,
        e.map_spelling_printed hLexed.1, rest.map_spelling_printed hLexed.2.2,
        comma.spelling_eq hLexed.2.1 rfl]
      cases rest <;> rfl

end

/-! ### Where the phrase may be read -/

/-- An operand binds most tightly. -/
theorem goLevel_operand {token : Token} {value : Expr} (hValue : operand? token = some value) :
    value.goLevel = Precedence.dot.level := by
  unfold operand? at hValue
  split at hValue <;>
    simp only [Option.map_eq_some_iff, Option.some.injEq, reduceCtorEq] at hValue
  all_goals first
    | (subst hValue; rfl)
    | (obtain ⟨_, _, rfl⟩ := hValue; rfl)

/-- The level of an operator is that of its text. -/
theorem level_of_isBinary {op : Token} (hLexed : op.Lexed) (hBinary : op.kind.isBinary = true) :
    op.kind.level = (Precedence.ofOperator op.literal).level := by
  have hLevel := (isBinary_operatorKind (mem_binaryOperators hLexed hBinary)).2
  rwa [operatorKind_literal hLexed hBinary] at hLevel

/-- The level of a printed phrase is that of its tree. -/
theorem ExprPhrase.level_printed : (phrase : ExprPhrase) → AllLexed phrase.tokens →
    phrase.printed.level TokenKind.level = phrase.tree.goLevel
  | .atom _ _ hValue, _ => (goLevel_operand hValue).symm
  | .group _ inner _, hLexed => by
      simp only [ExprPhrase.tokens, allLexed_cons, allLexed_append] at hLexed
      exact inner.level_printed hLexed.2.1
  | .binary _ op hOp _, hLexed => by
      simp only [ExprPhrase.tokens, allLexed_cons, allLexed_append] at hLexed
      exact level_of_isBinary hLexed.2.1 hOp
  | .unary _ _ _, _ | .callEmpty _ _ _, _ | .call _ _ _ _, _ | .select _ _ _, _
  | .index _ _ _ _, _ => rfl

/-- An operand that the printer puts in parentheses below a level reaches the level. -/
theorem ExprPhrase.le_level_printed (phrase : ExprPhrase) (hLexed : AllLexed phrase.tokens)
    {level : Nat} (hLevel : level ≤ Precedence.dot.level) :
    level ≤ (phrase.printed.groupIf (phrase.tree.goLevel < level)).level TokenKind.level := by
  refine ExprPhrase.le_level_groupIf _ _ hLevel fun hWanted => ?_
  rw [phrase.level_printed hLexed]
  exact Nat.not_lt.mp (of_decide_eq_false hWanted)

mutual

/-- A printed phrase is levelled, since it has the brackets it needs. -/
theorem ExprPhrase.levelled_printed : (phrase : ExprPhrase) → AllLexed phrase.tokens →
    phrase.printed.Levelled TokenKind.level
  | .atom _ _ _, _ => trivial
  | .group _ inner _, hLexed => by
      simp only [ExprPhrase.tokens, allLexed_cons, allLexed_append] at hLexed
      exact inner.levelled_printed hLexed.2.1
  | .unary op hOp operand, hLexed => by
      simp only [ExprPhrase.tokens, allLexed_cons] at hLexed
      refine ⟨?_, ExprPhrase.levelled_groupIf _ (operand.levelled_printed hLexed.2)⟩
      refine ExprPhrase.le_level_groupIf _ _ (by decide) fun hWanted => ?_
      simp only [Expr.needsParensInUnary, Bool.or_eq_false_iff, decide_eq_false_iff_not] at hWanted
      rw [operand.level_printed hLexed.2]
      exact Nat.not_lt.mp hWanted.2
  | .binary left op hOp right, hLexed => by
      simp only [ExprPhrase.tokens, allLexed_cons, allLexed_append] at hLexed
      have hLevel := level_of_isBinary hLexed.2.1 hOp
      have hBound := level_ofOperator_lt op.literal
      have hDot : Precedence.unary.level ≤ Precedence.dot.level := by decide
      refine ⟨?_, ?_, ExprPhrase.levelled_groupIf _ (left.levelled_printed hLexed.1),
        ExprPhrase.levelled_groupIf _ (right.levelled_printed hLexed.2.2)⟩
      · rw [hLevel]
        exact left.le_level_printed hLexed.1 (by omega)
      · rw [hLevel]
        exact right.le_level_printed hLexed.2.2 (by omega)
  | .callEmpty callee _ _, hLexed => by
      simp only [ExprPhrase.tokens, allLexed_append] at hLexed
      exact ⟨callee.le_level_printed hLexed.1 (by decide),
        ExprPhrase.levelled_groupIf _ (callee.levelled_printed hLexed.1)⟩
  | .call callee _ args _, hLexed => by
      simp only [ExprPhrase.tokens, allLexed_cons, allLexed_append] at hLexed
      exact ⟨callee.le_level_printed hLexed.1 (by decide),
        ExprPhrase.levelled_groupIf _ (callee.levelled_printed hLexed.1),
        args.levelled_printed hLexed.2.2.1⟩
  | .select left _ _, hLexed => by
      simp only [ExprPhrase.tokens, allLexed_append] at hLexed
      exact ⟨left.le_level_printed hLexed.1 (by decide),
        ExprPhrase.levelled_groupIf _ (left.levelled_printed hLexed.1)⟩
  | .index left _ position _, hLexed => by
      simp only [ExprPhrase.tokens, allLexed_cons, allLexed_append] at hLexed
      exact ⟨left.le_level_printed hLexed.1 (by decide),
        ExprPhrase.levelled_groupIf _ (left.levelled_printed hLexed.1),
        position.levelled_printed hLexed.2.2.1⟩

theorem ExprsPhrase.levelled_printed : (phrase : ExprsPhrase) → AllLexed phrase.tokens →
    phrase.printed.Levelled TokenKind.level
  | .last e, hLexed => e.levelled_printed hLexed
  | .more e _ rest, hLexed => by
      simp only [ExprsPhrase.tokens, allLexed_cons, allLexed_append] at hLexed
      exact ⟨e.levelled_printed hLexed.1, rest.levelled_printed hLexed.2.2⟩

end

/-! ### The text -/

section Text

variable {rest : List Char}

/-- The tree of sound tokens is spelled by its text. -/
theorem ExprPhrase.lexical_of_sound (phrase : ExprPhrase) (hSound : AllSound phrase.tokens) :
    phrase.tree.Lexical := by
  refine phrase.lexical_tree hSound.lexed ?_
  rw [phrase.isClosed_tree]
  exact List.all_eq_true.mpr fun token hMem => (hSound token hMem).closed

theorem ExprsPhrase.lexical_of_sound (phrase : ExprsPhrase) (hSound : AllSound phrase.tokens) :
    Expr.AllLexical phrase.trees := by
  refine phrase.lexical_trees hSound.lexed ?_
  rw [phrase.allClosed_trees]
  exact List.all_eq_true.mpr fun token hMem => (hSound token hMem).closed

/-- The text of an expression is divided into the tokens of its printed phrase. -/
theorem ExprPhrase.spellings_go (phrase : ExprPhrase) (hSound : AllSound phrase.tokens)
    (hBreaks : Breaks rest) :
    spellings (phrase.tree.go.toList ++ rest) =
      phrase.printed.tokens.map Token.spelling ++ spellings rest := by
  rw [phrase.map_spelling_printed hSound.lexed, Expr.go_eq]
  exact phrase.tree.lexes (phrase.wellFormed_tree hSound.lexed) (phrase.lexical_of_sound hSound)
    rest hBreaks

theorem ExprsPhrase.spellings_go (phrase : ExprsPhrase) (hSound : AllSound phrase.tokens)
    (hBreaks : Breaks rest) :
    spellings ((Text.commaSeparated (phrase.trees.map Expr.go)).toList ++ rest) =
      phrase.printed.tokens.map Token.spelling ++ spellings rest := by
  rw [phrase.map_spelling_printed hSound.lexed, ← Expr.goTexts_eq_map]
  exact Expr.allLex phrase.trees (phrase.wellFormed_trees hSound.lexed)
    (phrase.lexical_of_sound hSound) rest hBreaks

/-- The text of an operand is divided into its words also in front of a sign. -/
theorem Expr.spellings_goText_of_parts (hParts : Parts rest) (e : Expr) (hFormed : e.WellFormed)
    (hLexical : e.Lexical) (hLevel : Precedence.call.level ≤ e.goLevel) :
    spellings (e.goText.toList ++ rest) = e.written ++ spellings rest := by
  have hHead := Lexeme.not_isWordChar_of_parts hParts
  cases e with
  | missing | foreign => exact hFormed.elim
  | int => exact spellings_number_of_parts hLexical hParts (Or.inl rfl)
  | float =>
      -- A literal with a value ends in no exponent mark that could take the sign.
      exact spellings_number_of_parts hLexical hParts
        (Or.inr (Or.inl (endsInMark_of_ofLiteral? hFormed)))
  | ident => exact lexes_ident hLexical rest hHead
  | str => exact lexes_str hLexical rest hHead
  | char => exact lexes_char hLexical rest hHead
  | bool token value =>
      cases value with
      | true => exact lexes_keyword "true" rfl rfl rfl rfl rest hHead
      | false => exact lexes_keyword "false" rfl rfl rfl rfl rest hHead
  | nil => exact lexes_keyword "nil" rfl rfl rfl rfl rest hHead
  | call _ callee args =>
      exact lexes_call (callee.lexes hFormed.1 hLexical.1) (Expr.allLex args hFormed.2 hLexical.2)
        rest hHead
  | select _ left =>
      exact lexes_select (left.lexes hFormed.1 hLexical.1) hFormed.2 hLexical.2 rest hHead
  | index _ left position =>
      exact lexes_index (left.lexes hFormed.1 hLexical.1) (position.lexes hFormed.2 hLexical.2)
        rest hHead
  | unary => exact absurd hLevel (by simp [Expr.goLevel, Precedence.level])
  | binary _ _ op =>
      exact absurd (Nat.lt_of_le_of_lt hLevel (level_ofOperator_lt op)) (by decide)

/-- The target of a step is divided off from the step. -/
theorem ExprPhrase.spellings_target (phrase : ExprPhrase) (hSound : AllSound phrase.tokens)
    (hParts : Parts rest) :
    spellings ((phrase.tree.goAt Precedence.call.level).toList ++ rest) =
      (phrase.printed.groupIf (phrase.tree.goLevel < Precedence.call.level)).tokens.map
        Token.spelling ++ spellings rest := by
  have hFormed := phrase.wellFormed_tree hSound.lexed
  have hLexical := phrase.lexical_of_sound hSound
  rw [ExprPhrase.map_spelling_groupIf, phrase.map_spelling_printed hSound.lexed,
    Expr.goAt_eq phrase.tree Precedence.call.level (by decide)]
  cases hWanted : decide (phrase.tree.goLevel < Precedence.call.level) with
  | true => exact Expr.Lexes.grouped (phrase.tree.lexes hFormed hLexical) rest
  | false =>
      exact phrase.tree.spellings_goText_of_parts hParts hFormed hLexical
        (Nat.not_lt.mp (of_decide_eq_false hWanted))

/-- A text whose characters are all solid, and which has one, ends solidly. -/
theorem endsSolid_of_forall {chars : List Char} (hSome : chars ≠ [])
    (hSolid : ∀ c ∈ chars, Text.isSpace c = false) : EndsSolid chars :=
  ⟨chars.dropLast, chars.getLast hSome, (List.dropLast_concat_getLast hSome).symm,
    hSolid _ (List.getLast_mem hSome)⟩

/-- A number ends with no space. -/
theorem endsSolid_number {kind : TokenKind} {literal : String}
    (hNumber : isNumber kind literal = true) : EndsSolid literal.toList := by
  obtain ⟨c, tail, hChars, -⟩ := startsOperand_number hNumber
  simp only [isNumber, Bool.and_eq_true, beq_iff_eq] at hNumber
  refine endsSolid_of_forall (by rw [hChars]; exact List.cons_ne_nil c tail) fun d hMem => ?_
  have hNumberChar : Lexeme.isNumberChar d = true := by
    refine Lexeme.isNumberChar_number literal.toList d ?_
    rw [hNumber.2]
    exact hMem
  simp only [Lexeme.isNumberChar, List.contains_cons, List.contains_nil, Bool.or_eq_true,
    beq_iff_eq, Bool.or_false] at hNumberChar
  rcases hNumberChar with hWord | rfl | rfl | rfl
  · exact isSpace_of_isWordChar hWord
  all_goals decide

/-- A solid end stays one in brackets. -/
theorem EndsSolid.parenIf {text : String} (wanted : Bool) (hText : EndsSolid text.toList) :
    EndsSolid (parenIf wanted text).toList := by
  cases wanted with
  | false => exact hText
  | true => exact ⟨'(' :: text.toList, ')', by simp [TryGo.parenIf], by decide⟩

/-- The text of an expression ends in no white space. -/
theorem Expr.endsSolid_goText : (e : Expr) → e.WellFormed → e.Lexical → EndsSolid e.goText.toList
  | .missing, hFormed, _ | .foreign _ _ _, hFormed, _ => hFormed.elim
  | .ident _ _, _, hLexical => endsSolid_name hLexical
  | .int _ _, _, hLexical => endsSolid_number hLexical
  | .float _ _, _, hLexical => endsSolid_number hLexical
  | .str _ value true, _, _ =>
      ⟨backtick :: value.toList, backtick, by simp [Expr.goText, stringText, backtick], by decide⟩
  | .str _ value false, _, _ =>
      ⟨'"' :: value.toList, '"', by simp [Expr.goText, stringText], by decide⟩
  | .char _ value, _, _ => ⟨'\'' :: value.toList, '\'', by simp [Expr.goText, charText], by decide⟩
  | .bool _ true, _, _ => ⟨['t', 'r', 'u'], 'e', by simp [Expr.goText, boolText], by decide⟩
  | .bool _ false, _, _ => ⟨['f', 'a', 'l', 's'], 'e', by simp [Expr.goText, boolText], by decide⟩
  | .nil _, _, _ => ⟨['n', 'i'], 'l', by simp [Expr.goText], by decide⟩
  | .unary _ op operand, hFormed, hLexical => by
      rw [Expr.goText, String.toList_append]
      exact ((operand.endsSolid_goText hFormed.2 hLexical).parenIf _).append _
  | .binary _ left op right, hFormed, hLexical => by
      rw [Expr.goText, String.toList_append]
      exact ((right.endsSolid_goText hFormed.2.2 hLexical.2).parenIf _).append _
  | .call _ _ _, _, _ => by
      rw [Expr.goText, String.toList_append]
      exact EndsSolid.append ⟨[], ')', rfl, by decide⟩ _
  | .select _ _ field, hFormed, hLexical => by
      rw [Expr.goText, String.toList_append]
      cases field with
      | ident token name => exact (endsSolid_name hLexical.2).append _
      | _ => cases hFormed.2
  | .index _ _ _, _, _ => by
      rw [Expr.goText, String.toList_append]
      exact EndsSolid.append ⟨[], ']', rfl, by decide⟩ _

end Text

end TryGo
