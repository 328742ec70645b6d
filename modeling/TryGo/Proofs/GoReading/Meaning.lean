import TryGo.Proofs.GoReading.Faithful
import TryGo.Proofs.Written.Text

/-! What printing keeps of the meaning that an expression has for Go. The source of an expression
and the text that is printed for it are both read by the levels of Go. The two readings are
the same tree exactly if the source is faithful and no quoted literal in it breaks off. -/
namespace TryGo

/-- Whether Go reads a text as an expression with the given tree. -/
def GoReads (text : String) (tree : Expr) : Prop :=
  ∃ phrase : ExprPhrase, phrase.tokens = (Lexer.ofString text).words
    ∧ phrase.Levelled TokenKind.goLevel ∧ phrase.tree = tree

/-- Go reads a text in one way only. -/
theorem GoReads.same {text : String} {a b : Expr} (hA : GoReads text a) (hB : GoReads text b) :
    a.same b = true := by
  obtain ⟨phraseA, hTokensA, hLevelledA, rfl⟩ := hA
  obtain ⟨phraseB, hTokensB, hLevelledB, rfl⟩ := hB
  exact (Expr.same_iff _ _).mpr
    (erase_tree_eq_of_goLevelled (hTokensA.trans hTokensB.symm) hLevelledA hLevelledB)

/-- What the parser reads is read by Go as well, if perhaps in another way. -/
theorem ExprPhrase.goReads {text : String} (phrase : ExprPhrase)
    (hTokens : phrase.tokens = (Lexer.ofString text).words)
    (hLevelled : phrase.Levelled TokenKind.level) : GoReads text (phrase.regroup none).tree :=
  ⟨phrase.regroup none, (phrase.tokens_regroup none).trans hTokens,
    phrase.levelled_regroup none hLevelled forall_none, rfl⟩

/-! ### Trees of lexed tokens -/

/-- An operand is well-formed. -/
theorem wellFormed_operand {token : Token} {value : Expr} (hValue : operand? token = some value) :
    value.WellFormed := by
  unfold operand? at hValue
  split at hValue
  case h_2 =>
    obtain ⟨number, hNumber, rfl⟩ := Option.map_eq_some_iff.mp hValue
    rw [Expr.WellFormed, hNumber]
    rfl
  case h_3 =>
    obtain ⟨number, hNumber, rfl⟩ := Option.map_eq_some_iff.mp hValue
    exact hNumber
  case h_10 => cases hValue
  all_goals
    obtain rfl := Option.some.inj hValue
    trivial

/-- A token of a unary kind is spelled as a unary operator. -/
theorem mem_unaryOperators {op : Token} (hLexed : op.Lexed) (hUnary : op.kind.isUnary = true) :
    op.literal ∈ unaryOperators := by
  have hTable : ∀ kind ∈ TokenKind.unaryKinds,
      ∃ text ∈ unaryOperators, kind.fixed? = some text := by decide
  obtain ⟨text, hMem, hText⟩ := hTable op.kind (TokenKind.mem_unaryKinds hUnary)
  rw [hLexed.fixed text hText]
  exact hMem

/-- A token of a binary kind is spelled as a binary operator. -/
theorem mem_binaryOperators {op : Token} (hLexed : op.Lexed) (hBinary : op.kind.isBinary = true) :
    op.literal ∈ binaryOperators := by
  have hTable : ∀ kind ∈ TokenKind.binaryKinds,
      ∃ text ∈ binaryOperators, kind.fixed? = some text := by decide
  obtain ⟨text, hMem, hText⟩ := hTable op.kind (TokenKind.mem_binaryKinds hBinary)
  rw [hLexed.fixed text hText]
  exact hMem

mutual

/-- What is read from a text is well-formed. -/
theorem ExprPhrase.wellFormed_tree : (phrase : ExprPhrase) → AllLexed phrase.tokens →
    phrase.tree.WellFormed
  | .atom _ _ hValue, _ => wellFormed_operand hValue
  | .group _ inner _, hLexed => by
      simp only [ExprPhrase.tokens, allLexed_cons, allLexed_append] at hLexed
      exact inner.wellFormed_tree hLexed.2.1
  | .unary _ hOp operand, hLexed => by
      simp only [ExprPhrase.tokens, allLexed_cons] at hLexed
      exact ⟨mem_unaryOperators hLexed.1 hOp, operand.wellFormed_tree hLexed.2⟩
  | .binary left _ hOp right, hLexed => by
      simp only [ExprPhrase.tokens, allLexed_cons, allLexed_append] at hLexed
      exact ⟨mem_binaryOperators hLexed.2.1 hOp, left.wellFormed_tree hLexed.1,
        right.wellFormed_tree hLexed.2.2⟩
  | .callEmpty callee _ _, hLexed => by
      simp only [ExprPhrase.tokens, allLexed_append] at hLexed
      exact ⟨callee.wellFormed_tree hLexed.1, trivial⟩
  | .call callee _ args _, hLexed => by
      simp only [ExprPhrase.tokens, allLexed_append, allLexed_cons] at hLexed
      exact ⟨callee.wellFormed_tree hLexed.1, args.wellFormed_trees hLexed.2.2.1⟩
  | .select left _ _, hLexed => by
      simp only [ExprPhrase.tokens, allLexed_append] at hLexed
      exact ⟨left.wellFormed_tree hLexed.1, rfl⟩
  | .index left _ position _, hLexed => by
      simp only [ExprPhrase.tokens, allLexed_append, allLexed_cons] at hLexed
      exact ⟨left.wellFormed_tree hLexed.1, position.wellFormed_tree hLexed.2.2.1⟩

theorem ExprsPhrase.wellFormed_trees : (phrase : ExprsPhrase) → AllLexed phrase.tokens →
    Expr.AllWellFormed phrase.trees
  | .last e, hLexed => ⟨e.wellFormed_tree hLexed, trivial⟩
  | .more e _ rest, hLexed => by
      simp only [ExprsPhrase.tokens, allLexed_append, allLexed_cons] at hLexed
      exact ⟨e.wellFormed_tree hLexed.1, rest.wellFormed_trees hLexed.2.2⟩

end

/-! ### Literals that break off -/

mutual

/-- Whether the quoted literals of an expression could be closed where they end. -/
def Expr.isClosed : Expr → Bool
  | .str _ value false => isQuoted '"' value
  | .char _ value => isQuoted '\'' value
  | .unary _ _ operand => operand.isClosed
  | .binary _ left _ right => left.isClosed && right.isClosed
  | .call _ callee args => callee.isClosed && Expr.allClosed args
  | .select _ left _ => left.isClosed
  | .index _ left position => left.isClosed && position.isClosed
  | _ => true

def Expr.allClosed : List Expr → Bool
  | [] => true
  | e :: es => e.isClosed && Expr.allClosed es

end

mutual

theorem Expr.isClosed_erase : (e : Expr) → e.erase.isClosed = e.isClosed
  | .missing | .ident _ _ | .int _ _ | .float _ _ | .str _ _ true | .str _ _ false | .char _ _
  | .bool _ _ | .nil _ | .foreign _ _ _ => rfl
  | .unary _ _ operand => operand.isClosed_erase
  | .binary _ left _ right => by
      simp only [Expr.erase, Expr.isClosed, left.isClosed_erase, right.isClosed_erase]
  | .call _ callee args => by
      simp only [Expr.erase, Expr.isClosed, callee.isClosed_erase, Expr.allClosed_eraseAll args]
  | .select _ left _ => left.isClosed_erase
  | .index _ left position => by
      simp only [Expr.erase, Expr.isClosed, left.isClosed_erase, position.isClosed_erase]

theorem Expr.allClosed_eraseAll :
    (es : List Expr) → Expr.allClosed (Expr.eraseAll es) = Expr.allClosed es
  | [] => rfl
  | e :: es => by
      simp only [Expr.eraseAll, Expr.allClosed, e.isClosed_erase, Expr.allClosed_eraseAll es]

end

/-- An operand is closed if its token is. -/
theorem isClosed_operand {token : Token} {value : Expr} (hValue : operand? token = some value) :
    value.isClosed = token.isClosed := by
  unfold operand? at hValue
  unfold Token.isClosed
  split at hValue
  case h_10 => cases hValue
  case h_2 hKind =>
    obtain ⟨number, -, rfl⟩ := Option.map_eq_some_iff.mp hValue
    rw [hKind]
    rfl
  case h_3 hKind =>
    obtain ⟨number, -, rfl⟩ := Option.map_eq_some_iff.mp hValue
    rw [hKind]
    rfl
  all_goals
    next hKind =>
      obtain rfl := Option.some.inj hValue
      rw [hKind]
      rfl

theorem Mark.isClosed {kind : TokenKind} (mark : Mark kind) (hKind : kind ∉ [.string, .char]) :
    mark.val.isClosed = true := Token.isClosed_of_kind (by rw [mark.property]; exact hKind)

theorem isClosed_of_isUnary {op : Token} (hUnary : op.kind.isUnary = true) :
    op.isClosed = true := by
  have hTable : ∀ kind ∈ TokenKind.unaryKinds, kind ∉ [TokenKind.string, .char] := by decide
  exact Token.isClosed_of_kind (hTable op.kind (TokenKind.mem_unaryKinds hUnary))

theorem isClosed_of_isBinary {op : Token} (hBinary : op.kind.isBinary = true) :
    op.isClosed = true := by
  have hTable : ∀ kind ∈ TokenKind.binaryKinds, kind ∉ [TokenKind.string, .char] := by decide
  exact Token.isClosed_of_kind (hTable op.kind (TokenKind.mem_binaryKinds hBinary))

mutual

/-- The quoted literals of a tree are those of its tokens. -/
theorem ExprPhrase.isClosed_tree : (phrase : ExprPhrase) →
    phrase.tree.isClosed = phrase.tokens.all Token.isClosed
  | .atom token _ hValue => by
      rw [ExprPhrase.tree, isClosed_operand hValue]
      simp [ExprPhrase.tokens]
  | .group opening inner closing => by
      simp [ExprPhrase.tree, ExprPhrase.tokens, inner.isClosed_tree,
        opening.isClosed (by decide), closing.isClosed (by decide)]
  | .unary op hOp operand => by
      simp [ExprPhrase.tree, Expr.isClosed, ExprPhrase.tokens, operand.isClosed_tree,
        isClosed_of_isUnary hOp]
  | .binary left op hOp right => by
      simp [ExprPhrase.tree, Expr.isClosed, ExprPhrase.tokens, left.isClosed_tree,
        right.isClosed_tree, isClosed_of_isBinary hOp]
  | .callEmpty callee opening closing => by
      simp [ExprPhrase.tree, Expr.isClosed, Expr.allClosed, ExprPhrase.tokens, callee.isClosed_tree,
        opening.isClosed (by decide), closing.isClosed (by decide)]
  | .call callee opening args closing => by
      simp [ExprPhrase.tree, Expr.isClosed, ExprPhrase.tokens, callee.isClosed_tree,
        args.allClosed_trees, opening.isClosed (by decide), closing.isClosed (by decide)]
  | .select left dot field => by
      simp [ExprPhrase.tree, Expr.isClosed, ExprPhrase.tokens, left.isClosed_tree,
        dot.isClosed (by decide), field.isClosed (by decide)]
  | .index left opening position closing => by
      simp [ExprPhrase.tree, Expr.isClosed, ExprPhrase.tokens, left.isClosed_tree,
        position.isClosed_tree, opening.isClosed (by decide), closing.isClosed (by decide)]

/-- Expressions are closed if all of their tokens are. -/
theorem ExprsPhrase.allClosed_trees : (phrase : ExprsPhrase) →
    Expr.allClosed phrase.trees = phrase.tokens.all Token.isClosed
  | .last e => by
      simp [ExprsPhrase.trees, Expr.allClosed, ExprsPhrase.tokens, e.isClosed_tree]
  | .more e comma rest => by
      simp [ExprsPhrase.trees, Expr.allClosed, ExprsPhrase.tokens, e.isClosed_tree,
        rest.allClosed_trees, comma.isClosed (by decide)]

end

theorem isName_mark (mark : Mark .ident) (hLexed : mark.val.Lexed) :
    isName mark.val.literal = true := by
  have hForm := hLexed.free
  rw [Token.FreeForm, mark.property] at hForm
  exact hForm

/-- An operand that is closed is spelled by its text. -/
theorem lexical_operand {token : Token} {value : Expr} (hValue : operand? token = some value)
    (hLexed : token.Lexed) (hClosed : value.isClosed = true) : value.Lexical := by
  have hForm := hLexed.free
  unfold Token.FreeForm at hForm
  unfold operand? at hValue
  split at hValue
  case h_10 => cases hValue
  case h_2 hKind =>
    obtain ⟨number, -, rfl⟩ := Option.map_eq_some_iff.mp hValue
    rw [hKind] at hForm
    exact hForm
  case h_3 hKind =>
    obtain ⟨number, -, rfl⟩ := Option.map_eq_some_iff.mp hValue
    rw [hKind] at hForm
    exact hForm
  all_goals
    next hKind =>
      obtain rfl := Option.some.inj hValue
      rw [hKind] at hForm
      first | exact hForm | exact hClosed

mutual

/-- What is read from a text is spelled as it should be, unless a literal breaks off. -/
theorem ExprPhrase.lexical_tree : (phrase : ExprPhrase) → AllLexed phrase.tokens →
    phrase.tree.isClosed = true → phrase.tree.Lexical
  | .atom token _ hValue, hLexed, hClosed =>
      lexical_operand hValue (hLexed token List.mem_cons_self) hClosed
  | .group _ inner _, hLexed, hClosed => by
      simp only [ExprPhrase.tokens, allLexed_cons, allLexed_append] at hLexed
      exact inner.lexical_tree hLexed.2.1 hClosed
  | .unary _ _ operand, hLexed, hClosed => by
      simp only [ExprPhrase.tokens, allLexed_cons] at hLexed
      exact operand.lexical_tree hLexed.2 hClosed
  | .binary left _ _ right, hLexed, hClosed => by
      simp only [ExprPhrase.tokens, allLexed_cons, allLexed_append] at hLexed
      simp only [ExprPhrase.tree, Expr.isClosed, Bool.and_eq_true] at hClosed
      exact ⟨left.lexical_tree hLexed.1 hClosed.1, right.lexical_tree hLexed.2.2 hClosed.2⟩
  | .callEmpty callee _ _, hLexed, hClosed => by
      simp only [ExprPhrase.tokens, allLexed_append] at hLexed
      simp only [ExprPhrase.tree, Expr.isClosed, Bool.and_eq_true] at hClosed
      exact ⟨callee.lexical_tree hLexed.1 hClosed.1, trivial⟩
  | .call callee _ args _, hLexed, hClosed => by
      simp only [ExprPhrase.tokens, allLexed_append, allLexed_cons] at hLexed
      simp only [ExprPhrase.tree, Expr.isClosed, Bool.and_eq_true] at hClosed
      exact ⟨callee.lexical_tree hLexed.1 hClosed.1, args.lexical_trees hLexed.2.2.1 hClosed.2⟩
  | .select left _ field, hLexed, hClosed => by
      simp only [ExprPhrase.tokens, allLexed_append, allLexed_cons] at hLexed
      exact ⟨left.lexical_tree hLexed.1 hClosed, isName_mark field hLexed.2.2.1⟩
  | .index left _ position _, hLexed, hClosed => by
      simp only [ExprPhrase.tokens, allLexed_append, allLexed_cons] at hLexed
      simp only [ExprPhrase.tree, Expr.isClosed, Bool.and_eq_true] at hClosed
      exact ⟨left.lexical_tree hLexed.1 hClosed.1, position.lexical_tree hLexed.2.2.1 hClosed.2⟩

/-- Expressions of closed tokens are spelled by their texts. -/
theorem ExprsPhrase.lexical_trees : (phrase : ExprsPhrase) → AllLexed phrase.tokens →
    Expr.allClosed phrase.trees = true → Expr.AllLexical phrase.trees
  | .last e, hLexed, hClosed => by
      simp only [ExprsPhrase.trees, Expr.allClosed, Bool.and_eq_true] at hClosed
      exact ⟨e.lexical_tree hLexed hClosed.1, trivial⟩
  | .more e _ rest, hLexed, hClosed => by
      simp only [ExprsPhrase.tokens, allLexed_append, allLexed_cons] at hLexed
      simp only [ExprsPhrase.trees, Expr.allClosed, Bool.and_eq_true] at hClosed
      exact ⟨e.lexical_tree hLexed.1 hClosed.1, rest.lexical_trees hLexed.2.2 hClosed.2⟩

end

def EndsPlainly (text : String) : Prop := ∃ c, text.toList.getLast? = some c ∧ c ≠ '\\'

/-- What ends without a backslash does so behind anything. -/
theorem EndsPlainly.append {text : String} (hText : EndsPlainly text) (before : String) :
    EndsPlainly (before ++ text) := by
  obtain ⟨c, hLast, hPlain⟩ := hText
  refine ⟨c, ?_, hPlain⟩
  rw [String.toList_append, List.getLast?_append, hLast]
  rfl

/-- A text with no backslash at all does not end in one. -/
theorem endsPlainly_of_not_mem {text : String} (hSome : text.toList ≠ [])
    (hPlain : '\\' ∉ text.toList) : EndsPlainly text := by
  refine ⟨text.toList.getLast hSome, List.getLast?_eq_some_getLast hSome, fun hEnd => hPlain ?_⟩
  rw [← hEnd]
  exact List.getLast_mem hSome

theorem endsPlainly_parenIf {text : String} (wanted : Bool) (hText : EndsPlainly text) :
    EndsPlainly (parenIf wanted text) := by
  cases wanted with
  | false => exact hText
  | true => exact EndsPlainly.append ⟨')', rfl, by decide⟩ ("(" ++ text)

theorem endsPlainly_name {name : String} (hName : isName name = true) : EndsPlainly name := by
  obtain ⟨c, tail, hChars, hStart⟩ := exists_head_of_isName hName
  obtain ⟨hWord, -⟩ : isWord name.toList = true ∧ TokenKind.ofWord name = .ident := by
    simpa [isName] using hName
  rw [hChars, isWord, Bool.and_eq_true] at hWord
  refine endsPlainly_of_not_mem (by rw [hChars]; exact List.cons_ne_nil c tail) fun hMem => ?_
  rw [hChars] at hMem
  rcases List.mem_cons.mp hMem with rfl | hMem
  · exact absurd hStart (by decide)
  · exact absurd (List.all_eq_true.mp hWord.2 _ hMem) (by decide)

theorem endsPlainly_number {kind : TokenKind} {literal : String}
    (hNumber : isNumber kind literal = true) : EndsPlainly literal := by
  obtain ⟨c, tail, hChars, -⟩ := startsOperand_number hNumber
  simp only [isNumber, Bool.and_eq_true, beq_iff_eq] at hNumber
  refine endsPlainly_of_not_mem (by rw [hChars]; exact List.cons_ne_nil c tail) fun hMem => ?_
  refine Lexeme.backslash_not_mem_number literal.toList ?_
  rw [hNumber.2]
  exact hMem

/-- An operand does not end in a backslash. -/
theorem endsPlainly_operand {token : Token} {value : Expr} (hValue : operand? token = some value)
    (hLexed : token.Lexed) : EndsPlainly value.goText := by
  have hForm := hLexed.free
  unfold Token.FreeForm at hForm
  unfold operand? at hValue
  split at hValue
  case h_1 hKind =>
    obtain rfl := Option.some.inj hValue
    rw [hKind] at hForm
    exact endsPlainly_name hForm
  case h_2 hKind =>
    obtain ⟨number, -, rfl⟩ := Option.map_eq_some_iff.mp hValue
    rw [hKind] at hForm
    exact endsPlainly_number hForm
  case h_3 hKind =>
    obtain ⟨number, -, rfl⟩ := Option.map_eq_some_iff.mp hValue
    rw [hKind] at hForm
    exact endsPlainly_number hForm
  case h_10 => cases hValue
  all_goals obtain rfl := Option.some.inj hValue
  case h_4 => exact EndsPlainly.append ⟨'"', rfl, by decide⟩ _
  case h_5 => exact EndsPlainly.append ⟨backtick, rfl, by decide⟩ _
  case h_6 => exact EndsPlainly.append ⟨'\'', rfl, by decide⟩ _
  case h_7 => exact ⟨'e', by simp [Expr.goText, boolText], by decide⟩
  case h_8 => exact ⟨'e', by simp [Expr.goText, boolText], by decide⟩
  case h_9 => exact ⟨'l', by simp [Expr.goText], by decide⟩

/-- The text of what is read does not end in a backslash, even if its source does. -/
theorem ExprPhrase.endsPlainly_goText : (phrase : ExprPhrase) → AllLexed phrase.tokens →
    EndsPlainly phrase.tree.goText
  | .atom token _ hValue, hLexed => endsPlainly_operand hValue (hLexed token List.mem_cons_self)
  | .group _ inner _, hLexed => by
      simp only [ExprPhrase.tokens, allLexed_cons, allLexed_append] at hLexed
      exact inner.endsPlainly_goText hLexed.2.1
  | .unary _ _ operand, hLexed => by
      simp only [ExprPhrase.tokens, allLexed_cons] at hLexed
      exact (endsPlainly_parenIf _ (operand.endsPlainly_goText hLexed.2)).append _
  | .binary _ _ _ right, hLexed => by
      simp only [ExprPhrase.tokens, allLexed_cons, allLexed_append] at hLexed
      exact (endsPlainly_parenIf _ (right.endsPlainly_goText hLexed.2.2)).append _
  | .callEmpty _ _ _, _ | .call _ _ _ _, _ => EndsPlainly.append ⟨')', rfl, by decide⟩ _
  | .select _ _ field, hLexed => by
      simp only [ExprPhrase.tokens, allLexed_append, allLexed_cons] at hLexed
      exact (endsPlainly_name (isName_mark field hLexed.2.2.1)).append _
  | .index _ _ _ _, _ => EndsPlainly.append ⟨']', rfl, by decide⟩ _

/-! ### The two readings -/

/-- The quoted literals of a reading are those of the text. -/
theorem GoReads.isClosed {text : String} {tree : Expr} (hReads : GoReads text tree) :
    tree.isClosed = (Lexer.ofString text).words.all Token.isClosed := by
  obtain ⟨phrase, hTokens, -, rfl⟩ := hReads
  rw [phrase.isClosed_tree, hTokens]

/-- Whether an expression is closed does not depend on its tokens. -/
theorem Expr.isClosed_of_erase_eq {a b : Expr} (hErase : a.erase = b.erase) :
    a.isClosed = b.isClosed := by
  rw [← a.isClosed_erase, hErase, b.isClosed_erase]

/-- A printed text has no literal that breaks off, even if it is read from the text of one. -/
theorem ExprPhrase.isClosed_goReads_go (phrase : ExprPhrase) (hLexed : AllLexed phrase.tokens)
    {read : Expr} (hRead : GoReads phrase.tree.go read) : read.isClosed = true := by
  rw [hRead.isClosed, List.all_eq_true]
  refine Lexer.isClosed _ ?_
  obtain ⟨c, hLast, hPlain⟩ := phrase.endsPlainly_goText hLexed
  rw [← Expr.go_eq] at hLast
  rw [Lexer.ofString, hLast]
  exact fun hEnd => hPlain (Option.some.inj hEnd)

/-- A source whose literals are closed is printed as a text that Go reads as the regrouped tree. -/
theorem ExprPhrase.exists_goReads_go (phrase : ExprPhrase) (hLexed : AllLexed phrase.tokens)
    (hClosed : phrase.tree.isClosed = true) :
    ∃ read, GoReads phrase.tree.go read ∧ read.erase = phrase.tree.regroup none := by
  have hFormed := phrase.wellFormed_tree hLexed
  have hLexical := phrase.lexical_tree hLexed hClosed
  obtain ⟨printed, hStands, -⟩ :=
    phrase.tree.hasPhrase hFormed _ (phrase.tree.map_spelling_words_go hFormed hLexical)
  have hAgrees := (printed.agrees (by
    rw [hStands.covers]
    exact Lexer.lexed _)).free.mpr (printed.isFaithful_of_sparing hStands.sparing)
  refine ⟨_, printed.goReads hStands.covers hStands.levelled, ?_⟩
  rw [hAgrees, ← Expr.regroup_erase, hStands.erased, Expr.regroup_erase]

/-- The readings of a source and of its printed form are the same exactly if the source is
faithful and its literals are closed. -/
theorem ExprPhrase.goReads_go_iff {source : String} {tree : Expr} (phrase : ExprPhrase)
    (hTokens : phrase.tokens = (Lexer.ofString source).words)
    (hLevelled : phrase.Levelled TokenKind.level) (hTree : GoReads source tree) :
    (∃ read, GoReads phrase.tree.go read ∧ read.same tree = true) ↔
      phrase.isFaithful = true ∧ (Lexer.ofString source).words.all Token.isClosed = true := by
  have hLexed : AllLexed phrase.tokens := by
    rw [hTokens]
    exact Lexer.lexed _
  have hSource : tree.erase = (phrase.regroup none).tree.erase :=
    (Expr.same_iff _ _).mp (hTree.same (phrase.goReads hTokens hLevelled))
  have hAgrees := (phrase.agrees hLexed).free
  rw [← hTokens, ← phrase.isClosed_tree]
  constructor
  · rintro ⟨read, hRead, hSame⟩
    have hSame := (Expr.same_iff _ _).mp hSame
    -- a literal that breaks off in the source would have to do so in the printed text as well
    have hClosed : phrase.tree.isClosed = true := by
      rw [phrase.isClosed_tree, hTokens, ← hTree.isClosed, ← Expr.isClosed_of_erase_eq hSame]
      exact phrase.isClosed_goReads_go hLexed hRead
    obtain ⟨other, hOther, hErase⟩ := phrase.exists_goReads_go hLexed hClosed
    refine ⟨hAgrees.mp ?_, hClosed⟩
    rw [← hSource, ← hSame, ← hErase]
    exact (Expr.same_iff _ _).mp (hRead.same hOther)
  · rintro ⟨hFaithful, hClosed⟩
    obtain ⟨read, hRead, hErase⟩ := phrase.exists_goReads_go hLexed hClosed
    refine ⟨read, hRead, (Expr.same_iff _ _).mpr ?_⟩
    rw [hErase, hSource, hAgrees.mpr hFaithful]

/-- Go reads the source of an expression that is read without a report and the text that is
printed for the expression. The two readings are the same tree exactly if the source has
no equality whose right operand leads with an order comparison in parentheses, and no
quoted literal that breaks off. -/
theorem goReads_printed_iff (source : String) (e : Expr) (s : Parse.State) (last : Token)
    (hRead : Parse.readExpr (Parse.State.init (Parse.Cursor.ofLexer (Lexer.ofString source))) =
      .ok e s)
    (hReports : s.reports = []) (hWhole : s.cursor.rest = [last]) :
    (∃ phrase : ExprPhrase, phrase.tokens = (Lexer.ofString source).words
      ∧ phrase.Levelled TokenKind.level ∧ phrase.tree = e)
    ∧ (∃ tree, GoReads source tree)
    ∧ ∀ (phrase : ExprPhrase) (tree : Expr), phrase.tokens = (Lexer.ofString source).words →
        phrase.Levelled TokenKind.level → GoReads source tree →
          ((∃ read, GoReads e.go read ∧ read.same tree = true) ↔
            phrase.isFaithful = true
              ∧ (Lexer.ofString source).words.all Token.isClosed = true) := by
  obtain ⟨phrase, final, more, hTokens, hState, rfl, hLevelled, -, -⟩ :
      Parse.ReadsExpr (Parse.State.init (Parse.Cursor.ofLexer (Lexer.ofString source))) _
        (Lexer.ofString source).words e s := Parse.readExpr_quiet hRead hReports
  have hWords : phrase.tokens = (Lexer.ofString source).words := by
    have hNone : more = [] := by
      rw [hState] at hWhole
      exact (List.cons.inj hWhole).2
    rw [hTokens, hNone, List.append_nil]
  refine ⟨⟨phrase, hWords, hLevelled, rfl⟩, ⟨_, phrase.goReads hWords hLevelled⟩, ?_⟩
  intro other tree hOther hOtherLevelled hTree
  rw [tree_eq_of_levelled (hWords.trans hOther.symm) hLevelled hOtherLevelled]
  exact other.goReads_go_iff hOther hOtherLevelled hTree

/-- The phrase of `(a < b) == -(-c)`. The parentheses around the comparison are not printed. -/
def comparisonInFront : ExprPhrase :=
  .binary
    (.group ⟨⟨.lparen, "(", ⟨1, 1, 0⟩⟩, rfl⟩
      (.binary (.atom ⟨.ident, "a", ⟨1, 2, 1⟩⟩ _ rfl) ⟨.lt, "<", ⟨1, 4, 3⟩⟩ rfl
        (.atom ⟨.ident, "b", ⟨1, 6, 5⟩⟩ _ rfl))
      ⟨⟨.rparen, ")", ⟨1, 7, 6⟩⟩, rfl⟩)
    ⟨.eq, "==", ⟨1, 9, 8⟩⟩ rfl
    (.unary ⟨.minus, "-", ⟨1, 12, 11⟩⟩ rfl
      (.group ⟨⟨.lparen, "(", ⟨1, 13, 12⟩⟩, rfl⟩
        (.unary ⟨.minus, "-", ⟨1, 14, 13⟩⟩ rfl (.atom ⟨.ident, "c", ⟨1, 15, 14⟩⟩ _ rfl))
        ⟨⟨.rparen, ")", ⟨1, 16, 15⟩⟩, rfl⟩))

/-- A comparison in front of an equality keeps its meaning without its parentheses. -/
theorem goReads_printed_inFront :
    ∃ e s last tree,
      Parse.readExpr (Parse.State.init (Parse.Cursor.ofLexer
        (Lexer.ofString "(a < b) == -(-c)"))) = .ok e s
        ∧ s.reports = [] ∧ s.cursor.rest = [last] ∧ GoReads "(a < b) == -(-c)" tree
        ∧ ∃ read, GoReads e.go read ∧ read.same tree = true := by
  have hTokens : comparisonInFront.tokens = (Lexer.ofString "(a < b) == -(-c)").words := by
    decide +kernel
  have hLevelled : comparisonInFront.Levelled TokenKind.level := by
    simp only [comparisonInFront, ExprPhrase.Levelled]
    decide
  obtain ⟨s, last, hRun, hWhole, hReports⟩ := Parse.readExpr_of_words _ hTokens hLevelled
  obtain ⟨-, ⟨tree, hTree⟩, hIff⟩ := goReads_printed_iff _ _ s last hRun hReports hWhole
  refine ⟨_, s, last, tree, hRun, hReports, hWhole, hTree, ?_⟩
  refine (hIff _ tree hTokens hLevelled hTree).mpr ⟨rfl, ?_⟩
  rw [← hTokens]
  decide

/-- The phrase of `a == (b < c)`. The parentheses around the comparison are not printed. -/
def comparisonBehind : ExprPhrase :=
  .binary (.atom ⟨.ident, "a", ⟨1, 1, 0⟩⟩ _ rfl) ⟨.eq, "==", ⟨1, 3, 2⟩⟩ rfl
    (.group ⟨⟨.lparen, "(", ⟨1, 6, 5⟩⟩, rfl⟩
      (.binary (.atom ⟨.ident, "b", ⟨1, 7, 6⟩⟩ _ rfl) ⟨.lt, "<", ⟨1, 9, 8⟩⟩ rfl
        (.atom ⟨.ident, "c", ⟨1, 11, 10⟩⟩ _ rfl))
      ⟨⟨.rparen, ")", ⟨1, 12, 11⟩⟩, rfl⟩)

/-- A comparison behind an equality loses its meaning with its parentheses: what is printed is
`a == b < c`, and Go compares `a` with `b` first. -/
theorem goReads_printed_behind :
    ∃ e s last tree,
      Parse.readExpr (Parse.State.init (Parse.Cursor.ofLexer (Lexer.ofString "a == (b < c)"))) =
          .ok e s
        ∧ s.reports = [] ∧ s.cursor.rest = [last] ∧ e.go = "a == b < c"
        ∧ GoReads "a == (b < c)" tree ∧ ¬ ∃ read, GoReads e.go read ∧ read.same tree = true := by
  have hTokens : comparisonBehind.tokens = (Lexer.ofString "a == (b < c)").words := by
    decide +kernel
  have hLevelled : comparisonBehind.Levelled TokenKind.level := by
    simp only [comparisonBehind, ExprPhrase.Levelled]
    decide
  obtain ⟨s, last, hRun, hWhole, hReports⟩ := Parse.readExpr_of_words _ hTokens hLevelled
  have hTree := comparisonBehind.goReads hTokens hLevelled
  refine ⟨_, s, last, _, hRun, hReports, hWhole, by decide +kernel, hTree, fun hSame => ?_⟩
  have hFaithful := ((comparisonBehind.goReads_go_iff hTokens hLevelled hTree).mp hSame).1
  exact absurd hFaithful (by decide)

end TryGo
