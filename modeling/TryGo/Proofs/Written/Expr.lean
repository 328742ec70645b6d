import TryGo.Go.Expr
import TryGo.Proofs.Phrase.Layout
import TryGo.Proofs.Token.Spelling
import TryGo.Proofs.Tree.Erase

/-! Expressions as token sequences. `Expr.written` is what the tokens of an expression say,
with the parentheses that the printer puts. Whatever tokens say that, they are covered by a
phrase whose tree is the expression, up to tokens, and whose text is the printed expression. -/
namespace TryGo

def bracketIf (wanted : Bool) (words : List Spelling) : List Spelling :=
  if wanted then (.lparen, "(") :: (words ++ [(.rparen, ")")]) else words

def unaryOperators : List String := ["!", "-", "^"]

mutual

/-- What the tokens of an expression say. A hole and a foreign node have none. -/
def Expr.written : Expr → List Spelling
  | .missing | .foreign _ _ _ => []
  | .ident _ name => [(.ident, name)]
  | .int token _ => [(.int, token.literal)]
  | .float token _ => [(.float, token.literal)]
  | .str _ value raw => [(if raw then .rawString else .string, value)]
  | .char _ value => [(.char, value)]
  | .bool _ value => [(if value then .kwTrue else .kwFalse, boolText value)]
  | .nil _ => [(.kwNil, "nil")]
  | .unary _ op operand => (operatorKind op, op)
      :: bracketIf operand.needsParensInUnary operand.written
  | .binary _ left op right =>
      bracketIf (left.goLevel < (Precedence.ofOperator op).level) left.written
        ++ (operatorKind op, op)
          :: bracketIf (right.goLevel < (Precedence.ofOperator op).level + 1) right.written
  | .call _ callee args =>
      bracketIf (callee.goLevel < Precedence.call.level) callee.written
        ++ (.lparen, "(") :: (Expr.writtenAll args ++ [(.rparen, ")")])
  | .select _ left field =>
      bracketIf (left.goLevel < Precedence.call.level) left.written
        ++ [(.dot, "."), (.ident, field.text)]
  | .index _ left position =>
      bracketIf (left.goLevel < Precedence.call.level) left.written
        ++ (.lbracket, "[") :: (position.written ++ [(.rbracket, "]")])

def Expr.writtenAll : List Expr → List Spelling
  | [] => []
  | [e] => e.written
  | e :: next :: es => e.written ++ (.comma, ",") :: Expr.writtenAll (next :: es)

end

mutual

/-- Whether an expression has no holes, uses the operators of the language, selects by names,
and gives every number the value of its literal. -/
def Expr.WellFormed : Expr → Prop
  | .missing | .foreign _ _ _ => False
  | .ident _ _ | .str _ _ _ | .char _ _ | .bool _ _ | .nil _ => True
  | .int token value =>
      (Number.integerValue? token.literal.toList).map (fun n : Nat => (n : Int)) = some value
  | .float token value => Number.Binary64.ofLiteral? token.literal.toList = some value
  | .unary _ op operand => op ∈ unaryOperators ∧ operand.WellFormed
  | .binary _ left op right => op ∈ binaryOperators ∧ left.WellFormed ∧ right.WellFormed
  | .call _ callee args => callee.WellFormed ∧ Expr.AllWellFormed args
  | .select _ left field => left.WellFormed ∧ field.isIdent = true
  | .index _ left position => left.WellFormed ∧ position.WellFormed

def Expr.AllWellFormed : List Expr → Prop
  | [] => True
  | e :: es => e.WellFormed ∧ Expr.AllWellFormed es

end

/-! ### Tokens from words -/

/-- Tokens that say a word and more start with a token that says the word. -/
theorem exists_mark {tokens : List Token} {kind : TokenKind} {literal : String}
    {words : List Spelling} (hWords : tokens.map Token.spelling = (kind, literal) :: words) :
    ∃ (mark : Mark kind) (rest : List Token), tokens = mark.val :: rest
      ∧ mark.val.literal = literal ∧ rest.map Token.spelling = words := by
  obtain ⟨token, rest, rfl, hToken, hRest⟩ := List.map_eq_cons_iff.mp hWords
  obtain ⟨hKind, hLiteral⟩ := Prod.mk.inj hToken
  exact ⟨⟨token, hKind⟩, rest, rfl, hLiteral, hRest⟩

/-- One word is spelled by one token. -/
theorem exists_mark_only {tokens : List Token} {kind : TokenKind} {literal : String}
    (hWords : tokens.map Token.spelling = [(kind, literal)]) :
    ∃ mark : Mark kind, tokens = [mark.val] ∧ mark.val.literal = literal := by
  obtain ⟨mark, rest, rfl, hLiteral, hRest⟩ := exists_mark hWords
  obtain rfl := List.map_eq_nil_iff.mp hRest
  exact ⟨mark, rfl, hLiteral⟩

/-- Tokens that spell two parts fall into the tokens of both. -/
theorem exists_parts {tokens : List Token} {words words' : List Spelling}
    (hWords : tokens.map Token.spelling = words ++ words') :
    ∃ first second, tokens = first ++ second ∧ first.map Token.spelling = words
      ∧ second.map Token.spelling = words' :=
  List.map_eq_append_iff.mp hWords

/-! ### Phrases of expressions -/

/-- Whether a phrase covers some tokens, nests as the parser wants it with no more parentheses
than that takes, and stands for an expression. -/
structure ExprPhrase.Stands (phrase : ExprPhrase) (tokens : List Token) (e : Expr) : Prop where
  covers : phrase.tokens = tokens
  erased : phrase.tree.erase = e.erase
  levelled : phrase.Levelled TokenKind.level
  sparing : phrase.Sparing TokenKind.level

structure ExprsPhrase.Stand (phrase : ExprsPhrase) (tokens : List Token) (es : List Expr) :
    Prop where
  covers : phrase.tokens = tokens
  erased : Expr.eraseAll phrase.trees = Expr.eraseAll es
  levelled : phrase.Levelled TokenKind.level
  sparing : phrase.Sparing TokenKind.level
  printed : phrase.source = (Text.commaSeparated (Expr.goTexts es)).toList

/-- Whatever tokens say what an expression is written as, a phrase covers them. -/
def Expr.HasPhrase (e : Expr) : Prop :=
  ∀ tokens : List Token, tokens.map Token.spelling = e.written →
    ∃ phrase : ExprPhrase, phrase.Stands tokens e ∧ phrase.level TokenKind.level = e.goLevel
      ∧ (∀ level, phrase.BareAt TokenKind.level level) ∧ phrase.source = e.goText.toList

def Expr.HavePhrase (es : List Expr) : Prop :=
  ∀ tokens : List Token, tokens.map Token.spelling = Expr.writtenAll es →
    ∃ phrase : ExprsPhrase, phrase.Stand tokens es

section Phrases

variable {e left right position callee : Expr} {es args : List Expr} {token : Token} {op : String}

/-- Parentheses bring an expression to any level, and there are no more of them than asked for. -/
theorem Expr.HasPhrase.bracketed (hPhrase : e.HasPhrase) {level asked : Nat} {wanted : Bool}
    (hLevel : level ≤ Precedence.dot.level) (hWanted : wanted = false → level ≤ e.goLevel)
    (hAsked : wanted = true → e.goLevel < asked)
    {tokens : List Token} (hWords : tokens.map Token.spelling = bracketIf wanted e.written) :
    ∃ phrase : ExprPhrase, phrase.Stands tokens e ∧ level ≤ phrase.level TokenKind.level
      ∧ phrase.BareAt TokenKind.level asked
      ∧ phrase.source = (parenIf wanted e.goText).toList := by
  cases wanted with
  | false =>
      obtain ⟨phrase, hStands, hGoLevel, hBare, hSource⟩ := hPhrase tokens hWords
      exact ⟨phrase, hStands, by rw [hGoLevel]; exact hWanted rfl, hBare asked, hSource⟩
  | true =>
      obtain ⟨opening, rest, rfl, hOpening, hRest⟩ := exists_mark hWords
      obtain ⟨inside, last, rfl, hInside, hLast⟩ := exists_parts hRest
      obtain ⟨closing, rfl, hClosing⟩ := exists_mark_only hLast
      obtain ⟨phrase, hStands, hGoLevel, hBare, hSource⟩ := hPhrase inside hInside
      refine ⟨.group opening phrase closing,
        ⟨?_, hStands.erased, hStands.levelled, hBare _, hStands.sparing⟩, hLevel, ?_, ?_⟩
      · rw [ExprPhrase.tokens, hStands.covers]
      · rw [ExprPhrase.BareAt, hGoLevel]
        exact hAsked rfl
      · rw [ExprPhrase.source, hSource, opening.source_eq rfl, closing.source_eq rfl, hOpening,
          hClosing]
        simp [parenIf]

/-- In brackets, where it needs them, an expression stands at any level. -/
theorem Expr.HasPhrase.atLevel (hPhrase : e.HasPhrase) {level : Nat}
    (hLevel : level ≤ Precedence.dot.level) {tokens : List Token}
    (hWords : tokens.map Token.spelling = bracketIf (e.goLevel < level) e.written) :
    ∃ phrase : ExprPhrase, phrase.Stands tokens e ∧ level ≤ phrase.level TokenKind.level
      ∧ phrase.BareAt TokenKind.level level
      ∧ phrase.source = (parenIf (e.goLevel < level) e.goText).toList :=
  hPhrase.bracketed hLevel (fun hWanted => Nat.not_lt.mp (of_decide_eq_false hWanted))
    of_decide_eq_true hWords

/-- An expression that is one word has a phrase if the word is that operand. -/
theorem hasPhrase_operand {kind : TokenKind} {literal : String}
    (hWritten : e.written = [(kind, literal)]) (hLevel : e.goLevel = Precedence.dot.level)
    (hText : Token.source ⟨kind, literal, .start⟩ = e.goText.toList)
    (hOperand : ∀ token : Token, token.kind = kind → token.literal = literal →
      ∃ value, operand? token = some value ∧ value.erase = e.erase) : e.HasPhrase := by
  intro tokens hWords
  rw [hWritten] at hWords
  obtain ⟨mark, rfl, hLiteral⟩ := exists_mark_only hWords
  obtain ⟨value, hValue, hErase⟩ := hOperand mark.val mark.property hLiteral
  refine ⟨.atom mark.val value hValue, ⟨rfl, hErase, trivial, trivial⟩, hLevel.symm,
    fun _ => trivial, ?_⟩
  rw [ExprPhrase.source, ← hText, Token.source, mark.property, hLiteral]
  rfl

theorem hasPhrase_ident (name : String) : (Expr.ident token name).HasPhrase := by
  refine hasPhrase_operand rfl rfl rfl fun token hKind hLiteral => ?_
  exact ⟨.ident token token.literal, by rw [operand?, hKind], by rw [hLiteral]; rfl⟩

/-- An integer with a value is spelled by one token. -/
theorem hasPhrase_int {value : Int} (hFormed : (Expr.int token value).WellFormed) :
    (Expr.int token value).HasPhrase := by
  refine hasPhrase_operand rfl rfl rfl fun found hKind hLiteral => ?_
  obtain ⟨n, hValue, rfl⟩ := Option.map_eq_some_iff.mp hFormed
  refine ⟨.int found n, ?_, rfl⟩
  rw [operand?, hKind, hLiteral]
  simp only [hValue, Option.map_some]

theorem hasPhrase_float {value : Number.Binary64} (hFormed : (Expr.float token value).WellFormed) :
    (Expr.float token value).HasPhrase := by
  refine hasPhrase_operand rfl rfl rfl fun found hKind hLiteral => ?_
  have hValue : Number.Binary64.ofLiteral? token.literal.toList = some value := hFormed
  refine ⟨.float found value, ?_, rfl⟩
  rw [operand?, hKind, hLiteral]
  simp only [hValue, Option.map_some]

theorem hasPhrase_str (value : String) (raw : Bool) : (Expr.str token value raw).HasPhrase := by
  have hText : Token.source ⟨if raw then .rawString else .string, value, .start⟩ =
      (Expr.str token value raw).goText.toList := by
    cases raw <;> simp [Token.source, TokenKind.delimiter?, Expr.goText, stringText, backtick]
  refine hasPhrase_operand rfl rfl hText fun found hKind hLiteral => ?_
  refine ⟨.str found found.literal raw, ?_, by rw [hLiteral]; rfl⟩
  cases raw <;> rw [operand?, hKind] <;> rfl

theorem hasPhrase_char (value : String) : (Expr.char token value).HasPhrase := by
  have hText : Token.source ⟨.char, value, .start⟩ = (Expr.char token value).goText.toList := by
    simp [Token.source, TokenKind.delimiter?, Expr.goText, charText]
  refine hasPhrase_operand rfl rfl hText fun found hKind hLiteral => ?_
  exact ⟨.char found found.literal, by rw [operand?, hKind], by rw [hLiteral]; rfl⟩

theorem hasPhrase_bool (value : Bool) : (Expr.bool token value).HasPhrase := by
  have hText : Token.source ⟨if value then .kwTrue else .kwFalse, boolText value, .start⟩ =
      (Expr.bool token value).goText.toList := by
    cases value <;> rfl
  refine hasPhrase_operand rfl rfl hText fun found hKind _ => ?_
  refine ⟨.bool found value, ?_, rfl⟩
  cases value <;> rw [operand?, hKind] <;> rfl

theorem hasPhrase_nil : (Expr.nil token).HasPhrase := by
  refine hasPhrase_operand rfl rfl rfl fun found hKind _ => ?_
  exact ⟨.nil found, by rw [operand?, hKind], rfl⟩

theorem isUnary_operatorKind (hOp : op ∈ unaryOperators) :
    (operatorKind op).isUnary = true := by
  revert op
  decide

theorem isBinary_operatorKind (hOp : op ∈ binaryOperators) :
    (operatorKind op).isBinary = true ∧
      (operatorKind op).level = (Precedence.ofOperator op).level := by
  revert op
  decide

/-- The operators have no delimiters. -/
theorem delimiter?_operatorKind (hOp : op ∈ unaryOperators ∨ op ∈ binaryOperators) :
    (operatorKind op).delimiter? = none := by
  have hTable : ∀ op ∈ unaryOperators ++ binaryOperators, (operatorKind op).delimiter? = none := by
    decide
  exact hTable op (List.mem_append.mpr hOp)

/-- Under a unary operator only operators stand in parentheses. -/
theorem Expr.goLevel_lt_of_needsParensInUnary (e : Expr) (hNeeds : e.needsParensInUnary = true) :
    e.goLevel < Precedence.unary.level + 1 := by
  rw [Expr.needsParensInUnary, Bool.or_eq_true, decide_eq_true_eq] at hNeeds
  rcases hNeeds with hUnary | hLow
  · cases e with
    | unary => exact Nat.lt_succ_self _
    | _ => cases hUnary
  · exact Nat.lt_succ_of_lt hLow

/-- The operand of a unary operator stands in brackets unless it binds as tightly. -/
theorem hasPhrase_unary (hOp : op ∈ unaryOperators) (hOperand : e.HasPhrase) :
    (Expr.unary token op e).HasPhrase := by
  intro tokens hWords
  obtain ⟨mark, rest, rfl, hLiteral, hRest⟩ := exists_mark hWords
  have hWanted : e.needsParensInUnary = false → Precedence.unary.level ≤ e.goLevel := by
    intro hNone
    simp only [Expr.needsParensInUnary, Bool.or_eq_false_iff, decide_eq_false_iff_not] at hNone
    exact Nat.not_lt.mp hNone.2
  obtain ⟨phrase, hStands, hLevel, hBare, hSource⟩ :=
    hOperand.bracketed (by decide) hWanted (fun hNeeded => e.goLevel_lt_of_needsParensInUnary hNeeded)
      hRest
  have hKind : mark.val.kind.isUnary = true := by
    rw [mark.property, isUnary_operatorKind hOp]
  refine ⟨.unary mark.val hKind phrase,
    ⟨?_, ?_, ⟨hLevel, hStands.levelled⟩, hBare, hStands.sparing⟩, rfl, fun _ => trivial, ?_⟩
  · rw [ExprPhrase.tokens, hStands.covers]
  · rw [ExprPhrase.tree, Expr.erase, Expr.erase, hStands.erased, hLiteral]
  · rw [ExprPhrase.source, hSource, mark.source_eq (delimiter?_operatorKind (.inl hOp)), hLiteral,
      Expr.goText, String.toList_append]

/-- The right side of an operator stands in brackets unless it binds more tightly. -/
theorem hasPhrase_binary (hOp : op ∈ binaryOperators) (hLeft : left.HasPhrase)
    (hRight : right.HasPhrase) : (Expr.binary token left op right).HasPhrase := by
  intro tokens hWords
  obtain ⟨hBinary, hOpLevel⟩ := isBinary_operatorKind hOp
  have hBound := TokenKind.level_lt_unary_of_isBinary hBinary
  rw [hOpLevel] at hBound
  have hDot : Precedence.unary.level ≤ Precedence.dot.level := by decide
  obtain ⟨first, rest, rfl, hFirst, hRest⟩ := exists_parts hWords
  obtain ⟨mark, second, rfl, hLiteral, hSecond⟩ := exists_mark hRest
  obtain ⟨leftPhrase, hLeftStands, hLeftLevel, hLeftBare, hLeftSource⟩ :=
    hLeft.atLevel (by omega) hFirst
  obtain ⟨rightPhrase, hRightStands, hRightLevel, hRightBare, hRightSource⟩ :=
    hRight.atLevel (by omega) hSecond
  have hKind : mark.val.kind.isBinary = true := by rw [mark.property, hBinary]
  have hLevel : mark.val.kind.level = (Precedence.ofOperator op).level := by
    rw [mark.property, hOpLevel]
  refine ⟨.binary leftPhrase mark.val hKind rightPhrase, ⟨?_, ?_, ?_, ?_⟩, hLevel, fun _ => trivial,
    ?_⟩
  · rw [ExprPhrase.tokens, hLeftStands.covers, hRightStands.covers]
  · rw [ExprPhrase.tree, Expr.erase, Expr.erase, hLeftStands.erased, hRightStands.erased, hLiteral]
  · refine ⟨?_, ?_, hLeftStands.levelled, hRightStands.levelled⟩
    · rw [hLevel]
      exact hLeftLevel
    · rw [hLevel]
      exact hRightLevel
  · rw [ExprPhrase.Sparing, hLevel]
    exact ⟨hLeftBare, hRightBare, hLeftStands.sparing, hRightStands.sparing⟩
  · rw [ExprPhrase.source, hLeftSource, hRightSource,
      mark.source_eq (delimiter?_operatorKind (.inr hOp)), hLiteral]
    simp [Expr.goText]

/-- A call is spelled with its arguments between brackets. -/
theorem hasPhrase_call (hCallee : callee.HasPhrase) (hArgs : args ≠ [] → Expr.HavePhrase args) :
    (Expr.call token callee args).HasPhrase := by
  intro tokens hWords
  obtain ⟨first, rest, rfl, hFirst, hRest⟩ := exists_parts hWords
  obtain ⟨opening, rest, rfl, hOpening, hRest⟩ := exists_mark hRest
  obtain ⟨inside, last, rfl, hInside, hLast⟩ := exists_parts hRest
  obtain ⟨closing, rfl, hClosing⟩ := exists_mark_only hLast
  obtain ⟨phrase, hStands, hLevel, hBare, hSource⟩ := hCallee.atLevel (by decide) hFirst
  by_cases hNil : args = []
  · subst hNil
    obtain rfl := List.map_eq_nil_iff.mp hInside
    refine ⟨.callEmpty phrase opening closing,
      ⟨?_, ?_, ⟨hLevel, hStands.levelled⟩, hBare, hStands.sparing⟩, rfl, fun _ => trivial, ?_⟩
    · rw [ExprPhrase.tokens, hStands.covers]
      rfl
    · rw [ExprPhrase.tree, Expr.erase, Expr.erase, hStands.erased]
    · rw [ExprPhrase.source, hSource, opening.source_eq rfl, closing.source_eq rfl, hOpening,
        hClosing]
      simp [Expr.goText, Expr.goTexts, Text.commaSeparated]
  · obtain ⟨list, hList⟩ := hArgs hNil inside hInside
    refine ⟨.call phrase opening list closing, ⟨?_, ?_,
      ⟨hLevel, hStands.levelled, hList.levelled⟩, hBare, hStands.sparing, hList.sparing⟩, rfl,
      fun _ => trivial, ?_⟩
    · rw [ExprPhrase.tokens, hStands.covers, hList.covers]
    · rw [ExprPhrase.tree, Expr.erase, Expr.erase, hStands.erased, hList.erased]
    · rw [ExprPhrase.source, hSource, hList.printed, opening.source_eq rfl, closing.source_eq rfl,
        hOpening, hClosing]
      simp [Expr.goText]

/-- A selector is spelled with its field behind a dot. -/
theorem hasPhrase_select {field : Expr} (hLeft : left.HasPhrase) (hField : field.isIdent = true) :
    (Expr.select token left field).HasPhrase := by
  intro tokens hWords
  obtain ⟨first, rest, rfl, hFirst, hRest⟩ := exists_parts hWords
  obtain ⟨dot, rest, rfl, hDot, hRest⟩ := exists_mark hRest
  obtain ⟨name, rfl, hName⟩ := exists_mark_only hRest
  obtain ⟨phrase, hStands, hLevel, hBare, hSource⟩ := hLeft.atLevel (by decide) hFirst
  refine ⟨.select phrase dot name, ⟨?_, ?_, ⟨hLevel, hStands.levelled⟩, hBare, hStands.sparing⟩,
    rfl, fun _ => trivial, ?_⟩
  · rw [ExprPhrase.tokens, hStands.covers]
  · rw [ExprPhrase.tree, Expr.erase, Expr.erase, hStands.erased, hName]
    cases field with
    | ident => rfl
    | _ => cases hField
  · rw [ExprPhrase.source, hSource, dot.source_eq rfl, name.source_eq rfl, hDot, hName]
    simp [Expr.goText]

/-- An index is spelled between square brackets. -/
theorem hasPhrase_index (hLeft : left.HasPhrase) (hPosition : position.HasPhrase) :
    (Expr.index token left position).HasPhrase := by
  intro tokens hWords
  obtain ⟨first, rest, rfl, hFirst, hRest⟩ := exists_parts hWords
  obtain ⟨opening, rest, rfl, hOpening, hRest⟩ := exists_mark hRest
  obtain ⟨inside, last, rfl, hInside, hLast⟩ := exists_parts hRest
  obtain ⟨closing, rfl, hClosing⟩ := exists_mark_only hLast
  obtain ⟨phrase, hStands, hLevel, hBare, hSource⟩ := hLeft.atLevel (by decide) hFirst
  obtain ⟨inner, hInner, -, hInnerBare, hInnerSource⟩ := hPosition inside hInside
  refine ⟨.index phrase opening inner closing, ⟨?_, ?_,
    ⟨hLevel, hStands.levelled, hInner.levelled⟩, hBare, hInnerBare _, hStands.sparing,
    hInner.sparing⟩, rfl, fun _ => trivial, ?_⟩
  · rw [ExprPhrase.tokens, hStands.covers, hInner.covers]
  · rw [ExprPhrase.tree, Expr.erase, Expr.erase, hStands.erased, hInner.erased]
  · rw [ExprPhrase.source, hSource, hInnerSource, opening.source_eq rfl, closing.source_eq rfl,
      hOpening, hClosing]
    simp [Expr.goText]

theorem havePhrase_singleton (hFirst : e.HasPhrase) : Expr.HavePhrase [e] := by
  intro tokens hWords
  obtain ⟨phrase, hStands, -, hBare, hSource⟩ := hFirst tokens hWords
  refine ⟨.last phrase, hStands.covers, ?_, hStands.levelled, ⟨hBare _, hStands.sparing⟩, hSource⟩
  rw [ExprsPhrase.trees, Expr.eraseAll, Expr.eraseAll, hStands.erased]
  rfl

/-- A comma stands between an expression and those behind it. -/
theorem havePhrase_cons (hFirst : e.HasPhrase) (hRest : Expr.HavePhrase (right :: es)) :
    Expr.HavePhrase (e :: right :: es) := by
  intro tokens hWords
  obtain ⟨first, rest, rfl, hFirstWords, hRestWords⟩ := exists_parts hWords
  obtain ⟨comma, rest, rfl, hComma, hRestWords⟩ := exists_mark hRestWords
  obtain ⟨phrase, hStands, -, hBare, hSource⟩ := hFirst first hFirstWords
  obtain ⟨list, hList⟩ := hRest rest hRestWords
  refine ⟨.more phrase comma list, ?_, ?_, ⟨hStands.levelled, hList.levelled⟩,
    ⟨hBare _, hStands.sparing, hList.sparing⟩, ?_⟩
  · rw [ExprsPhrase.tokens, hStands.covers, hList.covers]
  · rw [ExprsPhrase.trees, Expr.eraseAll, hStands.erased, hList.erased]
    rfl
  · rw [ExprsPhrase.source, hSource, hList.printed, comma.source_eq rfl, hComma]
    simp [Expr.goTexts, Text.commaSeparated]

end Phrases

mutual

/-- Every well-formed expression has phrases. -/
theorem Expr.hasPhrase : (e : Expr) → e.WellFormed → e.HasPhrase
  | .missing, hFormed | .foreign _ _ _, hFormed => hFormed.elim
  | .ident _ name, _ => hasPhrase_ident name
  | .int _ _, hFormed => hasPhrase_int hFormed
  | .float _ _, hFormed => hasPhrase_float hFormed
  | .str _ value raw, _ => hasPhrase_str value raw
  | .char _ value, _ => hasPhrase_char value
  | .bool _ value, _ => hasPhrase_bool value
  | .nil _, _ => hasPhrase_nil
  | .unary _ _ operand, hFormed =>
      hasPhrase_unary hFormed.1 (operand.hasPhrase hFormed.2)
  | .binary _ left _ right, hFormed =>
      hasPhrase_binary hFormed.1 (left.hasPhrase hFormed.2.1)
        (right.hasPhrase hFormed.2.2)
  | .call _ callee args, hFormed =>
      hasPhrase_call (callee.hasPhrase hFormed.1)
        (Expr.havePhrase args hFormed.2)
  | .select _ left _, hFormed =>
      hasPhrase_select (left.hasPhrase hFormed.1) hFormed.2
  | .index _ left position, hFormed =>
      hasPhrase_index (left.hasPhrase hFormed.1)
        (position.hasPhrase hFormed.2)

/-- Well-formed expressions are spelled with commas between them. -/
theorem Expr.havePhrase :
    (es : List Expr) → Expr.AllWellFormed es → es ≠ [] → Expr.HavePhrase es
  | [e], hFormed, _ => havePhrase_singleton (e.hasPhrase hFormed.1)
  | e :: next :: es, hFormed, _ =>
      havePhrase_cons (e.hasPhrase hFormed.1)
        (Expr.havePhrase (next :: es) hFormed.2 (List.cons_ne_nil next es))

end

end TryGo
