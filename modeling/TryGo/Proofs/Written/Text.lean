import TryGo.Parse.Stmt
import TryGo.Proofs.Go.Expr
import TryGo.Proofs.Parse.Expr
import TryGo.Proofs.Written.Expr

/-! Printed expressions read back. The text of an expression is divided into the words that
`Expr.written` lists, so no two of its words run together, and those words are read as the
expression again. -/
namespace TryGo

mutual

/-- Whether the words of an expression are spelled as such words are: names are not reserved,
numbers are numbers of their kind, and the content of a quoted literal ends where its quote
stands. -/
def Expr.Lexical : Expr → Prop
  | .missing | .foreign _ _ _ | .bool _ _ | .nil _ => True
  | .ident _ name => isName name = true
  | .int token _ => isNumber .int token.literal = true
  | .float token _ => isNumber .float token.literal = true
  | .str _ value false => isQuoted '"' value = true
  | .str _ value true => backtick ∉ value.toList
  | .char _ value => isQuoted '\'' value = true
  | .unary _ _ operand => operand.Lexical
  | .binary _ left _ right => left.Lexical ∧ right.Lexical
  | .call _ callee args => callee.Lexical ∧ Expr.AllLexical args
  | .select _ left field => left.Lexical ∧ field.Lexical
  | .index _ left position => left.Lexical ∧ position.Lexical

def Expr.AllLexical : List Expr → Prop
  | [] => True
  | e :: es => e.Lexical ∧ Expr.AllLexical es

end

/-! ### What follows a word -/

/-- The characters that stand behind an expression in a text, apart from the point. -/
def enders : List Char := [' ', '(', ')', '[', ']', ',']

/-- What ends an expression breaks off any word. -/
theorem breaks_ender {c : Char} (hEnder : c ∈ enders) (rest : List Char) : Breaks (c :: rest) := by
  simp only [enders, List.mem_cons, List.not_mem_nil, or_false] at hEnder
  rcases hEnder with rfl | rfl | rfl | rfl | rfl | rfl <;>
    exact ⟨rfl, by decide, by decide, nofun⟩

/-- A point in front of a name continues no number. -/
theorem breaks_point {name : String} (hName : isName name = true) (rest : List Char) :
    Breaks ('.' :: (name.toList ++ rest)) := by
  obtain ⟨c, tail, hChars, hStart⟩ := exists_head_of_isName hName
  refine ⟨rfl, by decide, by decide, fun _ d hHead => ?_⟩
  obtain rfl : c = d := by simpa [hChars] using hHead
  rw [Bool.eq_false_iff]
  intro hDigit
  rw [isWordStart_of_isDigit hDigit] at hStart
  cases hStart

/-- Whether a character may start an operand or open a group. -/
def startsOperand (c : Char) : Bool :=
  isWordStart c || c.isDigit || ['"', '\'', backtick, '('].contains c

/-- What starts an operand makes no operator in front of it longer. -/
theorem startsOperand_not_mem {c : Char} (hStarts : startsOperand c = true) :
    c ∉ ['=', '-', '>', '.'] := by
  intro hMem
  simp only [List.mem_cons, List.not_mem_nil, or_false] at hMem
  rcases hMem with rfl | rfl | rfl | rfl <;> exact absurd hStarts (by decide)

def StartsOperand (text : String) : Prop :=
  ∃ c tail, text.toList = c :: tail ∧ startsOperand c = true

/-- What starts an operand does so with anything behind it. -/
theorem StartsOperand.append {text : String} (hStarts : StartsOperand text) (more : String) :
    StartsOperand (text ++ more) := by
  obtain ⟨c, tail, hChars, hStart⟩ := hStarts
  exact ⟨c, tail ++ more.toList, by rw [String.toList_append, hChars]; rfl, hStart⟩

theorem startsOperand_parenthesis (text : String) : StartsOperand ("(" ++ text) :=
  ⟨'(', text.toList, by rw [String.toList_append]; rfl, by decide⟩

/-- An operand starts the same in brackets or without. -/
theorem startsOperand_parenIf {text : String} {wanted : Bool}
    (hStarts : wanted = false → StartsOperand text) : StartsOperand (parenIf wanted text) := by
  cases wanted with
  | true => exact (startsOperand_parenthesis text).append ")"
  | false => exact hStarts rfl

/-- A number starts an operand. -/
theorem startsOperand_number {kind : TokenKind} {literal : String}
    (hNumber : isNumber kind literal = true) : StartsOperand literal := by
  have hHead : literal.toList.head?.any Char.isDigit = true := by
    simp only [isNumber, Bool.and_eq_true] at hNumber
    exact hNumber.1
  cases hChars : literal.toList with
  | nil =>
      rw [hChars] at hHead
      cases hHead
  | cons c tail =>
      rw [hChars] at hHead
      have hDigit : c.isDigit = true := by simpa using hHead
      exact ⟨c, tail, hChars, by simp [startsOperand, hDigit]⟩

/-- The text of an expression without operators outside parentheses starts with an
operand. -/
theorem Expr.startsOperand_goText : (e : Expr) → e.WellFormed → e.Lexical →
    Precedence.call.level ≤ e.goLevel → StartsOperand e.goText
  | .missing, hFormed, _, _ | .foreign _ _ _, hFormed, _, _ => hFormed.elim
  | .ident _ name, _, hLexical, _ => by
      obtain ⟨c, tail, hChars, hStart⟩ := exists_head_of_isName hLexical
      exact ⟨c, tail, hChars, by simp [startsOperand, hStart]⟩
  | .int _ _, _, hLexical, _ => startsOperand_number hLexical
  | .float _ _, _, hLexical, _ => startsOperand_number hLexical
  | .str _ value true, _, _, _ =>
      ⟨backtick, value.toList ++ [backtick], by simp [Expr.goText, stringText, backtick], by decide⟩
  | .str _ value false, _, _, _ =>
      ⟨'"', value.toList ++ ['"'], by simp [Expr.goText, stringText], by decide⟩
  | .char _ value, _, _, _ =>
      ⟨'\'', value.toList ++ ['\''], by simp [Expr.goText, charText], by decide⟩
  | .bool _ true, _, _, _ => ⟨'t', ['r', 'u', 'e'], by simp [Expr.goText, boolText], by decide⟩
  | .bool _ false, _, _, _ =>
      ⟨'f', ['a', 'l', 's', 'e'], by simp [Expr.goText, boolText], by decide⟩
  | .nil _, _, _, _ => ⟨'n', ['i', 'l'], by simp [Expr.goText], by decide⟩
  | .unary _ _ _, _, _, hLevel => absurd hLevel (by simp [Expr.goLevel, Precedence.level])
  | .binary _ _ op _, _, _, hLevel => by
      have hLow := level_ofOperator_lt op
      exact absurd (Nat.lt_of_le_of_lt hLevel hLow) (by decide)
  | .call _ callee _, hFormed, hLexical, _ => by
      simp only [Expr.goText, String.append_assoc]
      exact (startsOperand_parenIf fun hWanted => callee.startsOperand_goText hFormed.1 hLexical.1
        (Nat.not_lt.mp (of_decide_eq_false hWanted))).append _
  | .select _ left _, hFormed, hLexical, _ => by
      simp only [Expr.goText, String.append_assoc]
      exact (startsOperand_parenIf fun hWanted => left.startsOperand_goText hFormed.1 hLexical.1
        (Nat.not_lt.mp (of_decide_eq_false hWanted))).append _
  | .index _ left _, hFormed, hLexical, _ => by
      simp only [Expr.goText, String.append_assoc]
      exact (startsOperand_parenIf fun hWanted => left.startsOperand_goText hFormed.1 hLexical.1
        (Nat.not_lt.mp (of_decide_eq_false hWanted))).append _

/-! ### The words of a printed expression -/

/-- Whether the text of an expression is divided into its words in front of whatever does not
continue the last one. -/
def Expr.Lexes (e : Expr) : Prop :=
  ∀ rest, Breaks rest → spellings (e.goText.toList ++ rest) = e.written ++ spellings rest

/-- Whether the text of an expression is divided into its words in front of whatever does not
continue a name. No number is. -/
def Expr.LexesFreely (e : Expr) : Prop :=
  ∀ rest : List Char, (∀ c, rest.head? = some c → isWordChar c = false) →
    spellings (e.goText.toList ++ rest) = e.written ++ spellings rest

/-- What falls into its words in front of anything does so in front of a break. -/
theorem Expr.LexesFreely.lexes {e : Expr} (hLexes : e.LexesFreely) : e.Lexes :=
  fun rest hBreaks => hLexes rest (Lexeme.isWordChar_head hBreaks)

def Expr.AllLex (es : List Expr) : Prop :=
  ∀ rest, Breaks rest →
    spellings ((Text.commaSeparated (Expr.goTexts es)).toList ++ rest) =
      Expr.writtenAll es ++ spellings rest

section Lexing

variable {e left right position callee field : Expr} {es args : List Expr} {token : Token}
  {op : String}

/-- An expression in parentheses is divided off from whatever follows. -/
theorem Expr.Lexes.grouped (hLexes : e.Lexes) (rest : List Char) :
    spellings ((parenIf true e.goText).toList ++ rest) =
      bracketIf true e.written ++ spellings rest := by
  have hText : (parenIf true e.goText).toList ++ rest =
      '(' :: (e.goText.toList ++ ')' :: rest) := by simp [parenIf]
  rw [hText, spellings_delimiter .lparen (by decide),
    hLexes _ (breaks_ender (by decide) rest), spellings_delimiter .rparen (by decide)]
  simp [bracketIf]

/-- Brackets are words of their own. -/
theorem Expr.Lexes.bracketed (hLexes : e.Lexes) (wanted : Bool) {rest : List Char}
    (hBreaks : Breaks rest) :
    spellings ((parenIf wanted e.goText).toList ++ rest) =
      bracketIf wanted e.written ++ spellings rest := by
  cases wanted with
  | false => exact hLexes rest hBreaks
  | true => exact hLexes.grouped rest

theorem lexes_ident (hName : (Expr.ident token op).Lexical) : (Expr.ident token op).LexesFreely :=
  fun _ hRest => spellings_name hName hRest

theorem lexes_number {kind : TokenKind} {literal : String} (hText : e.goText = literal)
    (hWritten : e.written = [(kind, literal)]) (hNumber : isNumber kind literal = true) :
    e.Lexes := by
  intro rest hBreaks
  rw [hText, hWritten]
  exact spellings_number hNumber hBreaks

/-- A string is one word, in quotes or raw. -/
theorem lexes_str {value : String} {raw : Bool} (hLexical : (Expr.str token value raw).Lexical) :
    (Expr.str token value raw).LexesFreely := by
  intro rest _
  cases raw with
  | false =>
      have hText : (Expr.str token value false).goText.toList ++ rest =
          '"' :: (value.toList ++ '"' :: rest) := by simp [Expr.goText, stringText]
      rw [hText, spellings_string hLexical]
      rfl
  | true =>
      have hText : (Expr.str token value true).goText.toList ++ rest =
          backtick :: (value.toList ++ backtick :: rest) := by
        simp [Expr.goText, stringText, backtick]
      rw [hText, spellings_raw hLexical]
      rfl

theorem lexes_char {value : String} (hLexical : (Expr.char token value).Lexical) :
    (Expr.char token value).LexesFreely := by
  intro rest _
  have hText : (Expr.char token value).goText.toList ++ rest =
      '\'' :: (value.toList ++ '\'' :: rest) := by simp [Expr.goText, charText]
  rw [hText, spellings_char hLexical]
  rfl

/-- A reserved word is divided off. -/
theorem lexes_keyword (word : String) {kind : TokenKind} (hText : e.goText = word)
    (hWritten : e.written = [(kind, word)]) (hWord : isWord word.toList = true)
    (hKind : TokenKind.ofWord word = kind) : e.LexesFreely := by
  intro rest hRest
  rw [hText, hWritten, spellings_word hWord hRest, String.ofList_toList, hKind]
  rfl

/-- A unary operator is a word by itself in front of an operand. -/
theorem spellings_unaryOperator (hOp : op ∈ unaryOperators) {text : List Char}
    (hRest : ∀ c, text.head? = some c → startsOperand c = true) :
    spellings (op.toList ++ text) = (operatorKind op, op) :: spellings text := by
  have hLonger : ∀ c, text.head? = some c → c ∉ ['=', '-', '>', '.'] := fun c hHead =>
    startsOperand_not_mem (hRest c hHead)
  simp only [unaryOperators, List.mem_cons, List.not_mem_nil, or_false] at hOp
  rcases hOp with rfl | rfl | rfl
  · exact spellings_shortOperator .bang ['='] (by decide)
      fun c hHead hMem => hLonger c hHead (by simp_all)
  · exact spellings_shortOperator .minus ['=', '-', '>'] (by decide)
      fun c hHead hMem => hLonger c hHead (by simp_all)
  · exact spellings_shortOperator .bitXor ['='] (by decide)
      fun c hHead hMem => hLonger c hHead (by simp_all)

/-- The operand of a unary operator cannot join with it. -/
theorem lexes_unary (hOp : op ∈ unaryOperators) (hFormed : e.WellFormed) (hLexical : e.Lexical)
    (hOperand : e.Lexes) : (Expr.unary token op e).Lexes := by
  intro rest hBreaks
  have hStarts : StartsOperand (parenIf e.needsParensInUnary e.goText) := by
    refine startsOperand_parenIf fun hNone => e.startsOperand_goText hFormed hLexical ?_
    simp only [Expr.needsParensInUnary, Bool.or_eq_false_iff, decide_eq_false_iff_not] at hNone
    cases e with
    | unary => cases hNone.1
    | binary _ _ op _ => exact absurd (level_ofOperator_lt op) hNone.2
    | _ => exact Nat.le_of_ble_eq_true rfl
  obtain ⟨c, tail, hChars, hStart⟩ := hStarts
  rw [Expr.goText, String.toList_append, List.append_assoc, spellings_unaryOperator hOp,
    hOperand.bracketed _ hBreaks, Expr.written, List.cons_append]
  intro d hHead
  obtain rfl : c = d := by simpa [hChars] using hHead
  exact hStart

/-- The blanks around a binary operator keep it apart from its sides. -/
theorem lexes_binary (hOp : op ∈ binaryOperators) (hLeft : left.Lexes) (hRight : right.Lexes) :
    (Expr.binary token left op right).Lexes := by
  intro rest hBreaks
  simp only [Expr.goText, String.toList_append, List.append_assoc]
  have hBlank : " ".toList = [' '] := rfl
  rw [hLeft.bracketed _ (by rw [hBlank]; exact breaks_ender (by decide) _), hBlank,
    List.singleton_append, spellings_blank (by decide), List.singleton_append,
    spellings_infix hOp, hRight.bracketed _ hBreaks, Expr.written, List.append_assoc,
    List.cons_append]

/-- A call falls into the words of what is called and of its arguments. -/
theorem lexes_call (hCallee : callee.Lexes) (hArgs : Expr.AllLex args) :
    (Expr.call token callee args).LexesFreely := by
  intro rest _
  have hText : (Expr.call token callee args).goText.toList ++ rest =
      (parenIf (callee.goLevel < Precedence.call.level) callee.goText).toList
        ++ '(' :: ((Text.commaSeparated (Expr.goTexts args)).toList ++ ')' :: rest) := by
    simp [Expr.goText]
  rw [hText, hCallee.bracketed _ (breaks_ender (by decide) _),
    spellings_delimiter .lparen (by decide), hArgs _ (breaks_ender (by decide) _),
    spellings_delimiter .rparen (by decide)]
  simp [Expr.written]

/-- A dot with a name behind it breaks off any word. -/
theorem lexes_select (hLeft : left.Lexes) (hField : field.isIdent = true)
    (hLexical : field.Lexical) : (Expr.select token left field).LexesFreely := by
  intro rest hRest
  cases field with
  | ident fieldToken name =>
      have hText : (Expr.select token left (.ident fieldToken name)).goText.toList ++ rest =
          (parenIf (left.goLevel < Precedence.call.level) left.goText).toList
            ++ '.' :: (name.toList ++ rest) := by
        simp [Expr.goText, Expr.text]
      rw [hText, hLeft.bracketed _ (breaks_point hLexical rest),
        spellings_point hLexical hRest]
      simp [Expr.written, Expr.text]
  | _ => cases hField

/-- An index falls into its words between square brackets. -/
theorem lexes_index (hLeft : left.Lexes) (hPosition : position.Lexes) :
    (Expr.index token left position).LexesFreely := by
  intro rest _
  have hText : (Expr.index token left position).goText.toList ++ rest =
      (parenIf (left.goLevel < Precedence.call.level) left.goText).toList
        ++ '[' :: (position.goText.toList ++ ']' :: rest) := by
    simp [Expr.goText]
  rw [hText, hLeft.bracketed _ (breaks_ender (by decide) _),
    spellings_delimiter .lbracket (by decide), hPosition _ (breaks_ender (by decide) _),
    spellings_delimiter .rbracket (by decide)]
  simp [Expr.written]

/-- A comma with its blank keeps expressions apart. -/
theorem allLex_cons (hFirst : e.Lexes) (hRest : Expr.AllLex (right :: es)) :
    Expr.AllLex (e :: right :: es) := by
  intro rest hBreaks
  have hText : (Text.commaSeparated (Expr.goTexts (e :: right :: es))).toList ++ rest =
      e.goText.toList ++ ',' :: ' '
        :: ((Text.commaSeparated (Expr.goTexts (right :: es))).toList ++ rest) := by
    simp [Expr.goTexts, Text.commaSeparated]
  rw [hText, hFirst _ (breaks_ender (by decide) _), spellings_delimiter .comma (by decide),
    spellings_blank (by decide), hRest _ hBreaks]
  simp [Expr.writtenAll]

end Lexing

mutual

/-- Every expression is printed as its words. -/
theorem Expr.lexes : (e : Expr) → e.WellFormed → e.Lexical → e.Lexes
  | .missing, hFormed, _ | .foreign _ _ _, hFormed, _ => hFormed.elim
  | .ident _ _, _, hLexical => (lexes_ident hLexical).lexes
  | .int _ _, _, hLexical => lexes_number rfl rfl hLexical
  | .float _ _, _, hLexical => lexes_number rfl rfl hLexical
  | .str _ _ _, _, hLexical => (lexes_str hLexical).lexes
  | .char _ _, _, hLexical => (lexes_char hLexical).lexes
  | .bool _ true, _, _ => (lexes_keyword "true" rfl rfl rfl rfl).lexes
  | .bool _ false, _, _ => (lexes_keyword "false" rfl rfl rfl rfl).lexes
  | .nil _, _, _ => (lexes_keyword "nil" rfl rfl rfl rfl).lexes
  | .unary _ _ operand, hFormed, hLexical =>
      lexes_unary hFormed.1 hFormed.2 hLexical (operand.lexes hFormed.2 hLexical)
  | .binary _ left _ right, hFormed, hLexical =>
      lexes_binary hFormed.1 (left.lexes hFormed.2.1 hLexical.1)
        (right.lexes hFormed.2.2 hLexical.2)
  | .call _ callee args, hFormed, hLexical =>
      (lexes_call (callee.lexes hFormed.1 hLexical.1)
        (Expr.allLex args hFormed.2 hLexical.2)).lexes
  | .select _ left _, hFormed, hLexical =>
      (lexes_select (left.lexes hFormed.1 hLexical.1) hFormed.2 hLexical.2).lexes
  | .index _ left position, hFormed, hLexical =>
      (lexes_index (left.lexes hFormed.1 hLexical.1)
        (position.lexes hFormed.2 hLexical.2)).lexes

/-- The texts of expressions between commas fall into their words. -/
theorem Expr.allLex : (es : List Expr) → Expr.AllWellFormed es → Expr.AllLexical es →
    Expr.AllLex es
  | [], _, _ => fun _ _ => rfl
  | [e], hFormed, hLexical => e.lexes hFormed.1 hLexical.1
  | e :: next :: es, hFormed, hLexical =>
      allLex_cons (e.lexes hFormed.1 hLexical.1) (Expr.allLex (next :: es) hFormed.2 hLexical.2)

end

/-! ### Reading back -/

/-- The printed form of an expression is divided into its words. -/
theorem Expr.map_spelling_words_go (e : Expr) (hFormed : e.WellFormed) (hLexical : e.Lexical) :
    (Lexer.ofString e.go).words.map Token.spelling = e.written := by
  have hLexes := e.lexes hFormed hLexical [] trivial
  rw [List.append_nil, spellings_nil, List.append_nil, ← Expr.go_eq] at hLexes
  rw [map_spelling_words_eq]
  exact hLexes

/-- A phrase of all the tokens of a text is read as a whole. -/
theorem Parse.readExpr_of_words {text : String} (phrase : ExprPhrase)
    (hTokens : phrase.tokens = (Lexer.ofString text).words)
    (hLevelled : phrase.Levelled TokenKind.level) :
    ∃ s last, readExpr (State.init (Cursor.ofLexer (Lexer.ofString text))) = .ok phrase.tree s
      ∧ s.cursor.rest = [last] ∧ s.reports = [] := by
  have hInit : State.init (Cursor.ofLexer (Lexer.ofString text)) =
      (State.init (Cursor.ofLexer (Lexer.ofString text))).on (phrase.tokens ++ []) := by
    rw [hTokens, List.append_nil]
    rfl
  obtain ⟨last, hRun⟩ := readExpr_run (State.init (Cursor.ofLexer (Lexer.ofString text))) [] phrase
    hLevelled (by decide)
  rw [hInit]
  exact ⟨_, last, hRun, rfl, rfl⟩

/-- Printing an expression and reading the text gives the expression again, up to tokens: the
whole text is read, and nothing is reported. -/
theorem readExpr_go (e : Expr) (hFormed : e.WellFormed) (hLexical : e.Lexical) :
    ∃ read s last,
      Parse.readExpr (Parse.State.init (Parse.Cursor.ofLexer (Lexer.ofString e.go))) = .ok read s
        ∧ s.cursor.rest = [last] ∧ s.reports = [] ∧ read.same e = true := by
  obtain ⟨phrase, hStands, -⟩ := e.hasPhrase hFormed _ (e.map_spelling_words_go hFormed hLexical)
  obtain ⟨s, last, hRun, hWhole, hReports⟩ :=
    Parse.readExpr_of_words phrase hStands.covers hStands.levelled
  exact ⟨phrase.tree, s, last, hRun, hWhole, hReports, (Expr.same_iff _ _).mpr hStands.erased⟩

/-- Two signs in a row and a number with a field keep apart when they are printed. -/
theorem readExpr_go_signs :
    ∃ read s last,
      Parse.readExpr (Parse.State.init (Parse.Cursor.ofLexer
        (Lexer.ofString "a - -(-f(\"s\\\"\", 5.x))[0x1F]"))) = .ok read s
        ∧ s.cursor.rest = [last] ∧ s.reports = []
        ∧ read.same (.binary .blank (.ident .blank "a") "-"
          (.unary .blank "-" (.index .blank (.unary .blank "-" (.call .blank (.ident .blank "f")
            [.str .blank "s\\\"" false,
              .select .blank (.int ⟨.int, "5", .start⟩ 5) (.ident .blank "x")]))
            (.int ⟨.int, "0x1F", .start⟩ 31)))) = true :=
  readExpr_go (.binary .blank (.ident .blank "a") "-"
    (.unary .blank "-" (.index .blank (.unary .blank "-" (.call .blank (.ident .blank "f")
      [.str .blank "s\\\"" false,
        .select .blank (.int ⟨.int, "5", .start⟩ 5) (.ident .blank "x")]))
      (.int ⟨.int, "0x1F", .start⟩ 31))))
    (by simp [Expr.WellFormed, Expr.AllWellFormed]; decide)
    (by simp [Expr.Lexical, Expr.AllLexical]; decide)

end TryGo
