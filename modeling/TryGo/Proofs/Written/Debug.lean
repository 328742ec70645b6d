import TryGo.Proofs.Misname.Integer
import TryGo.Proofs.Parse.Numeral
import TryGo.Proofs.Phrase.Divided
import TryGo.Proofs.Written.ReadBack

/-! The debugging form of an expression reads back. In this form every operation but a call stands
in parentheses, so that each part of it is closed and none starts with a sign. Integers are in
decimal, whatever their literals were. -/
namespace TryGo

mutual

/-- Whether an expression has no holes and no floats, its names are not reserved, its quoted
literals end where their quotes stand, and its integers are decimal literals that can be read. -/
def Expr.Shown : Expr → Prop
  | .missing | .float _ _ | .foreign _ _ _ => False
  | .ident _ name => isName name = true
  | .int _ value => 0 ≤ value ∧ (Nat.digits 10 value.natAbs).length ≤ 4300
  | .str _ value false => isQuoted '"' value = true
  | .str _ value true => backtick ∉ value.toList
  | .char _ value => isQuoted '\'' value = true
  | .bool _ _ | .nil _ => True
  | .unary _ op operand => op ∈ unaryOperators ∧ operand.Shown
  | .binary _ left op right => op ∈ binaryOperators ∧ left.Shown ∧ right.Shown
  | .call _ callee args => callee.Shown ∧ Expr.AllShown args
  | .select _ left field => left.Shown ∧ field.isIdent = true ∧ field.Shown
  | .index _ left position => left.Shown ∧ position.Shown

def Expr.AllShown : List Expr → Prop
  | [] => True
  | e :: es => e.Shown ∧ Expr.AllShown es

end

/-! ### Integers in decimal -/

section Decimal

variable {n : Nat}

/-- Only the number zero starts with a zero. -/
theorem head?_toDigits_ne (hPos : 0 < n) : (Nat.toDigits 10 n).head? ≠ some '0' := by
  induction n using Nat.strongRecOn with
  | ind n ih =>
      by_cases hSmall : n < 10
      · have hTable : ∀ n < 10, 0 < n → some n.digitChar ≠ some '0' := by decide
        rw [Nat.toDigits_of_lt_base hSmall]
        exact hTable n hSmall hPos
      · have hTens : 10 ≤ n := Nat.not_lt.mp hSmall
        rw [Nat.toDigits_of_base_le (by decide) hTens,
          List.head?_append_of_ne_nil _ Nat.toDigits_ne_nil]
        exact ih (n / 10) (Nat.div_lt_self hPos (by decide)) (Nat.div_pos hTens (by decide))

/-- A natural number is shown as an integer that is read as one word. -/
theorem isNumber_toString (n : Nat) : isNumber .int (toString n) = true := by
  refine isNumber_of_numberForm ?_
  rw [Nat.toString_eq_ofList_toDigits, String.toList_ofList]
  have hRun : ∀ c ∈ Nat.toDigits 10 n, c.isDigit = true := fun c hMem =>
    Nat.isDigit_of_mem_toDigits (by decide) (by decide) hMem
  have hForm : NumberForm .int (Nat.toDigits 10 n ++ [] ++ []) :=
    .decimal Nat.toDigits_ne_nil hRun .absent .absent rfl
  rwa [List.append_nil, List.append_nil] at hForm

/-- The decimal literal of a number has the value of the number. -/
theorem integerValue?_toString (hShort : (Nat.digits 10 n).length ≤ 4300) :
    Number.integerValue? (toString n).toList = some n := by
  rw [Nat.toString_eq_ofList_toDigits, String.toList_ofList]
  have hDigits : ∀ c ∈ Nat.toDigits 10 n, c.isDigit = true := fun c hMem =>
    Nat.isDigit_of_mem_toDigits (by decide) (by decide) hMem
  have hLength : (Nat.toDigits 10 n).length ≤ Number.maxDecimalDigits := by
    refine (Nat.length_toDigits_le_iff (by decide) (by decide)).mpr ?_
    exact (Nat.digits_length_le_iff (by decide) n).mp hShort
  have hValue : Number.digitsValue 10 (Nat.toDigits 10 n) = n := by
    refine Eq.trans ?_ (Nat.ofDigitChars_toDigits (by decide) (Nat.le_refl 10))
    rw [Nat.ofDigitChars_eq_foldl, Number.digitsValue]
    refine List.foldl_ext _ _ _ fun value c hMem => ?_
    rw [Number.digitValue, if_pos (hDigits c hMem), Nat.mul_comm]
  have hSome : Nat.toDigits 10 n ≠ [] := Nat.toDigits_ne_nil
  obtain ⟨first, more, hChars⟩ := List.exists_cons_of_ne_nil hSome
  have hPlain : first = '0' → more = [] := by
    rintro rfl
    rcases Nat.eq_zero_or_pos n with rfl | hPos
    · exact (List.cons.inj hChars).2.symm
    · exact absurd (by rw [hChars]; rfl) (head?_toDigits_ne hPos)
  rw [hChars] at hDigits hLength hValue ⊢
  rw [Number.integerValue?_decimal hPlain, if_pos hLength, Number.classValue?,
    List.all_eq_true.mpr hDigits, hValue]
  rfl

end Decimal

/-! ### Tokens of the debugging form -/

/-- A token that neither is a comment nor breaks off may stand in a text. -/
theorem Token.sound_of_lexed {token : Token} (hLexed : token.Lexed)
    (hClosed : token.isClosed = true) (hPlain : token.kind ∉ [.comment, .blockComment]) :
    token.Sound := by
  simp only [List.mem_cons, List.not_mem_nil, or_false, not_or] at hPlain
  exact ⟨hLexed, hClosed, fun hLine => absurd hLine hPlain.1, fun hBlock => absurd hBlock hPlain.2⟩

/-- A token of a kind with one spelling may stand in a text. -/
theorem sound_of_fixed {kind : TokenKind} {text : String} (hFixed : kind.fixed? = some text)
    (hKind : kind ∉ [.string, .char, .comment, .blockComment, .eof]) :
    Token.Sound ⟨kind, text, .start⟩ := by
  simp only [List.mem_cons, List.not_mem_nil, or_false, not_or] at hKind
  refine Token.sound_of_lexed (Token.lexed_of_fixed hFixed ?_) (Token.isClosed_of_kind ?_) ?_ <;>
    simp [hKind]

/-- A token of a kind with many spellings may stand in a text if it has one of them. -/
theorem sound_of_free {kind : TokenKind} {text : String} (hFixed : kind.fixed? = none)
    (hKind : kind ∉ [.comment, .blockComment, .eof])
    (hForm : Token.FreeForm ⟨kind, text, .start⟩)
    (hClosed : Token.isClosed ⟨kind, text, .start⟩ = true) :
    Token.Sound ⟨kind, text, .start⟩ := by
  refine Token.sound_of_lexed (Token.lexed_of_free kind rfl hFixed hKind hForm) hClosed ?_
  simp only [List.mem_cons, List.not_mem_nil, or_false, not_or] at hKind
  simp [hKind]

/-- An operator is a sound token. -/
theorem sound_operator {op : String} (hOp : op ∈ unaryOperators ∨ op ∈ binaryOperators) :
    Token.Sound ⟨operatorKind op, op, .start⟩ := by
  have hTable : ∀ op ∈ unaryOperators ++ binaryOperators, (operatorKind op).fixed? = some op
      ∧ operatorKind op ∉ [.string, .char, .comment, .blockComment, .eof] := by decide
  obtain ⟨hFixed, hKind⟩ := hTable op (List.mem_append.mpr hOp)
  exact sound_of_fixed hFixed hKind

/-! ### Phrases of the debugging form -/

/-- Whether the text of a phrase is the debugging form of an expression. Such a phrase stands for
the expression. It is closed and starts with no sign. -/
structure ExprPhrase.Shows (phrase : ExprPhrase) (e : Expr) : Prop where
  printed : phrase.source = e.text.toList
  erased : phrase.tree.erase = e.erase
  sound : AllSound phrase.tokens
  apart : phrase.SignsApart
  levelled : phrase.Levelled TokenKind.level
  closed : phrase.level TokenKind.level = Precedence.dot.level
  unsigned : ∀ more, nextKind (phrase.tokens ++ more) ≠ .minus

structure ExprsPhrase.Show (phrase : ExprsPhrase) (es : List Expr) : Prop where
  printed : phrase.source = (Text.commaSeparated (Expr.texts es)).toList
  erased : Expr.eraseAll phrase.trees = Expr.eraseAll es
  sound : AllSound phrase.tokens
  apart : phrase.SignsApart
  levelled : phrase.Levelled TokenKind.level

section Phrases

variable {e left right position callee field : Expr} {es args : List Expr} {token : Token}
  {op : String}

/-- An expression that is one token is shown by the token. -/
theorem exists_shows_operand {kind : TokenKind} {literal : String} {value : Expr}
    (hSound : Token.Sound ⟨kind, literal, .start⟩)
    (hValue : operand? ⟨kind, literal, .start⟩ = some value) (hErased : value.erase = e.erase)
    (hText : Token.source ⟨kind, literal, .start⟩ = e.text.toList) :
    ∃ phrase : ExprPhrase, phrase.Shows e := by
  refine ⟨.atom _ value hValue, hText, hErased, ?_, trivial, trivial, rfl, ?_⟩
  · rw [ExprPhrase.tokens, allSound_cons]
    exact ⟨hSound, allSound_nil⟩
  · rintro more rfl
    cases hValue

/-- An operation in parentheses is shown by a group. -/
theorem ExprPhrase.exists_shows_group (phrase : ExprPhrase)
    (hText : e.text.toList = '(' :: (phrase.source ++ [')']))
    (hErased : phrase.tree.erase = e.erase) (hSound : AllSound phrase.tokens)
    (hApart : phrase.SignsApart) (hLevelled : phrase.Levelled TokenKind.level) :
    ∃ phrase : ExprPhrase, phrase.Shows e := by
  refine ⟨.group printedOpening phrase printedClosing, ?_, hErased, ?_, hApart, hLevelled, rfl,
    fun _ => nofun⟩
  · rw [hText]
    rfl
  · simp only [ExprPhrase.tokens, allSound_cons, allSound_append, allSound_nil, and_true]
    exact ⟨sound_of_fixed rfl (by decide), hSound, sound_of_fixed rfl (by decide)⟩

/-- A name is shown as it is spelled. -/
theorem exists_shows_ident {name : String} (hName : isName name = true) :
    ∃ phrase : ExprPhrase, phrase.Shows (.ident token name) := by
  have hSound : Token.Sound ⟨.ident, name, .start⟩ := sound_of_free rfl (by decide) hName rfl
  exact exists_shows_operand hSound rfl rfl rfl

/-- An integer is shown by its decimal digits. -/
theorem exists_shows_int {value : Int} (hPos : 0 ≤ value)
    (hShort : (Nat.digits 10 value.natAbs).length ≤ 4300) :
    ∃ phrase : ExprPhrase, phrase.Shows (.int token value) := by
  obtain ⟨n, rfl⟩ := Int.eq_ofNat_of_zero_le hPos
  have hSound : Token.Sound ⟨.int, toString n, .start⟩ :=
    sound_of_free rfl (by decide) (isNumber_toString n) rfl
  have hValue : Number.integerValue? (toString n).toList = some n := integerValue?_toString hShort
  exact exists_shows_operand hSound
    (congrArg (Option.map fun value : Nat => Expr.int _ value) hValue) rfl rfl

/-- A string is shown as one token. -/
theorem exists_shows_str {value : String} {raw : Bool} (hShown : (Expr.str token value raw).Shown) :
    ∃ phrase : ExprPhrase, phrase.Shows (.str token value raw) := by
  cases raw with
  | false =>
      have hSound : Token.Sound ⟨.string, value, .start⟩ :=
        sound_of_free rfl (by decide) trivial hShown
      refine exists_shows_operand hSound rfl rfl ?_
      simp [Token.source, TokenKind.delimiter?, Expr.text, stringText]
  | true =>
      have hSound : Token.Sound ⟨.rawString, value, .start⟩ :=
        sound_of_free rfl (by decide) hShown rfl
      refine exists_shows_operand hSound rfl rfl ?_
      simp [Token.source, TokenKind.delimiter?, Expr.text, stringText, backtick]

/-- A character is shown in quotes. -/
theorem exists_shows_char {value : String} (hQuoted : isQuoted '\'' value = true) :
    ∃ phrase : ExprPhrase, phrase.Shows (.char token value) := by
  have hSound : Token.Sound ⟨.char, value, .start⟩ := sound_of_free rfl (by decide) trivial hQuoted
  refine exists_shows_operand hSound rfl rfl ?_
  simp [Token.source, TokenKind.delimiter?, Expr.text, charText]

theorem exists_shows_bool {value : Bool} :
    ∃ phrase : ExprPhrase, phrase.Shows (.bool token value) := by
  cases value with
  | false =>
      have hSound : Token.Sound ⟨.kwFalse, "false", .start⟩ := sound_of_fixed rfl (by decide)
      exact exists_shows_operand hSound rfl rfl rfl
  | true =>
      have hSound : Token.Sound ⟨.kwTrue, "true", .start⟩ := sound_of_fixed rfl (by decide)
      exact exists_shows_operand hSound rfl rfl rfl

theorem exists_shows_nil : ∃ phrase : ExprPhrase, phrase.Shows (.nil token) := by
  have hSound : Token.Sound ⟨.kwNil, "nil", .start⟩ := sound_of_fixed rfl (by decide)
  exact exists_shows_operand hSound rfl rfl rfl

/-- A unary operation is shown in brackets. -/
theorem exists_shows_unary (hOp : op ∈ unaryOperators)
    (hOperand : ∃ phrase : ExprPhrase, phrase.Shows e) :
    ∃ phrase : ExprPhrase, phrase.Shows (.unary token op e) := by
  obtain ⟨phrase, hShows⟩ := hOperand
  refine ExprPhrase.exists_shows_group
    (.unary ⟨operatorKind op, op, .start⟩ (isUnary_operatorKind hOp) phrase) ?_ ?_ ?_ ?_ ?_
  · have hSource : Token.source ⟨operatorKind op, op, .start⟩ = op.toList :=
      source_operator (.inl (isUnary_operatorKind hOp))
    simp [Expr.text, ExprPhrase.source, hShows.printed, hSource]
  · rw [ExprPhrase.tree, Expr.erase, Expr.erase, hShows.erased]
  · rw [ExprPhrase.tokens, allSound_cons]
    exact ⟨sound_operator (.inl hOp), hShows.sound⟩
  · refine ⟨fun _ => ?_, hShows.apart⟩
    rw [← List.append_nil phrase.tokens]
    exact hShows.unsigned []
  · refine ⟨?_, hShows.levelled⟩
    rw [hShows.closed]
    decide

/-- A binary operation is shown in brackets, with blanks around its operator. -/
theorem exists_shows_binary (hOp : op ∈ binaryOperators)
    (hLeft : ∃ phrase : ExprPhrase, phrase.Shows left)
    (hRight : ∃ phrase : ExprPhrase, phrase.Shows right) :
    ∃ phrase : ExprPhrase, phrase.Shows (.binary token left op right) := by
  obtain ⟨leftPhrase, hLeft⟩ := hLeft
  obtain ⟨rightPhrase, hRight⟩ := hRight
  have hBinary := (isBinary_operatorKind hOp).1
  have hBound : (operatorKind op).level < Precedence.dot.level :=
    Nat.lt_trans (TokenKind.level_lt_unary_of_isBinary hBinary) (by decide)
  refine ExprPhrase.exists_shows_group
    (.binary leftPhrase ⟨operatorKind op, op, .start⟩ hBinary rightPhrase) ?_ ?_ ?_ ?_ ?_
  · have hSource : Token.source ⟨operatorKind op, op, .start⟩ = op.toList :=
      source_operator (.inr hBinary)
    simp [Expr.text, ExprPhrase.source, hLeft.printed, hRight.printed, hSource]
  · rw [ExprPhrase.tree, Expr.erase, Expr.erase, hLeft.erased, hRight.erased]
  · rw [ExprPhrase.tokens, allSound_append, allSound_cons]
    exact ⟨hLeft.sound, sound_operator (.inr hOp), hRight.sound⟩
  · exact ⟨hLeft.apart, hRight.apart⟩
  · refine ⟨?_, ?_, hLeft.levelled, hRight.levelled⟩
    · rw [hLeft.closed]
      exact hBound.le
    · rw [hRight.closed]
      exact hBound

/-- A call is shown with its arguments between brackets. -/
theorem exists_shows_call (hCallee : ∃ phrase : ExprPhrase, phrase.Shows callee)
    (hArgs : args ≠ [] → ∃ phrase : ExprsPhrase, phrase.Show args) :
    ∃ phrase : ExprPhrase, phrase.Shows (.call token callee args) := by
  obtain ⟨phrase, hShows⟩ := hCallee
  have hLevel : Precedence.call.level ≤ phrase.level TokenKind.level := by
    rw [hShows.closed]
    decide
  have hUnsigned : ∀ tokens more, nextKind (phrase.tokens ++ tokens ++ more) ≠ .minus := by
    intro tokens more
    rw [List.append_assoc]
    exact hShows.unsigned _
  have hOpening : printedOpening.val.Sound := sound_of_fixed rfl (by decide)
  have hClosing : printedClosing.val.Sound := sound_of_fixed rfl (by decide)
  by_cases hNil : args = []
  · subst hNil
    refine ⟨.callEmpty phrase printedOpening printedClosing, ?_, ?_, ?_, hShows.apart,
      ⟨hLevel, hShows.levelled⟩, rfl, hUnsigned _⟩
    · rw [ExprPhrase.source, hShows.printed, Expr.text]
      simp [Expr.texts, Text.commaSeparated, printedOpening, printedClosing, Token.source,
        TokenKind.delimiter?]
    · rw [ExprPhrase.tree, Expr.erase, Expr.erase, hShows.erased]
    · simp only [ExprPhrase.tokens, allSound_cons, allSound_append, allSound_nil, and_true]
      exact ⟨hShows.sound, hOpening, hClosing⟩
  · obtain ⟨list, hList⟩ := hArgs hNil
    refine ⟨.call phrase printedOpening list printedClosing, ?_, ?_, ?_,
      ⟨hShows.apart, hList.apart⟩, ⟨hLevel, hShows.levelled, hList.levelled⟩, rfl, hUnsigned _⟩
    · rw [ExprPhrase.source, hShows.printed, hList.printed, Expr.text]
      simp [printedOpening, printedClosing, Token.source, TokenKind.delimiter?]
    · rw [ExprPhrase.tree, Expr.erase, Expr.erase, hShows.erased, hList.erased]
    · simp only [ExprPhrase.tokens, allSound_cons, allSound_append, allSound_nil, and_true]
      exact ⟨hShows.sound, hOpening, hList.sound, hClosing⟩

/-- A selector is shown with a dot. -/
theorem exists_shows_select (hLeft : ∃ phrase : ExprPhrase, phrase.Shows left)
    (hField : field.isIdent = true) (hShown : field.Shown) :
    ∃ phrase : ExprPhrase, phrase.Shows (.select token left field) := by
  obtain ⟨phrase, hShows⟩ := hLeft
  cases field with
  | ident fieldToken name =>
      refine ExprPhrase.exists_shows_group
        (.select phrase ⟨⟨.dot, ".", .start⟩, rfl⟩ ⟨⟨.ident, name, .start⟩, rfl⟩) ?_ ?_ ?_
        hShows.apart ?_
      · rw [ExprPhrase.source, hShows.printed]
        simp [Expr.text, Token.source, TokenKind.delimiter?]
      · rw [ExprPhrase.tree, Expr.erase, Expr.erase, hShows.erased]
        rfl
      · simp only [ExprPhrase.tokens, allSound_cons, allSound_append, allSound_nil, and_true]
        exact ⟨hShows.sound, sound_of_fixed rfl (by decide),
          sound_of_free rfl (by decide) hShown rfl⟩
      · refine ⟨?_, hShows.levelled⟩
        rw [hShows.closed]
        decide
  | _ => cases hField

/-- An index is shown between square brackets. -/
theorem exists_shows_index (hLeft : ∃ phrase : ExprPhrase, phrase.Shows left)
    (hPosition : ∃ phrase : ExprPhrase, phrase.Shows position) :
    ∃ phrase : ExprPhrase, phrase.Shows (.index token left position) := by
  obtain ⟨phrase, hShows⟩ := hLeft
  obtain ⟨inner, hInner⟩ := hPosition
  refine ExprPhrase.exists_shows_group
    (.index phrase ⟨⟨.lbracket, "[", .start⟩, rfl⟩ inner ⟨⟨.rbracket, "]", .start⟩, rfl⟩) ?_ ?_ ?_
    ⟨hShows.apart, hInner.apart⟩ ?_
  · rw [ExprPhrase.source, hShows.printed, hInner.printed]
    simp [Expr.text, Token.source, TokenKind.delimiter?]
  · rw [ExprPhrase.tree, Expr.erase, Expr.erase, hShows.erased, hInner.erased]
  · simp only [ExprPhrase.tokens, allSound_cons, allSound_append, allSound_nil, and_true]
    exact ⟨hShows.sound, sound_of_fixed rfl (by decide), hInner.sound,
      sound_of_fixed rfl (by decide)⟩
  · refine ⟨?_, hShows.levelled, hInner.levelled⟩
    rw [hShows.closed]
    decide

theorem exists_show_singleton (hFirst : ∃ phrase : ExprPhrase, phrase.Shows e) :
    ∃ phrase : ExprsPhrase, phrase.Show [e] := by
  obtain ⟨phrase, hShows⟩ := hFirst
  refine ⟨.last phrase, hShows.printed, ?_, hShows.sound, hShows.apart, hShows.levelled⟩
  rw [ExprsPhrase.trees, Expr.eraseAll, Expr.eraseAll, hShows.erased]
  rfl

/-- Arguments are shown with commas between them. -/
theorem exists_show_cons (hFirst : ∃ phrase : ExprPhrase, phrase.Shows e)
    (hRest : ∃ phrase : ExprsPhrase, phrase.Show (right :: es)) :
    ∃ phrase : ExprsPhrase, phrase.Show (e :: right :: es) := by
  obtain ⟨phrase, hShows⟩ := hFirst
  obtain ⟨list, hList⟩ := hRest
  refine ⟨.more phrase ⟨⟨.comma, ",", .start⟩, rfl⟩ list, ?_, ?_, ?_, ⟨hShows.apart, hList.apart⟩,
    ⟨hShows.levelled, hList.levelled⟩⟩
  · rw [ExprsPhrase.source, hShows.printed, hList.printed]
    simp [Expr.texts, Text.commaSeparated, Token.source, TokenKind.delimiter?]
  · rw [ExprsPhrase.trees, Expr.eraseAll, hShows.erased, hList.erased]
    rfl
  · simp only [ExprsPhrase.tokens, allSound_cons, allSound_append]
    exact ⟨hShows.sound, sound_of_fixed rfl (by decide), hList.sound⟩

end Phrases

mutual

/-- The debugging form of an expression is the text of a phrase. -/
theorem Expr.exists_shows : (e : Expr) → e.Shown → ∃ phrase : ExprPhrase, phrase.Shows e
  | .missing, hShown | .float _ _, hShown | .foreign _ _ _, hShown => hShown.elim
  | .ident _ _, hShown => exists_shows_ident hShown
  | .int _ _, hShown => exists_shows_int hShown.1 hShown.2
  | .str _ _ _, hShown => exists_shows_str hShown
  | .char _ _, hShown => exists_shows_char hShown
  | .bool _ _, _ => exists_shows_bool
  | .nil _, _ => exists_shows_nil
  | .unary _ _ operand, hShown => exists_shows_unary hShown.1 (operand.exists_shows hShown.2)
  | .binary _ left _ right, hShown =>
      exists_shows_binary hShown.1 (left.exists_shows hShown.2.1) (right.exists_shows hShown.2.2)
  | .call _ callee args, hShown =>
      exists_shows_call (callee.exists_shows hShown.1) (Expr.exists_show args hShown.2)
  | .select _ left _, hShown =>
      exists_shows_select (left.exists_shows hShown.1) hShown.2.1 hShown.2.2
  | .index _ left position, hShown =>
      exists_shows_index (left.exists_shows hShown.1) (position.exists_shows hShown.2)

/-- Whatever is shown as a list is shown by a phrase. -/
theorem Expr.exists_show : (es : List Expr) → Expr.AllShown es → es ≠ [] →
    ∃ phrase : ExprsPhrase, phrase.Show es
  | [], _, hSome => absurd rfl hSome
  | [e], hShown, _ => exists_show_singleton (e.exists_shows hShown.1)
  | e :: next :: es, hShown, _ =>
      exists_show_cons (e.exists_shows hShown.1)
        (Expr.exists_show (next :: es) hShown.2 (List.cons_ne_nil next es))

end

mutual

/-- No integer of such an expression is too long to be rendered. -/
theorem Expr.hasLongInteger_of_shown : (e : Expr) → e.Shown → e.hasLongInteger = false
  | .missing, hShown | .float _ _, hShown | .foreign _ _ _, hShown => hShown.elim
  | .ident _ _, _ | .str _ _ _, _ | .char _ _, _ | .bool _ _, _ | .nil _, _ => rfl
  | .int _ value, hShown => by
      rw [Expr.hasLongInteger, Number.isUnrenderable_eq, Number.isLong, decide_eq_false_iff_not]
      exact Nat.not_lt.mpr hShown.2
  | .unary _ _ operand, hShown => operand.hasLongInteger_of_shown hShown.2
  | .binary _ left _ right, hShown => by
      rw [Expr.hasLongInteger, left.hasLongInteger_of_shown hShown.2.1,
        right.hasLongInteger_of_shown hShown.2.2, Bool.or_false]
  | .call _ callee args, hShown => by
      rw [Expr.hasLongInteger, callee.hasLongInteger_of_shown hShown.1,
        Expr.anyLongInteger_of_shown args hShown.2, Bool.or_false]
  | .select _ left field, hShown => by
      rw [Expr.hasLongInteger, left.hasLongInteger_of_shown hShown.1,
        field.hasLongInteger_of_shown hShown.2.2, Bool.or_false]
  | .index _ left position, hShown => by
      rw [Expr.hasLongInteger, left.hasLongInteger_of_shown hShown.1,
        position.hasLongInteger_of_shown hShown.2, Bool.or_false]

/-- No integer that is shown is too long to be. -/
theorem Expr.anyLongInteger_of_shown :
    (es : List Expr) → Expr.AllShown es → Expr.anyLongInteger es = false
  | [], _ => rfl
  | e :: es, hShown => by
      rw [Expr.anyLongInteger, e.hasLongInteger_of_shown hShown.1,
        Expr.anyLongInteger_of_shown es hShown.2, Bool.or_false]

end

/-- The debugging form of an expression without holes and floats exists, and it is read as the
expression again, up to tokens: the whole text is read, and nothing is reported. -/
theorem Expr.readsBack_text (e : Expr) (hShown : e.Shown) :
    e.render = .ok e.text ∧ Parse.ReadsBack e.text e := by
  refine ⟨by rw [Expr.render, e.hasLongInteger_of_shown hShown]; rfl, ?_⟩
  obtain ⟨phrase, hShows⟩ := e.exists_shows hShown
  refine Parse.readsBack_of_spellings hShows.levelled ?_ hShows.erased
  have hDivides := phrase.divides hShows.sound [] trivial
  rw [Divides, List.append_nil, spellings_nil, List.append_nil, hShows.printed] at hDivides
  rw [map_spelling_words_eq]
  exact hDivides.resolve_right fun hFused => hFused.1 hShows.apart

/-- Signs, selectors, an index and a call keep apart in the debugging form, and an integer whose
literal was hexadecimal is decimal in it. -/
theorem Expr.readsBack_text_signs :
    Parse.ReadsBack "(a - (-((-f(\"s\\\"\", (5.x)))[31])))"
      (.binary .blank (.ident .blank "a") "-"
        (.unary .blank "-" (.index .blank (.unary .blank "-" (.call .blank (.ident .blank "f")
          [.str .blank "s\\\"" false,
            .select .blank (.int ⟨.int, "5", .start⟩ 5) (.ident .blank "x")]))
          (.int ⟨.int, "0x1F", .start⟩ 31)))) := by
  refine (Expr.readsBack_text (.binary .blank (.ident .blank "a") "-"
    (.unary .blank "-" (.index .blank (.unary .blank "-" (.call .blank (.ident .blank "f")
      [.str .blank "s\\\"" false,
        .select .blank (.int ⟨.int, "5", .start⟩ 5) (.ident .blank "x")]))
      (.int ⟨.int, "0x1F", .start⟩ 31)))) ?_).2
  simp only [Expr.Shown, Expr.AllShown]
  decide

end TryGo
