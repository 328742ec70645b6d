import TryGo.Parse.Expr
import TryGo.Proofs.Parse.Run

/-! The expression parser reads exactly the levelled phrases. -/
namespace TryGo.Parse

/-! ### From phrases to runs -/

section Forwards

variable (s : State) {fuel level : Nat} {token : Token} {more : List Token}

/-- An integer whose value is known is read without a report. -/
theorem integerLiteral_run {value : Nat}
    (hValue : Number.integerValue? token.literal.toList = some value) :
    integerLiteral (s.on (token :: more)) = .ok (.int token value) (s.on (token :: more)) := by
  unfold integerLiteral
  simp only [cur_bind, State.cur_on_cons, hValue, pure_run]

/-- A float whose value is known is read without a report. -/
theorem floatLiteral_run {value : Number.Binary64}
    (hValue : Number.Binary64.ofLiteral? token.literal.toList = some value) :
    floatLiteral (s.on (token :: more)) = .ok (.float token value) (s.on (token :: more)) := by
  unfold floatLiteral
  simp only [cur_bind, State.cur_on_cons, hValue, pure_run]

/-- An operand token is read on its own. -/
theorem expression_operand {value : Expr} (hValue : operand? token = some value) :
    expression (fuel + 1) level (s.on (token :: more)) =
      operators fuel level value (s.on (token :: more)) := by
  unfold operand? at hValue
  split at hValue
  case h_2 hKind =>
    obtain ⟨number, hNumber, rfl⟩ := Option.map_eq_some_iff.mp hValue
    simp only [expression, cur_bind, State.cur_on_cons, hKind]
    exact bind_of_ok (integerLiteral_run s hNumber)
  case h_3 hKind =>
    obtain ⟨number, hNumber, rfl⟩ := Option.map_eq_some_iff.mp hValue
    simp only [expression, cur_bind, State.cur_on_cons, hKind]
    exact bind_of_ok (floatLiteral_run s hNumber)
  case h_10 => cases hValue
  all_goals
    obtain rfl := Option.some.inj hValue
    simp only [expression, cur_bind, State.cur_on_cons, *]

/-- A unary operator is read with its operand. -/
theorem expression_unary (hKind : token.kind.isUnary = true) :
    expression (fuel + 1) level (s.on (token :: more)) =
      (expression fuel Precedence.unary.level >>= fun operand =>
        operators fuel level (.unary token token.literal operand)) (s.on more) := by
  have hKinds : token.kind = .bang ∨ token.kind = .minus ∨ token.kind = .bitXor := by
    simpa [TokenKind.isUnary, or_assoc] using hKind
  rcases hKinds with hKind | hKind | hKind <;>
    simp only [expression, cur_bind, State.cur_on_cons, hKind, advance_bind]

/-- An opening parenthesis starts a group. -/
theorem expression_group (hKind : token.kind = .lparen) :
    expression (fuel + 1) level (s.on (token :: more)) =
      (expression fuel Precedence.lowest.level >>= fun inner =>
        accept .rparen >>= fun closed =>
          operators fuel level (if closed then inner else .missing)) (s.on more) := by
  simp only [expression, cur_bind, State.cur_on_cons, hKind, advance_bind]

variable {left : Expr}

/-- The operators stop before what does not bind tighter. -/
theorem operators_stop (hLevel : (nextKind more).level ≤ level) :
    operators (fuel + 1) level left (s.on (token :: more)) =
      .ok left (s.on (token :: more)) := by
  have hPeek : (Precedence.ofKind (s.on (token :: more)).cursor.peek.kind).level ≤ level := by
    simpa [TokenKind.level] using hLevel
  rw [operators, peek_bind, if_pos hPeek, pure_run]

variable {op : Token}

/-- A binary operator that binds tighter takes the right operand. -/
theorem operators_binary (hBinary : op.kind.isBinary = true) (hLevel : level < op.kind.level) :
    operators (fuel + 1) level left (s.on (token :: op :: more)) =
      (expression fuel op.kind.level >>= fun right =>
        operators fuel level (.binary op left op.literal right)) (s.on more) := by
  have hTighter : ¬ (Precedence.ofKind op.kind).level ≤ level := Nat.not_le.mpr hLevel
  rw [operators, peek_bind, State.peek_on_cons_cons, if_neg hTighter, advance_bind]
  generalize op.kind = kind at hBinary ⊢
  cases kind <;> first | rfl | exact absurd hBinary (by decide)

/-- A bracket behind an expression opens the arguments of a call. -/
theorem operators_call (hKind : op.kind = .lparen) (hLevel : level < Precedence.call.level) :
    operators (fuel + 1) level left (s.on (token :: op :: more)) =
      (arguments fuel >>= fun args => operators fuel level (.call op left args))
        (s.on (op :: more)) := by
  have hTighter : ¬ (Precedence.ofKind op.kind).level ≤ level := by
    rw [hKind]
    exact Nat.not_le.mpr hLevel
  rw [operators, peek_bind, State.peek_on_cons_cons, if_neg hTighter, advance_bind]
  simp only [hKind]

/-- A square bracket behind an expression opens an index. -/
theorem operators_index (hKind : op.kind = .lbracket) (hLevel : level < Precedence.call.level) :
    operators (fuel + 1) level left (s.on (token :: op :: more)) =
      (expression fuel Precedence.lowest.level >>= fun position =>
        accept .rbracket >>= fun closed =>
          operators fuel level (if closed then .index op left position else .missing))
        (s.on more) := by
  have hTighter : ¬ (Precedence.ofKind op.kind).level ≤ level := by
    rw [hKind]
    exact Nat.not_le.mpr hLevel
  rw [operators, peek_bind, State.peek_on_cons_cons, if_neg hTighter, advance_bind]
  simp only [hKind, advance_bind]

/-- A dot behind an expression wants a name. -/
theorem operators_dot (hKind : op.kind = .dot) (hLevel : level < Precedence.dot.level) :
    operators (fuel + 1) level left (s.on (token :: op :: more)) =
      (accept .ident >>= fun named =>
        if named then curIdent >>= fun field => operators fuel level (.select op left field)
        else operators fuel level .missing) (s.on (op :: more)) := by
  have hTighter : ¬ (Precedence.ofKind op.kind).level ≤ level := by
    rw [hKind]
    exact Nat.not_le.mpr hLevel
  rw [operators, peek_bind, State.peek_on_cons_cons, if_neg hTighter, advance_bind]
  simp only [hKind]

/-- A dot and a name make a selector of what stands before. -/
theorem operators_select {field : Token} (hKind : op.kind = .dot)
    (hField : field.kind = .ident) (hLevel : level < Precedence.dot.level) :
    operators (fuel + 1) level left (s.on (token :: op :: field :: more)) =
      operators fuel level (.select op left (.ident field field.literal))
        (s.on (field :: more)) := by
  rw [operators_dot s hKind hLevel, accept_bind _ _ _ _ (by simpa using hField)]
  simp only [if_true, curIdent]
  rfl

/-- Brackets with nothing in them have no arguments. -/
theorem arguments_empty (hKind : nextKind more = .rparen) :
    arguments (fuel + 1) (s.on (token :: more)) = .ok [] (s.on more) := by
  rw [arguments, peekIs_bind, State.kind_peek_on_cons, if_pos (by simpa using hKind),
    advance_bind]
  rfl

/-- Arguments are expressions in front of a closing bracket. -/
theorem arguments_of_expressions {args : List Expr} {last : Token} {after : List Token}
    (hKind : nextKind more ≠ .rparen)
    (hArgs : expressions fuel (s.on more) = .ok args (s.on (last :: after)))
    (hClosed : nextKind after = .rparen) :
    arguments (fuel + 1) (s.on (token :: more)) = .ok args (s.on after) := by
  have hAttempt : attempt (expressions fuel) (s.on more) =
      .ok (some args) (s.on (last :: after)) := by
    simp [attempt, hArgs]
  rw [arguments, peekIs_bind, State.kind_peek_on_cons, if_neg (by simpa using hKind),
    advance_bind, bind_of_ok hAttempt]
  dsimp only
  rw [accept_bind _ _ _ _ hClosed]
  rfl

end Forwards

/-- What reading a phrase amounts to: once a levelled phrase was read, its tree is the left
operand of what follows. Each token of a phrase costs at most four units of fuel below it and
one along its left edge. -/
def Continues (phrase : ExprPhrase) : Prop :=
  ∀ (s : State) (fuel level : Nat) (more : List Token), phrase.Levelled TokenKind.level →
    phrase.BindsAbove TokenKind.level level →
    (nextKind more).level ≤ phrase.level TokenKind.level →
    4 * phrase.tokens.length ≤ fuel →
    ∃ fuel' last, fuel ≤ fuel' + phrase.tokens.length ∧
      expression fuel level (s.on (phrase.tokens ++ more)) =
        operators fuel' level phrase.tree (s.on (last :: more))

def ReadAsList (phrase : ExprsPhrase) : Prop :=
  ∀ (s : State) (fuel : Nat) (more : List Token), phrase.Levelled TokenKind.level →
    (nextKind more).level ≤ Precedence.lowest.level → nextKind more ≠ .comma →
    4 * phrase.tokens.length < fuel →
    ∃ last, expressions fuel (s.on (phrase.tokens ++ more)) =
      .ok phrase.trees (s.on (last :: more))

/-- A phrase is read as a whole where nothing that follows binds tighter. -/
theorem Continues.reads {phrase : ExprPhrase} (hPhrase : Continues phrase) (s : State)
    (fuel level : Nat) (more : List Token) (hLevelled : phrase.Levelled TokenKind.level)
    (hBinds : phrase.BindsAbove TokenKind.level level)
    (hNext : (nextKind more).level ≤ level) (hFuel : 4 * phrase.tokens.length ≤ fuel) :
    ∃ last, expression fuel level (s.on (phrase.tokens ++ more)) =
      .ok phrase.tree (s.on (last :: more)) := by
  have hPositive := phrase.length_tokens_pos
  obtain ⟨fuel', last, hSpent, hRun⟩ :=
    hPhrase s fuel level more hLevelled hBinds (Nat.le_trans hNext hBinds.le_level) hFuel
  obtain ⟨fuel', rfl⟩ : ∃ n, fuel' = n + 1 := ⟨fuel' - 1, by omega⟩
  exact ⟨last, hRun.trans (operators_stop s hNext)⟩

/-- An operand that is called, selected from or indexed may be followed by anything. -/
theorem Continues.primary {phrase : ExprPhrase} (hPhrase : Continues phrase) (s : State)
    (fuel level : Nat) (more : List Token) (hLevelled : phrase.Levelled TokenKind.level)
    (hPrimary : Precedence.call.level ≤ phrase.level TokenKind.level)
    (hLevel : level ≤ Precedence.unary.level) (hFuel : 4 * phrase.tokens.length ≤ fuel) :
    ∃ fuel' last, fuel ≤ fuel' + phrase.tokens.length ∧
      expression fuel level (s.on (phrase.tokens ++ more)) =
        operators fuel' level phrase.tree (s.on (last :: more)) :=
  hPhrase s fuel level more hLevelled (ExprPhrase.bindsAbove_of_primary hPrimary hLevel)
    (ExprPhrase.level_le_of_primary hPrimary _) hFuel

section Constructors

variable {inner left right : ExprPhrase} {args : ExprsPhrase}

/-- An operand is read and the operators behind it go on from there. -/
theorem continues_atom (token : Token) (value : Expr) (hValue : operand? token = some value) :
    Continues (.atom token value hValue) := by
  intro s fuel level more _ _ _ hFuel
  simp only [ExprPhrase.tokens, List.length_singleton] at hFuel ⊢
  obtain ⟨fuel, rfl⟩ : ∃ n, fuel = n + 1 := ⟨fuel - 1, by omega⟩
  exact ⟨fuel, token, Nat.le_refl _, expression_operand s hValue⟩

/-- A group is one operand, and nothing of its brackets stays in the tree. -/
theorem continues_group (opening : Mark .lparen) (closing : Mark .rparen)
    (hInner : Continues inner) : Continues (.group opening inner closing) := by
  intro s fuel level more hLevelled hBinds hNext hFuel
  simp only [ExprPhrase.tokens, List.length_cons, List.length_append, List.length_nil,
    List.cons_append, List.append_assoc, List.nil_append] at hFuel ⊢
  obtain ⟨fuel, rfl⟩ : ∃ n, fuel = n + 1 := ⟨fuel - 1, by omega⟩
  obtain ⟨last, hRun⟩ := hInner.reads s fuel _ (closing.val :: more) hLevelled
    inner.bindsAbove_lowest (by rw [nextKind_cons, closing.property]; decide) (by omega)
  refine ⟨fuel, closing.val, by omega, ?_⟩
  rw [expression_group s opening.property, bind_of_ok hRun,
    accept_bind _ _ _ _ (by exact closing.property)]
  rfl

/-- A unary operator takes what binds as tightly as it does. -/
theorem continues_unary (op : Token) (hOp : op.kind.isUnary = true) (hInner : Continues inner) :
    Continues (.unary op hOp inner) := by
  intro s fuel level more hLevelled hBinds hNext hFuel
  simp only [ExprPhrase.tokens, List.length_cons, List.cons_append] at hFuel ⊢
  obtain ⟨hOperand, hLevelled⟩ := hLevelled
  obtain ⟨fuel, rfl⟩ : ∃ n, fuel = n + 1 := ⟨fuel - 1, by omega⟩
  obtain ⟨last, hRun⟩ := hInner.reads s fuel Precedence.unary.level more hLevelled
    ⟨Nat.le_refl _, fun hBinary => absurd hOperand (Nat.not_le.mpr hBinary)⟩ hNext (by omega)
  refine ⟨fuel, last, by omega, ?_⟩
  rw [expression_unary s hOp, bind_of_ok hRun]
  rfl

/-- The left side is read first, and the right side up to the level of the operator. -/
theorem continues_binary (op : Token) (hOp : op.kind.isBinary = true) (hLeft : Continues left)
    (hRight : Continues right) : Continues (.binary left op hOp right) := by
  intro s fuel level more hLevelled hBinds hNext hFuel
  simp only [ExprPhrase.tokens, List.length_cons, List.length_append, List.append_assoc,
    List.cons_append] at hFuel ⊢
  obtain ⟨hLeftLevel, hRightLevel, hLeftLevelled, hRightLevelled⟩ := hLevelled
  have hUnary := TokenKind.level_lt_unary_of_isBinary hOp
  have hLevel : level < op.kind.level := hBinds.2 hUnary
  obtain ⟨fuel', last, hSpent, hRunLeft⟩ := hLeft s fuel level
    (op :: (right.tokens ++ more)) hLeftLevelled
    ⟨hBinds.1, fun _ => Nat.lt_of_lt_of_le hLevel hLeftLevel⟩ hLeftLevel (by omega)
  obtain ⟨fuel', rfl⟩ : ∃ n, fuel' = n + 1 := ⟨fuel' - 1, by omega⟩
  obtain ⟨last', hRunRight⟩ := hRight.reads s fuel' _ more hRightLevelled
    ⟨Nat.le_of_lt hUnary, fun _ => hRightLevel⟩ hNext (by omega)
  refine ⟨fuel', last', by omega, ?_⟩
  rw [hRunLeft, operators_binary s hOp hLevel]
  exact bind_of_ok hRunRight

/-- A call without arguments is read behind what is called. -/
theorem continues_callEmpty (opening : Mark .lparen) (closing : Mark .rparen)
    (hLeft : Continues left) : Continues (.callEmpty left opening closing) := by
  intro s fuel level more hLevelled hBinds hNext hFuel
  simp only [ExprPhrase.tokens, List.length_cons, List.length_append, List.length_nil,
    List.append_assoc, List.cons_append, List.nil_append] at hFuel ⊢
  obtain ⟨fuel', last, hSpent, hRun⟩ := hLeft.primary s fuel level
    (opening.val :: closing.val :: more) hLevelled.2 hLevelled.1 hBinds.1 (by omega)
  obtain ⟨fuel', rfl⟩ : ∃ n, fuel' = n + 2 := ⟨fuel' - 2, by omega⟩
  refine ⟨fuel' + 1, closing.val, by omega, ?_⟩
  rw [hRun, operators_call s opening.property hBinds.lt_call]
  exact bind_of_ok (arguments_empty s (by exact closing.property))

/-- A call is read with its arguments behind what is called. -/
theorem continues_call (opening : Mark .lparen) (closing : Mark .rparen)
    (hLeft : Continues left) (hArgs : ReadAsList args) :
    Continues (.call left opening args closing) := by
  intro s fuel level more hLevelled hBinds hNext hFuel
  simp only [ExprPhrase.tokens, List.length_cons, List.length_append, List.length_nil,
    List.append_assoc, List.cons_append, List.nil_append] at hFuel ⊢
  obtain ⟨hPrimary, hLeftLevelled, hArgsLevelled⟩ := hLevelled
  have hClosing : nextKind (closing.val :: more) = .rparen := closing.property
  obtain ⟨fuel', last, hSpent, hRun⟩ := hLeft.primary s fuel level
    (opening.val :: (args.tokens ++ closing.val :: more)) hLeftLevelled hPrimary hBinds.1
    (by omega)
  obtain ⟨fuel', rfl⟩ : ∃ n, fuel' = n + 2 := ⟨fuel' - 2, by omega⟩
  obtain ⟨last', hRunArgs⟩ := hArgs s fuel' _ hArgsLevelled
    (by rw [hClosing]; decide) (by rw [hClosing]; decide) (by omega)
  refine ⟨fuel' + 1, closing.val, by omega, ?_⟩
  rw [hRun, operators_call s opening.property hBinds.lt_call]
  exact bind_of_ok (arguments_of_expressions s (args.nextKind_ne (by decide) _) hRunArgs hClosing)

/-- A selector is read behind what it selects from. -/
theorem continues_select (dot : Mark .dot) (field : Mark .ident) (hLeft : Continues left) :
    Continues (.select left dot field) := by
  intro s fuel level more hLevelled hBinds hNext hFuel
  simp only [ExprPhrase.tokens, List.length_cons, List.length_append, List.length_nil,
    List.append_assoc, List.cons_append, List.nil_append] at hFuel ⊢
  obtain ⟨fuel', last, hSpent, hRun⟩ := hLeft.primary s fuel level
    (dot.val :: field.val :: more) hLevelled.2 hLevelled.1 hBinds.1 (by omega)
  obtain ⟨fuel', rfl⟩ : ∃ n, fuel' = n + 1 := ⟨fuel' - 1, by omega⟩
  refine ⟨fuel', field.val, by omega, ?_⟩
  rw [hRun]
  exact operators_select s dot.property field.property (Nat.lt_trans hBinds.lt_call (by decide))

/-- An index is read behind what it looks into. -/
theorem continues_index (opening : Mark .lbracket) (closing : Mark .rbracket)
    (hLeft : Continues left) (hInner : Continues inner) :
    Continues (.index left opening inner closing) := by
  intro s fuel level more hLevelled hBinds hNext hFuel
  simp only [ExprPhrase.tokens, List.length_cons, List.length_append, List.length_nil,
    List.append_assoc, List.cons_append, List.nil_append] at hFuel ⊢
  obtain ⟨hPrimary, hLeftLevelled, hInnerLevelled⟩ := hLevelled
  have hClosing : nextKind (closing.val :: more) = .rbracket := closing.property
  obtain ⟨fuel', last, hSpent, hRun⟩ := hLeft.primary s fuel level
    (opening.val :: (inner.tokens ++ closing.val :: more)) hLeftLevelled hPrimary hBinds.1
    (by omega)
  obtain ⟨fuel', rfl⟩ : ∃ n, fuel' = n + 1 := ⟨fuel' - 1, by omega⟩
  obtain ⟨last', hRunInner⟩ := hInner.reads s fuel' _ _ hInnerLevelled
    inner.bindsAbove_lowest (by rw [hClosing]; decide) (by omega)
  refine ⟨fuel', closing.val, by omega, ?_⟩
  rw [hRun, operators_index s opening.property hBinds.lt_call, bind_of_ok hRunInner]
  exact accept_bind _ _ _ _ hClosing

theorem readAsList_last (hInner : Continues inner) : ReadAsList (.last inner) := by
  intro s fuel more hLevelled hNext hComma hFuel
  simp only [ExprsPhrase.tokens] at hFuel ⊢
  obtain ⟨fuel, rfl⟩ : ∃ n, fuel = n + 1 := ⟨fuel - 1, by omega⟩
  obtain ⟨last, hRun⟩ := hInner.reads s fuel _ more hLevelled inner.bindsAbove_lowest hNext
    (by omega)
  refine ⟨last, ?_⟩
  rw [expressions, bind_of_ok hRun, if_neg (by simp [inner.isMissing_tree]), peekIs_bind,
    State.kind_peek_on_cons, if_neg (by simpa using hComma)]
  rfl

theorem readAsList_more (comma : Mark .comma) (hInner : Continues inner)
    (hArgs : ReadAsList args) : ReadAsList (.more inner comma args) := by
  intro s fuel more hLevelled hNext hComma hFuel
  simp only [ExprsPhrase.tokens, List.length_append, List.length_cons, List.append_assoc,
    List.cons_append] at hFuel ⊢
  have hKind : nextKind (comma.val :: (args.tokens ++ more)) = .comma := comma.property
  obtain ⟨fuel, rfl⟩ : ∃ n, fuel = n + 1 := ⟨fuel - 1, by omega⟩
  obtain ⟨last, hRun⟩ := hInner.reads s fuel _ _ hLevelled.1 inner.bindsAbove_lowest
    (by rw [hKind]; decide) (by omega)
  obtain ⟨last', hRest⟩ := hArgs s fuel more hLevelled.2 hNext hComma (by omega)
  refine ⟨last', ?_⟩
  rw [expressions, bind_of_ok hRun, if_neg (by simp [inner.isMissing_tree]), peekIs_bind,
    State.kind_peek_on_cons, if_pos (by simp [hKind]), advance_bind, advance_bind,
    bind_of_ok hRest]
  rfl

end Constructors

mutual

/-- Every levelled phrase is read. -/
theorem continues : (phrase : ExprPhrase) → Continues phrase
  | .atom token value hValue => continues_atom token value hValue
  | .group opening inner closing => continues_group opening closing (continues inner)
  | .unary op hOp operand => continues_unary op hOp (continues operand)
  | .binary left op hOp right => continues_binary op hOp (continues left) (continues right)
  | .callEmpty callee opening closing => continues_callEmpty opening closing (continues callee)
  | .call callee opening args closing =>
      continues_call opening closing (continues callee) (readAsList args)
  | .select left dot field => continues_select dot field (continues left)
  | .index left opening position closing =>
      continues_index opening closing (continues left) (continues position)

/-- Expressions between commas are read in their order. -/
theorem readAsList : (phrase : ExprsPhrase) → ReadAsList phrase
  | .last e => readAsList_last (continues e)
  | .more e comma rest => readAsList_more comma (continues e) (readAsList rest)

end

section Entries

variable (s : State) (more : List Token)

/-- A levelled phrase is read as an expression where nothing continues it. -/
theorem readExpr_run (phrase : ExprPhrase) (hLevelled : phrase.Levelled TokenKind.level)
    (hNext : (nextKind more).level ≤ Precedence.lowest.level) :
    ∃ last, readExpr (s.on (phrase.tokens ++ more)) =
      .ok phrase.tree (s.on (last :: more)) := by
  have hFuel : 4 * phrase.tokens.length ≤ exprFuel (phrase.tokens ++ more).length := by
    simp only [exprFuel, List.length_append]
    omega
  exact (continues phrase).reads s _ _ more hLevelled phrase.bindsAbove_lowest hNext hFuel

/-- An expression that is wanted is read up to a token that does not go on with it. -/
theorem requireExpr_run (phrase : ExprPhrase) (hLevelled : phrase.Levelled TokenKind.level)
    (hNext : (nextKind more).level ≤ Precedence.lowest.level) :
    ∃ last, requireExpr (s.on (phrase.tokens ++ more)) =
      .ok phrase.tree (s.on (last :: more)) := by
  obtain ⟨last, hRun⟩ := readExpr_run s more phrase hLevelled hNext
  refine ⟨last, ?_⟩
  rw [requireExpr, bind_of_ok hRun, if_neg (by simp [phrase.isMissing_tree])]
  rfl

/-- A list goes on as long as commas follow. -/
theorem readExprs_run (phrase : ExprsPhrase) (hLevelled : phrase.Levelled TokenKind.level)
    (hNext : (nextKind more).level ≤ Precedence.lowest.level) (hComma : nextKind more ≠ .comma) :
    ∃ last, readExprs (s.on (phrase.tokens ++ more)) =
      .ok phrase.trees (s.on (last :: more)) := by
  have hFuel : 4 * phrase.tokens.length < exprFuel (phrase.tokens ++ more).length := by
    simp only [exprFuel, List.length_append]
    omega
  exact readAsList phrase s _ more hLevelled hNext hComma hFuel

end Entries

/-! ### From runs to phrases -/

section Growth

variable {p : Halt → Prop}

instance : Reads p integerLiteral := .after fun _ => by split <;> infer_instance

instance : Reads p floatLiteral := .after fun _ => by split <;> infer_instance

variable [Allows p .outOfFuel]

/-- The four mutually recursive functions are put together from the elementary steps. -/
theorem reads_expression_aux (fuel : Nat) :
    (∀ level, Reads p (expression fuel level))
      ∧ (∀ level left, Reads p (operators fuel level left))
      ∧ Reads p (arguments fuel) ∧ Reads p (expressions fuel) := by
  induction fuel with
  | zero =>
      exact ⟨fun _ => reads_outOfFuel, fun _ _ => reads_outOfFuel, reads_outOfFuel,
        reads_outOfFuel⟩
  | succ fuel ih =>
      obtain ⟨_, _, _, _⟩ := ih
      refine ⟨fun level => .after fun token => ?_, fun level left => .after fun next => ?_,
        .after fun empty => ?_, ?_⟩
      · split <;> infer_instance
      · split
        · infer_instance
        · exact .after fun _ => by split <;> infer_instance
      · split
        · infer_instance
        · exact .after fun _ => .after fun args => by split <;> infer_instance
      · rw [expressions]
        infer_instance

instance (fuel level : Nat) : Reads p (expression fuel level) :=
  (reads_expression_aux fuel).1 level

instance (fuel level : Nat) (left : Expr) : Reads p (operators fuel level left) :=
  (reads_expression_aux fuel).2.1 level left

instance (fuel : Nat) : Reads p (arguments fuel) := (reads_expression_aux fuel).2.2.1

instance (fuel : Nat) : Reads p (expressions fuel) := (reads_expression_aux fuel).2.2.2

end Growth

section Loud

variable {s s' : State} {fuel level : Nat} {e : Expr}

/-- A report stays, whatever follows it. -/
theorem report_bind_loud {α : Type} {cause : Cause} {f : Unit → ParseM α} {a : α}
    [∀ u, Grows (f u)] (hRun : (report cause >>= f) s = .ok a s') : s'.reports ≠ s.reports := by
  intro hQuiet
  obtain ⟨_, middle, hReport, hMiddle, _⟩ := bind_quiet hRun hQuiet
  cases hReport
  exact absurd hMiddle (by simp)

/-- An integer whose value is refused is reported. -/
theorem integerLiteral_loud (hValue : Number.integerValue? s.cursor.cur.literal.toList = none)
    (hRun : integerLiteral s = .ok e s') : s'.reports ≠ s.reports := by
  rw [integerLiteral, cur_bind, hValue] at hRun
  exact report_bind_loud hRun

/-- A float whose value is refused is reported. -/
theorem floatLiteral_loud (hValue : Number.Binary64.ofLiteral? s.cursor.cur.literal.toList = none)
    (hRun : floatLiteral s = .ok e s') : s'.reports ≠ s.reports := by
  rw [floatLiteral, cur_bind, hValue] at hRun
  exact report_bind_loud hRun

/-- A token that starts no expression is reported, and nothing is read. -/
theorem expression_other (hKind : s.cursor.cur.kind ∉ TokenKind.exprStarts) :
    expression (fuel + 1) level s =
      (report (.noOperand s.cursor.cur.kind) >>= fun _ => pure .missing) s := by
  rw [expression, cur_bind]
  generalize s.cursor.cur.kind = kind at hKind ⊢
  cases kind <;> first | rfl | exact absurd (by decide) hKind

/-- A token that starts no expression is reported. -/
theorem expression_loud (hOperand : operand? s.cursor.cur = none)
    (hUnary : s.cursor.cur.kind.isUnary = false) (hGroup : s.cursor.cur.kind ≠ .lparen)
    (hRun : expression (fuel + 1) level s = .ok e s') : s'.reports ≠ s.reports := by
  intro hQuiet
  by_cases hInt : s.cursor.cur.kind = .int
  · simp only [operand?, hInt, Option.map_eq_none_iff] at hOperand
    simp only [expression, cur_bind, hInt] at hRun
    obtain ⟨_, middle, hNumber, hMiddle, _⟩ := bind_quiet hRun hQuiet
    exact integerLiteral_loud hOperand hNumber hMiddle
  by_cases hFloat : s.cursor.cur.kind = .float
  · simp only [operand?, hFloat, Option.map_eq_none_iff] at hOperand
    simp only [expression, cur_bind, hFloat] at hRun
    obtain ⟨_, middle, hNumber, hMiddle, _⟩ := bind_quiet hRun hQuiet
    exact floatLiteral_loud hOperand hNumber hMiddle
  have hKind : s.cursor.cur.kind ∉ TokenKind.exprStarts := by
    unfold operand? at hOperand
    revert hOperand hUnary hGroup hInt hFloat
    cases s.cursor.cur.kind <;> simp [TokenKind.exprStarts, TokenKind.isUnary]
  rw [expression_other hKind] at hRun
  exact report_bind_loud hRun hQuiet

end Loud

/-- What a quiet run of the expression parser on some tokens comes to: the tokens start with
a levelled phrase, the value is its tree, the run ends on its last token, and nothing that
follows binds tighter than the run was asked for. -/
def ReadsExpr (s : State) (level : Nat) (tokens : List Token) (e : Expr) (s' : State) : Prop :=
  ∃ (phrase : ExprPhrase) (last : Token) (more : List Token),
    tokens = phrase.tokens ++ more ∧ s' = s.on (last :: more) ∧ e = phrase.tree
      ∧ phrase.Levelled TokenKind.level ∧ phrase.BindsAbove TokenKind.level level
      ∧ (nextKind more).level ≤ level

def ReadsExprs (s : State) (tokens : List Token) (es : List Expr) (s' : State) : Prop :=
  ∃ (phrase : ExprsPhrase) (last : Token) (more : List Token),
    tokens = phrase.tokens ++ more ∧ s' = s.on (last :: more) ∧ es = phrase.trees
      ∧ phrase.Levelled TokenKind.level ∧ (nextKind more).level ≤ Precedence.lowest.level
      ∧ nextKind more ≠ .comma

/-- The same for the arguments of a call, from the opening parenthesis on. -/
def ReadsArguments (s : State) (tokens : List Token) (es : List Expr) (s' : State) : Prop :=
  (∃ (closing : Mark .rparen) (more : List Token),
    tokens = closing.val :: more ∧ es = [] ∧ s' = s.on (closing.val :: more)) ∨
  ∃ (phrase : ExprsPhrase) (closing : Mark .rparen) (more : List Token),
    tokens = phrase.tokens ++ closing.val :: more ∧ es = phrase.trees
      ∧ phrase.Levelled TokenKind.level ∧ s' = s.on (closing.val :: more)

/-- The levels that expressions are read at. -/
def IsReadLevel (level : Nat) : Prop :=
  Precedence.lowest.level ≤ level ∧ level ≤ Precedence.unary.level

section Soundness

def ExpressionSound (fuel : Nat) : Prop :=
  ∀ (s : State) (level : Nat) (tokens : List Token) (e : Expr) (s' : State), IsReadLevel level →
    expression fuel level (s.on tokens) = .ok e s' → s'.reports = s.reports →
    ReadsExpr s level tokens e s'

def OperatorsSound (fuel : Nat) : Prop :=
  ∀ (s : State) (level : Nat) (left : ExprPhrase) (token : Token) (tokens : List Token)
    (e : Expr) (s' : State), IsReadLevel level →
    left.Levelled TokenKind.level → left.BindsAbove TokenKind.level level →
    (nextKind tokens).level ≤ left.level TokenKind.level →
    operators fuel level left.tree (s.on (token :: tokens)) = .ok e s' →
    s'.reports = s.reports → ReadsExpr s level (left.tokens ++ tokens) e s'

def ArgumentsSound (fuel : Nat) : Prop :=
  ∀ (s : State) (token : Token) (tokens : List Token) (es : List Expr) (s' : State),
    arguments fuel (s.on (token :: tokens)) = .ok es s' → s'.reports = s.reports →
    ReadsArguments s tokens es s'

def ExpressionsSound (fuel : Nat) : Prop :=
  ∀ (s : State) (tokens : List Token) (es : List Expr) (s' : State),
    expressions fuel (s.on tokens) = .ok es s' → s'.reports = s.reports →
    ReadsExprs s tokens es s'

variable {fuel : Nat}

theorem isReadLevel_lowest : IsReadLevel Precedence.lowest.level := ⟨by decide, by decide⟩

theorem lowest_le_level (precedence : Precedence) :
    Precedence.lowest.level ≤ precedence.level := by
  cases precedence <;> decide

theorem call_le_dot : Precedence.call.level ≤ Precedence.dot.level := by decide

theorem isReadLevel_unary : IsReadLevel Precedence.unary.level := ⟨by decide, by decide⟩

/-- A phrase that is closed may be continued at every level. -/
theorem OperatorsSound.closed (hOps : OperatorsSound fuel) (phrase : ExprPhrase)
    {s s' : State} {level : Nat} {last : Token} {more : List Token} {e : Expr}
    (hClosed : phrase.level TokenKind.level = Precedence.dot.level)
    (hLevelled : phrase.Levelled TokenKind.level) (hLevel : IsReadLevel level)
    (hRun : operators fuel level phrase.tree (s.on (last :: more)) = .ok e s')
    (hQuiet : s'.reports = s.reports) : ReadsExpr s level (phrase.tokens ++ more) e s' :=
  hOps s level phrase last more e s' hLevel hLevelled
    (ExprPhrase.bindsAbove_of_primary (hClosed ▸ call_le_dot) hLevel.2)
    (hClosed ▸ TokenKind.level_le_dot _) hRun hQuiet

/-- What a round reads without a report is an operand and what its operators make of it. -/
theorem expressionSound_succ (hExpr : ExpressionSound fuel) (hOps : OperatorsSound fuel) :
    ExpressionSound (fuel + 1) := by
  intro s level tokens e s' hLevel hRun hQuiet
  cases tokens with
  | nil => exact absurd hQuiet (expression_loud (s := s.on []) rfl rfl nofun hRun)
  | cons token rest =>
    by_cases hUnary : token.kind.isUnary = true
    · rw [expression_unary s hUnary] at hRun
      obtain ⟨operand, middle, hOperand, hMiddle, hRest⟩ := bind_quiet hRun hQuiet
      obtain ⟨inner, last, more, rfl, rfl, rfl, hInner, hBinds, hNext⟩ :=
        hExpr s _ rest operand middle isReadLevel_unary hOperand hMiddle
      exact hOps s level (.unary token hUnary inner) last more e s' hLevel
        ⟨hBinds.le_level, hInner⟩ ⟨hLevel.2, fun hLt => absurd hLt (Nat.lt_irrefl _)⟩ hNext hRest
        hQuiet
    by_cases hGroup : token.kind = .lparen
    · rw [expression_group s hGroup] at hRun
      obtain ⟨inner, middle, hInnerRun, hMiddle, hRest⟩ := bind_quiet hRun hQuiet
      obtain ⟨inner, last, more, rfl, rfl, rfl, hInner, -, -⟩ :=
        hExpr s _ rest inner middle isReadLevel_lowest hInnerRun hMiddle
      obtain ⟨closed, middle, hAccept, hMiddle, hRest⟩ := bind_quiet hRest hQuiet
      obtain ⟨rfl, closing, more, rfl, rfl⟩ := accept_quiet hAccept hMiddle (by decide)
      have hReads := hOps.closed (.group ⟨token, hGroup⟩ inner closing) rfl hInner hLevel
        hRest hQuiet
      simpa [ExprPhrase.tokens] using hReads
    · cases hOperand : operand? token with
      | none =>
          exact absurd hQuiet (expression_loud (s := s.on (token :: rest)) hOperand
            (by simpa using hUnary) hGroup hRun)
      | some value =>
          rw [expression_operand s hOperand] at hRun
          exact hOps.closed (.atom token value hOperand) rfl trivial hLevel hRun hQuiet

theorem isReadLevel_of_isBinary {kind : TokenKind} (hBinary : kind.isBinary = true) :
    IsReadLevel kind.level :=
  ⟨Nat.le_of_lt (TokenKind.lowest_lt_level_of_isBinary hBinary),
    Nat.le_of_lt (TokenKind.level_lt_unary_of_isBinary hBinary)⟩

/-- A right operand binds tighter than the operator that it was read for. -/
theorem lt_level_of_bindsAbove {kind : TokenKind} {right : ExprPhrase}
    (hBinary : kind.isBinary = true) (hBinds : right.BindsAbove TokenKind.level kind.level) :
    kind.level < right.level TokenKind.level := by
  by_cases hRight : right.level TokenKind.level < Precedence.unary.level
  · exact hBinds.2 hRight
  · exact Nat.lt_of_lt_of_le (TokenKind.level_lt_unary_of_isBinary hBinary) (Nat.not_lt.mp hRight)

/-- What the operators make of an expression without a report is a phrase that binds above the
level. -/
theorem operatorsSound_succ (hExpr : ExpressionSound fuel) (hOps : OperatorsSound fuel)
    (hArgs : ArgumentsSound fuel) : OperatorsSound (fuel + 1) := by
  intro s level left token tokens e s' hLevel hLeft hBinds hNext hRun hQuiet
  by_cases hStop : (nextKind tokens).level ≤ level
  · rw [operators_stop s hStop] at hRun
    cases hRun
    exact ⟨left, token, tokens, rfl, rfl, rfl, hLeft, hBinds, hStop⟩
  have hTighter : level < (nextKind tokens).level := Nat.not_le.mp hStop
  cases tokens with
  | nil => exact absurd hTighter (Nat.not_lt.mpr hLevel.1)
  | cons op rest =>
    rw [nextKind_cons] at hNext hTighter
    rcases TokenKind.cases_of_lowest_lt_level (Nat.lt_of_le_of_lt hLevel.1 hTighter) with
      hBinary | hKind | hKind | hKind
    · rw [operators_binary s hBinary hTighter] at hRun
      obtain ⟨right, middle, hRightRun, hMiddle, hRest⟩ := bind_quiet hRun hQuiet
      obtain ⟨right, last, more, rfl, rfl, rfl, hRight, hRightBinds, hAfter⟩ :=
        hExpr s _ rest right middle (isReadLevel_of_isBinary hBinary) hRightRun hMiddle
      have hReads := hOps s level (.binary left op hBinary right) last more e s' hLevel
        ⟨hNext, lt_level_of_bindsAbove hBinary hRightBinds, hLeft, hRight⟩
        ⟨hLevel.2, fun _ => hTighter⟩ hAfter hRest hQuiet
      simpa [ExprPhrase.tokens] using hReads
    · rw [operators_call s hKind hBinds.lt_call] at hRun
      obtain ⟨args, middle, hArgsRun, hMiddle, hRest⟩ := bind_quiet hRun hQuiet
      rcases hArgs s op rest args middle hArgsRun hMiddle with
        ⟨closing, more, rfl, rfl, rfl⟩ | ⟨args, closing, more, rfl, rfl, hArgsLevelled, rfl⟩
      · have hReads := hOps.closed (.callEmpty left ⟨op, hKind⟩ closing) rfl
          ⟨by rw [hKind] at hNext; exact hNext, hLeft⟩ hLevel hRest hQuiet
        simpa [ExprPhrase.tokens] using hReads
      · have hReads := hOps.closed (.call left ⟨op, hKind⟩ args closing) rfl
          ⟨by rw [hKind] at hNext; exact hNext, hLeft, hArgsLevelled⟩ hLevel hRest hQuiet
        simpa [ExprPhrase.tokens] using hReads
    · rw [operators_index s hKind hBinds.lt_call] at hRun
      obtain ⟨position, middle, hPositionRun, hMiddle, hRest⟩ := bind_quiet hRun hQuiet
      obtain ⟨position, last, more, rfl, rfl, rfl, hPosition, -, -⟩ :=
        hExpr s _ rest position middle isReadLevel_lowest hPositionRun hMiddle
      obtain ⟨closed, middle, hAccept, hMiddle, hRest⟩ := bind_quiet hRest hQuiet
      obtain ⟨rfl, closing, more, rfl, rfl⟩ := accept_quiet hAccept hMiddle (by decide)
      have hReads := hOps.closed (.index left ⟨op, hKind⟩ position closing) rfl
        ⟨by rw [hKind] at hNext; exact hNext, hLeft, hPosition⟩ hLevel hRest hQuiet
      simpa [ExprPhrase.tokens] using hReads
    · rw [operators_dot s hKind (Nat.lt_trans hBinds.lt_call (by decide))] at hRun
      obtain ⟨named, middle, hAccept, hMiddle, hRest⟩ := bind_quiet hRun hQuiet
      obtain ⟨rfl, field, more, rfl, rfl⟩ := accept_quiet hAccept hMiddle (by decide)
      have hReads := hOps.closed (.select left ⟨op, hKind⟩ field) rfl
        ⟨Nat.le_trans call_le_dot (by rw [hKind] at hNext; exact hNext), hLeft⟩ hLevel hRest hQuiet
      simpa [ExprPhrase.tokens] using hReads

/-- A hole is never read without a report. -/
theorem ReadsExpr.isMissing {s s' : State} {level : Nat} {tokens : List Token} {e : Expr}
    (hReads : ReadsExpr s level tokens e s') : e.isMissing = false := by
  obtain ⟨phrase, _, _, -, -, rfl, -⟩ := hReads
  exact phrase.isMissing_tree

/-- What is read as a list without a report is a phrase of expressions between commas. -/
theorem expressionsSound_succ (hExpr : ExpressionSound fuel) (hExprs : ExpressionsSound fuel) :
    ExpressionsSound (fuel + 1) := by
  intro s tokens es s' hRun hQuiet
  rw [expressions] at hRun
  obtain ⟨first, middle, hFirstRun, hMiddle, hRest⟩ := bind_quiet hRun hQuiet
  have hReads := hExpr s _ tokens first middle isReadLevel_lowest hFirstRun hMiddle
  rw [if_neg (by simp [hReads.isMissing])] at hRest
  obtain ⟨first, last, more, rfl, rfl, rfl, hFirst, -, hNext⟩ := hReads
  rw [peekIs_bind, State.kind_peek_on_cons] at hRest
  by_cases hComma : nextKind more = .comma
  · obtain ⟨comma, more, rfl⟩ := exists_mark_of_nextKind hComma (by decide)
    rw [if_pos (by simpa using hComma), advance_bind, advance_bind] at hRest
    obtain ⟨others, middle, hOthersRun, hMiddle, hRest⟩ := bind_quiet hRest hQuiet
    obtain ⟨others, last, more, rfl, rfl, rfl, hOthers, hNext, hAfter⟩ :=
      hExprs s more others middle hOthersRun hMiddle
    cases hRest
    exact ⟨.more first comma others, last, more, by simp [ExprsPhrase.tokens], rfl, rfl,
      ⟨hFirst, hOthers⟩, hNext, hAfter⟩
  · rw [if_neg (by simpa using hComma)] at hRest
    cases hRest
    exact ⟨.last first, last, more, rfl, rfl, rfl, hFirst, hNext, hComma⟩

/-- Brackets that were read without a report hold nothing or a list. -/
theorem argumentsSound_succ [Explains (expressions fuel)] (hExprs : ExpressionsSound fuel) :
    ArgumentsSound (fuel + 1) := by
  intro s token tokens es s' hRun hQuiet
  rw [arguments, peekIs_bind, State.kind_peek_on_cons] at hRun
  by_cases hEmpty : nextKind tokens = .rparen
  · obtain ⟨closing, more, rfl⟩ := exists_mark_of_nextKind hEmpty (by decide)
    rw [if_pos (by simpa using hEmpty), advance_bind] at hRun
    cases hRun
    exact Or.inl ⟨closing, more, rfl, rfl, rfl⟩
  · rw [if_neg (by simpa using hEmpty), advance_bind] at hRun
    obtain ⟨args, middle, hAttempt, hMiddle, hRest⟩ := bind_quiet_of hRun hQuiet fun args => by
      cases args <;> infer_instance
    obtain ⟨args, rfl, hArgs⟩ := attempt_quiet hAttempt hMiddle
    obtain ⟨args, last, more, rfl, rfl, rfl, hLevelled, -, -⟩ :=
      hExprs s tokens args middle hArgs hMiddle
    obtain ⟨closed, middle, hAccept, hMiddle, hRest⟩ := bind_quiet hRest hQuiet
    obtain ⟨rfl, closing, more, rfl, rfl⟩ := accept_quiet hAccept hMiddle (by decide)
    cases hRest
    exact Or.inr ⟨args, closing, more, rfl, rfl, hLevelled, rfl⟩

/-- A list of expressions is abandoned only at a hole, and a hole has its report. -/
theorem explains_expressions_succ (hExpr : ExpressionSound fuel)
    [Explains (expression fuel Precedence.lowest.level)] [Explains (expressions fuel)] :
    Explains (expressions (fuel + 1)) := by
  rw [expressions]
  refine Explains.bind_of_quiet fun s first s' hRun hQuiet => ?_
  have hReads := hExpr s _ _ first s' isReadLevel_lowest hRun hQuiet
  rw [if_neg (by simp [hReads.isMissing])]
  infer_instance

instance : Explains integerLiteral :=
  Explains.bind inferInstance fun _ => by split <;> infer_instance

instance : Explains floatLiteral :=
  Explains.bind inferInstance fun _ => by split <;> infer_instance

/-- Within an expression nothing is abandoned. -/
theorem explains_expression_aux (fuel : Nat) :
    (∀ level, Explains (expression fuel level))
      ∧ (∀ level left, Explains (operators fuel level left)) ∧ Explains (arguments fuel) := by
  induction fuel with
  | zero =>
      exact ⟨fun _ => explains_outOfFuel, fun _ _ => explains_outOfFuel, explains_outOfFuel⟩
  | succ fuel ih =>
      obtain ⟨_, _, _⟩ := ih
      refine ⟨fun level => ?_, fun level left => ?_, ?_⟩
      · exact Explains.bind inferInstance fun token => by split <;> infer_instance
      · refine Explains.bind inferInstance fun next => ?_
        split
        · infer_instance
        · exact Explains.bind inferInstance fun _ => by split <;> infer_instance
      · refine Explains.bind inferInstance fun empty => ?_
        split
        · infer_instance
        · refine Explains.bind inferInstance fun _ => Explains.bind inferInstance fun args => ?_
          split <;> infer_instance

instance (fuel level : Nat) : Explains (expression fuel level) :=
  (explains_expression_aux fuel).1 level

/-- All readers of expressions are sound, by induction on the fuel they share. -/
theorem sound_aux (fuel : Nat) :
    ExpressionSound fuel ∧ OperatorsSound fuel ∧ ArgumentsSound fuel ∧ ExpressionsSound fuel
      ∧ Explains (expressions fuel) := by
  induction fuel with
  | zero =>
      exact ⟨by rintro _ _ _ _ _ _ ⟨⟩, by rintro _ _ _ _ _ _ _ _ _ _ _ ⟨⟩,
        by rintro _ _ _ _ _ ⟨⟩, by rintro _ _ _ _ ⟨⟩, explains_outOfFuel⟩
  | succ fuel ih =>
      obtain ⟨hExpr, hOps, hArgs, hExprs, hExplains⟩ := ih
      exact ⟨expressionSound_succ hExpr hOps, operatorsSound_succ hExpr hOps hArgs,
        argumentsSound_succ hExprs, expressionsSound_succ hExpr hExprs,
        explains_expressions_succ hExpr⟩

instance (fuel : Nat) : Explains (expressions fuel) := (sound_aux fuel).2.2.2.2

instance : Explains readExpr := by
  unfold readExpr
  infer_instance

instance : Explains readExprs := by
  unfold readExprs
  infer_instance

/-- What is read as an expression without a report is a levelled phrase. -/
theorem readExpr_quiet {s s' : State} {tokens : List Token} {e : Expr}
    (hRun : readExpr (s.on tokens) = .ok e s') (hQuiet : s'.reports = s.reports) :
    ReadsExpr s Precedence.lowest.level tokens e s' :=
  (sound_aux _).1 s _ tokens e s' isReadLevel_lowest hRun hQuiet

/-- A list that is read without a report is the list of a phrase. -/
theorem readExprs_quiet {s s' : State} {tokens : List Token} {es : List Expr}
    (hRun : readExprs (s.on tokens) = .ok es s') (hQuiet : s'.reports = s.reports) :
    ReadsExprs s tokens es s' :=
  (sound_aux _).2.2.2.1 s tokens es s' hRun hQuiet

instance : Explains requireExpr := by
  refine Explains.bind_of_quiet fun s e s' hRun hQuiet => ?_
  have hReads : ReadsExpr s _ s.cursor.rest e s' := readExpr_quiet hRun hQuiet
  rw [if_neg (by simp [hReads.isMissing])]
  infer_instance

/-- An expression that is read without a report is the tree of a phrase. -/
theorem requireExpr_quiet {s s' : State} {tokens : List Token} {e : Expr}
    (hRun : requireExpr (s.on tokens) = .ok e s') (hQuiet : s'.reports = s.reports) :
    ReadsExpr s Precedence.lowest.level tokens e s' := by
  rw [requireExpr] at hRun
  obtain ⟨e, middle, hRead, hMiddle, hRest⟩ := bind_quiet hRun hQuiet
  have hReads := readExpr_quiet hRead hMiddle
  rw [if_neg (by simp [hReads.isMissing])] at hRest
  cases hRest
  exact hReads

end Soundness

end TryGo.Parse
