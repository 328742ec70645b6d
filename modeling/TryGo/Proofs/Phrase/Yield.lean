import TryGo.Proofs.Phrase.Expr

/-! The tokens of an expression against its tree. Without the parentheses that only group, the
tokens of a phrase are those of its tree, read from left to right. Which parentheses these are can
be told from the tokens alone: a parenthesis behind an operand opens a call, and every other one
groups. -/
namespace TryGo

/-- A token as far as a tree knows it. A tree does not keep its commas and closing brackets. -/
inductive Sign where
  | token (token : Token)
  | mark (kind : TokenKind)
deriving DecidableEq

/-- The kinds of the tokens that a tree does not keep. -/
def TokenKind.unkept : List TokenKind := [.comma, .rparen, .rbracket]

def Token.sign (token : Token) : Sign :=
  if token.kind ∈ TokenKind.unkept then .mark token.kind else .token token

mutual

/-- The tokens of an expression in the order in which they are written. -/
def Expr.yield : Expr → List Sign
  | .missing | .foreign _ _ _ => []
  | .ident token _ | .int token _ | .float token _ | .str token _ _ | .char token _
  | .bool token _ | .nil token => [.token token]
  | .unary token _ operand => .token token :: operand.yield
  | .binary token left _ right => left.yield ++ .token token :: right.yield
  | .call token callee args =>
      callee.yield ++ .token token :: (Expr.yieldAll args ++ [.mark .rparen])
  | .select token left field => left.yield ++ .token token :: field.yield
  | .index token left position =>
      left.yield ++ .token token :: (position.yield ++ [.mark .rbracket])

def Expr.yieldAll : List Expr → List Sign
  | [] => []
  | [e] => e.yield
  | e :: other :: others => e.yield ++ .mark .comma :: Expr.yieldAll (other :: others)

end

/-! ### Grouping parentheses -/

/-- The kinds that end an operand. A parenthesis behind one of them opens a call. -/
def TokenKind.operandEnds : List TokenKind :=
  [.ident, .int, .float, .string, .rawString, .char, .kwTrue, .kwFalse, .kwNil, .rparen,
   .rbracket]

/-- The tokens without the parentheses that group. Of every parenthesis that is open it is known
whether it groups, the innermost first, and whether an operand has just ended. -/
def ungroupFrom : List Bool → Bool → List Token → List Token
  | _, _, [] => []
  | opened, ended, token :: rest =>
      if token.kind = .lparen then
        if ended then token :: ungroupFrom (false :: opened) false rest
        else ungroupFrom (true :: opened) false rest
      else if token.kind = .rparen then
        if opened.headD false then ungroupFrom opened.tail true rest
        else token :: ungroupFrom opened.tail true rest
      else token :: ungroupFrom opened (TokenKind.operandEnds.contains token.kind) rest

def ungroup (tokens : List Token) : List Token := ungroupFrom [] false tokens

mutual

/-- The tokens of a phrase without its grouping parentheses. -/
def ExprPhrase.bareTokens : ExprPhrase → List Token
  | .atom token _ _ => [token]
  | .group _ inner _ => inner.bareTokens
  | .unary op _ operand => op :: operand.bareTokens
  | .binary left op _ right => left.bareTokens ++ op :: right.bareTokens
  | .callEmpty callee opening closing => callee.bareTokens ++ [opening.val, closing.val]
  | .call callee opening args closing =>
      callee.bareTokens ++ opening.val :: (args.bareTokens ++ [closing.val])
  | .select left dot field => left.bareTokens ++ [dot.val, field.val]
  | .index left opening position closing =>
      left.bareTokens ++ opening.val :: (position.bareTokens ++ [closing.val])

def ExprsPhrase.bareTokens : ExprsPhrase → List Token
  | .last e => e.bareTokens
  | .more e comma rest => e.bareTokens ++ comma.val :: rest.bareTokens

end

section Ungrouping

variable (opened : List Bool) (ended : Bool) (rest : List Token)

/-- A bracket behind an operand opens a call and stays. -/
theorem ungroupFrom_call (opening : Mark .lparen) :
    ungroupFrom opened true (opening.val :: rest) =
      opening.val :: ungroupFrom (false :: opened) false rest := by
  rw [ungroupFrom, if_pos opening.property, if_pos rfl]

/-- A bracket in any other place opens a group and goes. -/
theorem ungroupFrom_group (opening : Mark .lparen) :
    ungroupFrom opened false (opening.val :: rest) = ungroupFrom (true :: opened) false rest := by
  rw [ungroupFrom, if_pos opening.property, if_neg Bool.false_ne_true]

/-- A closing parenthesis stays if its opening one did. -/
theorem ungroupFrom_closing (groups : Bool) (closing : Mark .rparen) :
    ungroupFrom (groups :: opened) ended (closing.val :: rest) =
      (if groups then [] else [closing.val]) ++ ungroupFrom opened true rest := by
  rw [ungroupFrom, if_neg (by rw [closing.property]; decide), if_pos closing.property]
  cases groups <;> rfl

/-- Every other token stays. -/
theorem ungroupFrom_other {token : Token} (hOpening : token.kind ≠ .lparen)
    (hClosing : token.kind ≠ .rparen) :
    ungroupFrom opened ended (token :: rest) =
      token :: ungroupFrom opened (TokenKind.operandEnds.contains token.kind) rest := by
  rw [ungroupFrom, if_neg hOpening, if_neg hClosing]

theorem ungroupFrom_mark {kind : TokenKind} (mark : Mark kind) (hOpening : kind ≠ .lparen)
    (hClosing : kind ≠ .rparen) :
    ungroupFrom opened ended (mark.val :: rest) =
      mark.val :: ungroupFrom opened (TokenKind.operandEnds.contains kind) rest := by
  obtain ⟨token, rfl⟩ := mark
  exact ungroupFrom_other opened ended rest hOpening hClosing

/-- An operand stays and ends an operand. -/
theorem ungroupFrom_operand {token : Token} {value : Expr}
    (hValue : operand? token = some value) :
    ungroupFrom opened ended (token :: rest) = token :: ungroupFrom opened true rest := by
  have hKind : token.kind ∈ TokenKind.operandEnds ∧ token.kind ≠ .lparen
      ∧ token.kind ≠ .rparen := by
    unfold operand? at hValue
    split at hValue
    case h_10 => cases hValue
    all_goals simp_all [TokenKind.operandEnds]
  rw [ungroupFrom_other opened ended rest hKind.2.1 hKind.2.2,
    List.contains_iff_mem.mpr hKind.1]

/-- No operator is a parenthesis, and none ends an operand. -/
theorem ungroupFrom_operator {op : Token}
    (hOp : op.kind.isUnary = true ∨ op.kind.isBinary = true) :
    ungroupFrom opened ended (op :: rest) = op :: ungroupFrom opened false rest := by
  have hKind : op.kind ≠ .lparen ∧ op.kind ≠ .rparen
      ∧ TokenKind.operandEnds.contains op.kind = false := by
    revert hOp
    cases op.kind <;> decide
  rw [ungroupFrom_other opened ended rest hKind.1 hKind.2.1, hKind.2.2]

mutual

/-- A phrase starts where an operand is wanted, and behind it one has ended. In between the open
parentheses are those of the phrase, so what was open before does not matter. -/
theorem ExprPhrase.ungroupFrom_tokens (opened : List Bool) :
    (phrase : ExprPhrase) → (rest : List Token) →
      ungroupFrom opened false (phrase.tokens ++ rest) =
        phrase.bareTokens ++ ungroupFrom opened true rest
  | .atom token value hValue, rest => by
      rw [ExprPhrase.tokens, ExprPhrase.bareTokens]
      rw [List.singleton_append, ungroupFrom_operand opened false rest hValue]
      rfl
  | .group opening inner closing, rest => by
      rw [ExprPhrase.tokens, ExprPhrase.bareTokens]
      rw [List.cons_append, List.append_assoc, List.singleton_append,
        ungroupFrom_group, inner.ungroupFrom_tokens (true :: opened),
        ungroupFrom_closing]
      rfl
  | .unary op hOp operand, rest => by
      rw [ExprPhrase.tokens, ExprPhrase.bareTokens]
      rw [List.cons_append, ungroupFrom_operator opened false _ (.inl hOp),
        operand.ungroupFrom_tokens opened]
      rfl
  | .binary left op hOp right, rest => by
      rw [ExprPhrase.tokens, ExprPhrase.bareTokens]
      rw [List.append_assoc, List.cons_append,
        left.ungroupFrom_tokens opened, ungroupFrom_operator opened true _ (.inr hOp),
        right.ungroupFrom_tokens opened, List.append_assoc, List.cons_append]
  | .callEmpty callee opening closing, rest => by
      rw [ExprPhrase.tokens, ExprPhrase.bareTokens]
      rw [List.append_assoc, List.cons_append, List.singleton_append,
        callee.ungroupFrom_tokens opened, ungroupFrom_call, ungroupFrom_closing,
        List.append_assoc]
      rfl
  | .call callee opening args closing, rest => by
      rw [ExprPhrase.tokens, ExprPhrase.bareTokens]
      rw [List.append_assoc, List.cons_append, List.append_assoc,
        List.singleton_append, callee.ungroupFrom_tokens opened, ungroupFrom_call,
        args.ungroupFrom_tokens (false :: opened), ungroupFrom_closing, List.append_assoc,
        List.cons_append, List.append_assoc]
      rfl
  | .select left dot field, rest => by
      rw [ExprPhrase.tokens, ExprPhrase.bareTokens]
      rw [List.append_assoc, List.cons_append, List.singleton_append,
        left.ungroupFrom_tokens opened, ungroupFrom_mark _ _ _ dot (by decide) (by decide),
        ungroupFrom_mark _ _ _ field (by decide) (by decide), List.append_assoc]
      rfl
  | .index left opening position closing, rest => by
      rw [ExprPhrase.tokens, ExprPhrase.bareTokens]
      rw [List.append_assoc, List.cons_append, List.append_assoc,
        List.singleton_append, left.ungroupFrom_tokens opened,
        ungroupFrom_mark _ _ _ opening (by decide) (by decide)]
      have hPosition := position.ungroupFrom_tokens opened (closing.val :: rest)
      rw [show TokenKind.operandEnds.contains .lbracket = false from rfl, hPosition,
        ungroupFrom_mark _ _ _ closing (by decide) (by decide), List.append_assoc,
        List.cons_append, List.append_assoc]
      rfl

theorem ExprsPhrase.ungroupFrom_tokens (opened : List Bool) :
    (phrase : ExprsPhrase) → (rest : List Token) →
      ungroupFrom opened false (phrase.tokens ++ rest) =
        phrase.bareTokens ++ ungroupFrom opened true rest
  | .last e, rest => e.ungroupFrom_tokens opened rest
  | .more e comma others, rest => by
      rw [ExprsPhrase.tokens, ExprsPhrase.bareTokens, List.append_assoc, List.cons_append,
        e.ungroupFrom_tokens opened, ungroupFrom_mark _ _ _ comma (by decide) (by decide)]
      have hOthers := others.ungroupFrom_tokens opened rest
      rw [show TokenKind.operandEnds.contains .comma = false from rfl, hOthers, List.append_assoc,
        List.cons_append]

end

end Ungrouping

/-- Taken on its own, a phrase loses exactly its grouping parentheses. -/
theorem ExprPhrase.ungroup_tokens (phrase : ExprPhrase) :
    ungroup phrase.tokens = phrase.bareTokens := by
  have hTokens := phrase.ungroupFrom_tokens [] []
  rw [List.append_nil, ungroupFrom, List.append_nil] at hTokens
  exact hTokens

/-! ### What the tree keeps -/

/-- A mark that no tree keeps has nothing but its kind for a sign. -/
theorem Mark.sign_unkept {kind : TokenKind} (mark : Mark kind) (hKind : kind ∈ TokenKind.unkept) :
    mark.val.sign = .mark kind := by
  rw [Token.sign, if_pos (by rw [mark.property]; exact hKind), mark.property]

/-- A token that a tree keeps is its own sign. -/
theorem Token.sign_kept {token : Token} (hKind : token.kind ∉ TokenKind.unkept) :
    token.sign = .token token := if_neg hKind

theorem Mark.sign_kept {kind : TokenKind} (mark : Mark kind) (hKind : kind ∉ TokenKind.unkept) :
    mark.val.sign = .token mark.val :=
  Token.sign_kept (by rw [mark.property]; exact hKind)

theorem Token.sign_operator {op : Token}
    (hOp : op.kind.isUnary = true ∨ op.kind.isBinary = true) :
    op.sign = .token op := by
  refine Token.sign_kept ?_
  revert hOp
  cases op.kind <;> decide

/-- The yield of an operand is its sign. -/
theorem yield_operand {token : Token} {value : Expr} (hValue : operand? token = some value) :
    value.yield = [token.sign] := by
  unfold operand? at hValue
  split at hValue <;> simp only [Option.map_eq_some_iff, Option.some.injEq, reduceCtorEq] at hValue
  all_goals
    rw [Token.sign_kept (by simp_all [TokenKind.unkept])]
    first
      | (subst hValue; rfl)
      | (obtain ⟨_, _, rfl⟩ := hValue; rfl)

theorem ExprsPhrase.yieldAll_cons (e : Expr) (rest : ExprsPhrase) :
    Expr.yieldAll (e :: rest.trees) = e.yield ++ .mark .comma :: Expr.yieldAll rest.trees := by
  cases rest <;> rfl

mutual

/-- The tree of a phrase keeps every token but grouping parentheses, in order. -/
theorem ExprPhrase.map_sign_bareTokens :
    (phrase : ExprPhrase) → phrase.bareTokens.map Token.sign = phrase.tree.yield
  | .atom token value hValue => (yield_operand hValue).symm
  | .group opening inner closing => inner.map_sign_bareTokens
  | .unary op hOp operand => by
      rw [ExprPhrase.bareTokens, ExprPhrase.tree, Expr.yield]
      rw [List.map_cons, Token.sign_operator (.inl hOp),
        operand.map_sign_bareTokens]
  | .binary left op hOp right => by
      rw [ExprPhrase.bareTokens, ExprPhrase.tree, Expr.yield]
      rw [List.map_append, List.map_cons,
        Token.sign_operator (.inr hOp), left.map_sign_bareTokens, right.map_sign_bareTokens]
  | .callEmpty callee opening closing => by
      rw [ExprPhrase.bareTokens, ExprPhrase.tree, Expr.yield]
      rw [List.map_append, callee.map_sign_bareTokens, List.map_cons,
        List.map_singleton, opening.sign_kept (by decide), closing.sign_unkept (by decide)]
      rfl
  | .call callee opening args closing => by
      rw [ExprPhrase.bareTokens, ExprPhrase.tree, Expr.yield]
      rw [List.map_append, callee.map_sign_bareTokens, List.map_cons,
        List.map_append, args.map_sign_bareTokens, List.map_singleton,
        opening.sign_kept (by decide), closing.sign_unkept (by decide)]
  | .select left dot field => by
      rw [ExprPhrase.bareTokens, ExprPhrase.tree, Expr.yield]
      rw [List.map_append, left.map_sign_bareTokens, List.map_cons,
        List.map_singleton, dot.sign_kept (by decide), field.sign_kept (by decide)]
      rfl
  | .index left opening position closing => by
      rw [ExprPhrase.bareTokens, ExprPhrase.tree, Expr.yield]
      rw [List.map_append, left.map_sign_bareTokens, List.map_cons,
        List.map_append, position.map_sign_bareTokens, List.map_singleton,
        opening.sign_kept (by decide), closing.sign_unkept (by decide)]

/-- The signs of a list without its groups are the yield of its trees. -/
theorem ExprsPhrase.map_sign_bareTokens :
    (phrase : ExprsPhrase) → phrase.bareTokens.map Token.sign = Expr.yieldAll phrase.trees
  | .last e => e.map_sign_bareTokens
  | .more e comma rest => by
      rw [ExprsPhrase.bareTokens, ExprsPhrase.trees, ExprsPhrase.yieldAll_cons]
      rw [List.map_append, List.map_cons,
        e.map_sign_bareTokens, rest.map_sign_bareTokens, comma.sign_unkept (by decide)]

end

/-! ### How operators nest -/

mutual

def ExprPhrase.parts : ExprPhrase → List ExprPhrase
  | .atom token value hValue => [.atom token value hValue]
  | .group opening inner closing => .group opening inner closing :: inner.parts
  | .unary op hOp operand => .unary op hOp operand :: operand.parts
  | .binary left op hOp right => .binary left op hOp right :: (left.parts ++ right.parts)
  | .callEmpty callee opening closing => .callEmpty callee opening closing :: callee.parts
  | .call callee opening args closing =>
      .call callee opening args closing :: (callee.parts ++ args.parts)
  | .select left dot field => .select left dot field :: left.parts
  | .index left opening position closing =>
      .index left opening position closing :: (left.parts ++ position.parts)

def ExprsPhrase.parts : ExprsPhrase → List ExprPhrase
  | .last e => e.parts
  | .more e _ rest => e.parts ++ rest.parts

end

mutual

/-- What is levelled as a whole is levelled in all its parts. -/
theorem ExprPhrase.levelled_parts {table : TokenKind → Nat} :
    (phrase : ExprPhrase) → phrase.Levelled table → ∀ part ∈ phrase.parts, part.Levelled table
  | .atom _ _ _, hLevelled => List.forall_mem_singleton.mpr hLevelled
  | .group _ inner _, hLevelled =>
      List.forall_mem_cons.mpr ⟨hLevelled, inner.levelled_parts hLevelled⟩
  | .unary _ _ operand, hLevelled =>
      List.forall_mem_cons.mpr ⟨hLevelled, operand.levelled_parts hLevelled.2⟩
  | .binary left _ _ right, hLevelled =>
      List.forall_mem_cons.mpr ⟨hLevelled, List.forall_mem_append.mpr
        ⟨left.levelled_parts hLevelled.2.2.1, right.levelled_parts hLevelled.2.2.2⟩⟩
  | .callEmpty callee _ _, hLevelled =>
      List.forall_mem_cons.mpr ⟨hLevelled, callee.levelled_parts hLevelled.2⟩
  | .call callee _ args _, hLevelled =>
      List.forall_mem_cons.mpr ⟨hLevelled, List.forall_mem_append.mpr
        ⟨callee.levelled_parts hLevelled.2.1, args.levelled_parts hLevelled.2.2⟩⟩
  | .select left _ _, hLevelled =>
      List.forall_mem_cons.mpr ⟨hLevelled, left.levelled_parts hLevelled.2⟩
  | .index left _ position _, hLevelled =>
      List.forall_mem_cons.mpr ⟨hLevelled, List.forall_mem_append.mpr
        ⟨left.levelled_parts hLevelled.2.1, position.levelled_parts hLevelled.2.2⟩⟩

theorem ExprsPhrase.levelled_parts {table : TokenKind → Nat} :
    (phrase : ExprsPhrase) → phrase.Levelled table → ∀ part ∈ phrase.parts, part.Levelled table
  | .last e, hLevelled => e.levelled_parts hLevelled
  | .more e _ rest, hLevelled =>
      List.forall_mem_append.mpr ⟨e.levelled_parts hLevelled.1, rest.levelled_parts hLevelled.2⟩

end

/-- The operator of a binary phrase that is not in parentheses. -/
def ExprPhrase.operator? : ExprPhrase → Option Token
  | .binary _ op _ _ => some op
  | _ => none

/-- The level of an operation is that of its operator. -/
theorem ExprPhrase.level_of_operator {table : TokenKind → Nat} {phrase : ExprPhrase} {op : Token}
    (hOp : phrase.operator? = some op) : phrase.level table = table op.kind := by
  cases phrase with
  | binary left op' hOp' right =>
      cases hOp
      rfl
  | _ => cases hOp

/-- Whether the operators of a phrase nest by their levels. An operand that is binary and not in
parentheses has at least the level of its operator on the left and a higher one on the right, and
it never belongs to a unary operator. -/
structure ExprPhrase.NestsByLevel (phrase : ExprPhrase) : Prop where
  left : ∀ left op hOp right, .binary left op hOp right ∈ phrase.parts →
    ∀ inner, left.operator? = some inner → op.kind.level ≤ inner.kind.level
  right : ∀ left op hOp right, .binary left op hOp right ∈ phrase.parts →
    ∀ inner, right.operator? = some inner → op.kind.level < inner.kind.level
  operand : ∀ op hOp operand, .unary op hOp operand ∈ phrase.parts → operand.operator? = none

/-- In a levelled phrase the sides of each operator bind as they have to. -/
theorem ExprPhrase.nestsByLevel {phrase : ExprPhrase}
    (hLevelled : phrase.Levelled TokenKind.level) : phrase.NestsByLevel where
  left left op hOp right hMem inner hInner := by
    have hPart := phrase.levelled_parts hLevelled _ hMem
    have hLevel : _ = TokenKind.level inner.kind := level_of_operator hInner
    rw [← hLevel]
    exact hPart.1
  right left op hOp right hMem inner hInner := by
    have hPart := phrase.levelled_parts hLevelled _ hMem
    have hLevel : _ = TokenKind.level inner.kind := level_of_operator hInner
    rw [← hLevel]
    exact hPart.2.1
  operand op hOp operand hMem := by
    have hPart : Precedence.unary.level ≤ operand.level TokenKind.level :=
      (phrase.levelled_parts hLevelled _ hMem).1
    cases operand with
    | binary left inner hInner right =>
        exact absurd (TokenKind.level_lt_unary_of_isBinary hInner) (Nat.not_lt.mpr hPart)
    | _ => rfl

end TryGo
