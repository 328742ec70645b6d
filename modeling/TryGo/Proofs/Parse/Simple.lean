import TryGo.Proofs.Parse.Expr
import TryGo.Proofs.Parse.Type
import TryGo.Proofs.Phrase.Stmt

/-! The constructs that hold no statements are read exactly as their phrases say: simple
statements, the clauses of a function, and the lists in import groups. -/
namespace TryGo.Parse

theorem State.cur_on_append (s : State) {tokens : List Token} (hTokens : tokens ≠ [])
    (more : List Token) : (s.on (tokens ++ more)).cursor.cur = leading tokens := by
  cases tokens with
  | nil => exact absurd rfl hTokens
  | cons token rest => rfl

/-- The first token of some tokens is that of anything they lead. -/
theorem leading_append {tokens : List Token} (hTokens : tokens ≠ []) (more : List Token) :
    leading (tokens ++ more) = leading tokens := by
  cases tokens with
  | nil => exact absurd rfl hTokens
  | cons token rest => rfl

/-! ### Simple statements -/

section Idents

/-- Names are let through. -/
theorem requireIdents_run (s : State) :
    (es : List Expr) → (∀ e ∈ es, e.isIdent = true) → requireIdents es s = .ok () s
  | [], _ => rfl
  | e :: es, hIdents => by
      rw [requireIdents, if_pos (hIdents e List.mem_cons_self)]
      exact requireIdents_run s es fun e' hMem => hIdents e' (List.mem_cons_of_mem e hMem)

/-- Only names are let through, and nothing is read on the way. -/
theorem requireIdents_ok {s s' : State} {u : Unit} :
    (es : List Expr) → requireIdents es s = .ok u s' →
      s' = s ∧ ∀ e ∈ es, e.isIdent = true
  | [], hRun => by
      cases hRun
      exact ⟨rfl, nofun⟩
  | e :: es, hRun => by
      rw [requireIdents] at hRun
      by_cases hIdent : e.isIdent = true
      · rw [if_pos hIdent] at hRun
        obtain ⟨rfl, hRest⟩ := requireIdents_ok es hRun
        exact ⟨rfl, List.forall_mem_cons.mpr ⟨hIdent, hRest⟩⟩
      · rw [if_neg hIdent] at hRun
        dsimp only at hRun
        cases hRender : e.render with
        | ok text =>
            rw [hRender] at hRun
            cases hRun
        | error error =>
            rw [hRender] at hRun
            cases hRun

/-- Anything but a name is reported. -/
theorem explains_requireIdents (es : List Expr) : Explains (requireIdents es) := by
  induction es with
  | nil =>
      rw [requireIdents]
      infer_instance
  | cons e es ih =>
      rw [requireIdents]
      split
      · exact ih
      · dsimp only
        split
        · infer_instance
        · exact .of_ne_abandoned (by rintro _ _ ⟨⟩)

instance (es : List Expr) : Explains (requireIdents es) := explains_requireIdents es

end Idents

instance : Explains expressionStmt := by
  refine Explains.bind inferInstance fun token => Explains.bind inferInstance fun exprs =>
    Explains.bind inferInstance fun next => ?_
  split
  · infer_instance
  · split
    · infer_instance
    · split <;> infer_instance

section Expressions

variable (s : State) (more : List Token)

/-- A list in front of a define sign is read as the names it defines. -/
theorem expressionStmt_define (names values : ExprsPhrase) (op : Mark .define)
    (hFits : (SimplePhrase.define names op values).Fits (nextKind more)) :
    ∃ last, expressionStmt (s.on (names.tokens ++ op.val :: (values.tokens ++ more))) =
      .ok (.define (leading names.tokens) names.trees values.trees) (s.on (last :: more)) := by
  obtain ⟨hNames, hIdents, hValues, hNext, hComma⟩ := hFits
  have hOp : nextKind (op.val :: (values.tokens ++ more)) = .define := op.property
  obtain ⟨last, hRunNames⟩ := readExprs_run s _ names hNames (by rw [hOp]; decide)
    (by rw [hOp]; decide)
  obtain ⟨last', hRunValues⟩ := readExprs_run s more values hValues hNext hComma
  refine ⟨last', ?_⟩
  rw [expressionStmt, cur_bind, State.cur_on_append s names.tokens_ne_nil, bind_of_ok hRunNames,
    peek_bind, State.kind_peek_on_cons, if_pos (by simp [hOp]),
    bind_of_ok (requireIdents_run _ _ hIdents), advance_bind, advance_bind,
    bind_of_ok hRunValues]
  rfl

/-- A list in front of an assignment sign is read as its targets. -/
theorem expressionStmt_assign (targets values : ExprsPhrase) (op : Token)
    (hOp : op.kind ∈ TokenKind.assignOperators)
    (hFits : (SimplePhrase.assign targets op hOp values).Fits (nextKind more)) :
    ∃ last, expressionStmt (s.on (targets.tokens ++ op :: (values.tokens ++ more))) =
      .ok (.assign (leading targets.tokens) targets.trees op.literal values.trees)
        (s.on (last :: more)) := by
  obtain ⟨hTargets, hValues, hNext, hComma⟩ := hFits
  have hKinds : op.kind.level ≤ Precedence.lowest.level ∧ op.kind ≠ .comma ∧ op.kind ≠ .define := by
    revert hOp
    cases op.kind <;> decide
  obtain ⟨last, hRunTargets⟩ := readExprs_run s (op :: (values.tokens ++ more)) targets
    hTargets hKinds.1 hKinds.2.1
  obtain ⟨last', hRunValues⟩ := readExprs_run s more values hValues hNext hComma
  refine ⟨last', ?_⟩
  rw [expressionStmt, cur_bind, State.cur_on_append s targets.tokens_ne_nil,
    bind_of_ok hRunTargets, peek_bind, State.peek_on_cons_cons, if_neg (by simpa using hKinds.2.2),
    if_pos (by simpa using hOp), advance_bind, advance_bind, bind_of_ok hRunValues]
  rfl

/-- One expression in front of an increment or a decrement is read with it. -/
theorem expressionStmt_incr (target : ExprPhrase) (op : Token)
    (hOp : op.kind = .inc ∨ op.kind = .dec) (hTarget : target.Levelled TokenKind.level) :
    expressionStmt (s.on (target.tokens ++ op :: more)) =
      .ok (.incr (leading target.tokens) target.tree op.literal) (s.on (op :: more)) := by
  have hKinds : op.kind.level ≤ Precedence.lowest.level ∧ op.kind ≠ .comma ∧ op.kind ≠ .define
      ∧ op.kind ∉ TokenKind.assignOperators := by
    rcases hOp with hKind | hKind <;> rw [hKind] <;> decide
  obtain ⟨hLevel, hComma, hDefine, hAssign⟩ := hKinds
  obtain ⟨last, hRun⟩ := readExprs_run s (op :: more) (.last target) hTarget hLevel hComma
  rw [ExprsPhrase.tokens] at hRun
  rw [expressionStmt, cur_bind, State.cur_on_append s target.tokens_ne_nil,
    bind_of_ok hRun, peek_bind, State.peek_on_cons_cons, if_neg (by simpa using hDefine),
    if_neg (by simpa using hAssign), ExprsPhrase.trees]
  dsimp only
  rw [if_pos (by simpa using hOp), advance_bind]
  rfl

/-- One expression with none of these behind it is a statement by itself. -/
theorem expressionStmt_expr (value : ExprPhrase)
    (hFits : (SimplePhrase.expr value).Fits (nextKind more)) :
    ∃ last, expressionStmt (s.on (value.tokens ++ more)) =
      .ok (.expr (leading value.tokens) value.tree) (s.on (last :: more)) := by
  obtain ⟨hValue, hLevel, hNext⟩ := hFits
  obtain ⟨hComma, hDefine, hInc, hDec, hAssign⟩ : nextKind more ≠ .comma ∧
      nextKind more ≠ .define ∧ nextKind more ≠ .inc ∧ nextKind more ≠ .dec ∧
      nextKind more ∉ TokenKind.assignOperators := by
    simpa [SimplePhrase.continuations] using hNext
  obtain ⟨last, hRun⟩ := readExprs_run s more (.last value) hValue hLevel hComma
  rw [ExprsPhrase.tokens] at hRun
  refine ⟨last, ?_⟩
  rw [expressionStmt, cur_bind, State.cur_on_append s value.tokens_ne_nil,
    bind_of_ok hRun, peek_bind, State.kind_peek_on_cons, if_neg (by simpa using hDefine),
    if_neg (by simpa using hAssign), ExprsPhrase.trees]
  dsimp only
  rw [if_neg (by simpa using ⟨hInc, hDec⟩)]
  rfl

/-- A simple statement is read where it fits. -/
theorem expressionStmt_run (phrase : SimplePhrase) (hFits : phrase.Fits (nextKind more)) :
    ∃ last, expressionStmt (s.on (phrase.tokens ++ more)) =
      .ok phrase.tree (s.on (last :: more)) := by
  cases phrase with
  | define names op values =>
      obtain ⟨last, hRun⟩ := expressionStmt_define s more names values op hFits
      refine ⟨last, ?_⟩
      simpa [SimplePhrase.tokens, SimplePhrase.tree, leading_append names.tokens_ne_nil] using hRun
  | assign targets op hOp values =>
      obtain ⟨last, hRun⟩ := expressionStmt_assign s more targets values op hOp hFits
      refine ⟨last, ?_⟩
      simpa [SimplePhrase.tokens, SimplePhrase.tree, leading_append targets.tokens_ne_nil]
        using hRun
  | incr target op hOp =>
      refine ⟨op, ?_⟩
      simpa [SimplePhrase.tokens, SimplePhrase.tree, leading_append target.tokens_ne_nil]
        using expressionStmt_incr s more target op hOp hFits
  | expr value => exact expressionStmt_expr s more value hFits

end Expressions

/-- What a quiet run that reads a simple statement comes to. -/
def ReadsSimple (s : State) (tokens : List Token) (stmt : Stmt) (s' : State) : Prop :=
  ∃ (phrase : SimplePhrase) (last : Token) (more : List Token),
    tokens = phrase.tokens ++ more ∧ s' = s.on (last :: more) ∧ stmt = phrase.tree
      ∧ phrase.Fits (nextKind more)

/-- What is read without a report from an expression on is one of the four simple statements. -/
theorem expressionStmt_quiet {s s' : State} {tokens : List Token} {stmt : Stmt}
    (hRun : expressionStmt (s.on tokens) = .ok stmt s') (hQuiet : s'.reports = s.reports) :
    ReadsSimple s tokens stmt s' := by
  rw [expressionStmt, cur_bind] at hRun
  obtain ⟨exprs, middle, hExprs, hMiddle, hRest⟩ := bind_quiet_of hRun hQuiet fun exprs =>
    Grows.bind inferInstance fun next => by repeat' first | infer_instance | split
  obtain ⟨exprs, last, more, rfl, rfl, rfl, hLevelled, hLevel, hComma⟩ :=
    readExprs_quiet hExprs hMiddle
  rw [State.cur_on_append s exprs.tokens_ne_nil, peek_bind, State.kind_peek_on_cons] at hRest
  by_cases hDefine : nextKind more = .define
  · obtain ⟨op, more, rfl⟩ := exists_mark_of_nextKind hDefine (by decide)
    rw [if_pos (by simpa using hDefine)] at hRest
    obtain ⟨_, middle, hIdentsRun, hMiddle, hRest⟩ := bind_quiet hRest hQuiet
    obtain ⟨rfl, hIdents⟩ := requireIdents_ok _ hIdentsRun
    rw [advance_bind, advance_bind] at hRest
    obtain ⟨values, middle, hValues, hMiddle, hRest⟩ := bind_quiet hRest hQuiet
    obtain ⟨values, last, more, rfl, rfl, rfl, hValues, hNext, hAfter⟩ :=
      readExprs_quiet hValues hMiddle
    cases hRest
    exact ⟨.define exprs op values, last, more, by simp [SimplePhrase.tokens], rfl,
      by simp [SimplePhrase.tree, SimplePhrase.tokens, leading_append exprs.tokens_ne_nil],
      hLevelled, hIdents, hValues, hNext, hAfter⟩
  rw [if_neg (by simpa using hDefine)] at hRest
  by_cases hAssign : nextKind more ∈ TokenKind.assignOperators
  · rw [if_pos (by simpa using hAssign)] at hRest
    cases more with
    | nil => exact absurd hAssign (by decide)
    | cons op more =>
      rw [advance_bind, advance_bind, State.peek_on_cons_cons] at hRest
      obtain ⟨values, middle, hValues, hMiddle, hRest⟩ := bind_quiet hRest hQuiet
      obtain ⟨values, last, more, rfl, rfl, rfl, hValues, hNext, hAfter⟩ :=
        readExprs_quiet hValues hMiddle
      cases hRest
      exact ⟨.assign exprs op hAssign values, last, more, by simp [SimplePhrase.tokens], rfl,
        by simp [SimplePhrase.tree, SimplePhrase.tokens, leading_append exprs.tokens_ne_nil],
        hLevelled, hValues, hNext, hAfter⟩
  rw [if_neg (by simpa using hAssign)] at hRest
  cases exprs with
  | more first comma rest => cases rest <;> cases hRest
  | last e =>
      rw [ExprsPhrase.trees] at hRest
      dsimp only at hRest
      by_cases hStep : nextKind more = .inc ∨ nextKind more = .dec
      · rw [if_pos (by simpa using hStep)] at hRest
        cases more with
        | nil => exact absurd hStep (by decide)
        | cons op more =>
          rw [advance_bind, State.peek_on_cons_cons] at hRest
          cases hRest
          exact ⟨.incr e op hStep, op, more, by simp [SimplePhrase.tokens, ExprsPhrase.tokens],
            rfl, by simp [SimplePhrase.tree, SimplePhrase.tokens, ExprsPhrase.tokens,
              leading_append e.tokens_ne_nil], hLevelled⟩
      · rw [if_neg (by simpa using hStep)] at hRest
        cases hRest
        refine ⟨.expr e, last, more, rfl, rfl, rfl, hLevelled, hLevel, ?_⟩
        simpa [SimplePhrase.continuations, hComma, hDefine, hAssign] using hStep

/-- An operand alone is a list of expressions if nothing continues it. -/
theorem readExprs_operand (s : State) {token : Token} {more : List Token} {value : Expr}
    (hValue : operand? token = some value) (hPresent : value.isMissing = false)
    (hLevel : (nextKind more).level ≤ Precedence.lowest.level) (hComma : nextKind more ≠ .comma) :
    readExprs (s.on (token :: more)) = .ok [value] (s.on (token :: more)) := by
  have hRead : expression (4 * (token :: more).length + 3) Precedence.lowest.level
      (s.on (token :: more)) = .ok value (s.on (token :: more)) := by
    rw [expression_operand s hValue, operators_stop s hLevel]
  rw [readExprs, tokensLeft_bind, State.rest_on, exprFuel, expressions, bind_of_ok hRead,
    if_neg (by simp [hPresent]), peekIs_bind, State.kind_peek_on_cons,
    if_neg (by simpa using hComma)]
  rfl

/-- A name alone is a list of expressions if nothing continues it. -/
theorem readExprs_ident (s : State) {token : Token} {more : List Token}
    (hKind : token.kind = .ident) (hLevel : (nextKind more).level ≤ Precedence.lowest.level)
    (hComma : nextKind more ≠ .comma) :
    readExprs (s.on (token :: more)) =
      .ok [.ident token token.literal] (s.on (token :: more)) :=
  readExprs_operand s (by simp only [operand?, hKind]) rfl hLevel hComma

/-- The short paths of a simple statement lead where the long one does. -/
theorem simpleStmt_eq (s : State) (tokens : List Token) :
    simpleStmt (s.on tokens) = expressionStmt (s.on tokens) := by
  rw [simpleStmt, cur_bind, peek_bind]
  cases tokens with
  | nil =>
    have hEof : ((s.on []).cursor.cur.kind == TokenKind.ident) = false := rfl
    rw [hEof, Bool.false_and, Bool.false_and, if_neg Bool.false_ne_true, if_neg Bool.false_ne_true]
  | cons token more =>
    rw [State.cur_on_cons, State.kind_peek_on_cons]
    by_cases hDefine : token.kind = .ident ∧ nextKind more = .define
    · obtain ⟨hKind, hNext⟩ := hDefine
      rw [if_pos (by simp [hKind, hNext]), expressionStmt, cur_bind,
        bind_of_ok (readExprs_ident s hKind (by rw [hNext]; decide) (by rw [hNext]; decide)),
        peek_bind, State.kind_peek_on_cons, if_pos (by simp [hNext]),
        bind_of_ok (requireIdents_run _ _ (by simp [Expr.isIdent])), State.cur_on_cons]
    rw [if_neg (by simpa using hDefine)]
    by_cases hStep : token.kind = .ident ∧ (nextKind more = .inc ∨ nextKind more = .dec)
    · obtain ⟨hKind, hNext⟩ := hStep
      obtain ⟨hLevel, hComma, hOther, hAssign⟩ : (nextKind more).level ≤ Precedence.lowest.level
          ∧ nextKind more ≠ .comma ∧ nextKind more ≠ .define
          ∧ nextKind more ∉ TokenKind.assignOperators := by
        rcases hNext with hNext | hNext <;> rw [hNext] <;> decide
      rw [if_pos (by simpa [hKind] using hNext), expressionStmt, cur_bind,
        bind_of_ok (readExprs_ident s hKind hLevel hComma), peek_bind, State.kind_peek_on_cons,
        if_neg (by simpa using hOther), if_neg (by simpa using hAssign)]
      dsimp only
      rw [if_pos (by simpa using hNext), State.cur_on_cons]
    rw [if_neg (by simpa using hStep)]

instance : Explains simpleStmt := by
  unfold simpleStmt
  infer_instance

/-- A simple statement that fits is read as it is spelled. -/
theorem simpleStmt_run (s : State) (more : List Token) (phrase : SimplePhrase)
    (hFits : phrase.Fits (nextKind more)) :
    ∃ last, simpleStmt (s.on (phrase.tokens ++ more)) = .ok phrase.tree (s.on (last :: more)) := by
  rw [simpleStmt_eq]
  exact expressionStmt_run s more phrase hFits

/-- A simple statement that is read without a report is the tree of a phrase. -/
theorem simpleStmt_quiet {s s' : State} {tokens : List Token} {stmt : Stmt}
    (hRun : simpleStmt (s.on tokens) = .ok stmt s') (hQuiet : s'.reports = s.reports) :
    ReadsSimple s tokens stmt s' := by
  rw [simpleStmt_eq] at hRun
  exact expressionStmt_quiet hRun hQuiet

/-! ### Optional types -/

instance : Explains optionalType := by
  unfold optionalType
  infer_instance

/-- Where no type can start, none is read. -/
theorem optionalType_none (s : State) {token : Token} {more : List Token}
    (hNext : nextKind more ∉ TokenKind.typeStarts) :
    optionalType (s.on (token :: more)) = .ok none (s.on (token :: more)) := by
  rw [optionalType, peek_bind, State.kind_peek_on_cons, if_neg (by simpa using hNext)]
  rfl

/-- Where a type starts, it is read. -/
theorem optionalType_some (s : State) (token : Token) (more : List Token) (phrase : TypePhrase)
    (hVariadic : phrase.isVariadic = false) (hFits : phrase.Fits (nextKind more)) :
    ∃ last, optionalType (s.on (token :: (phrase.tokens ++ more))) =
      .ok (some phrase.type) (s.on (last :: more)) := by
  have hStart := phrase.nextKind_mem hVariadic more
  obtain ⟨last, hRun⟩ := readType_run s more phrase hFits
  refine ⟨last, ?_⟩
  rw [optionalType, peek_bind, State.kind_peek_on_cons, if_pos (by simpa using hStart),
    advance_bind, bind_of_ok hRun]
  rfl

/-- An optional type is a type phrase, or none starts there. -/
theorem optionalType_ok {s s' : State} {token : Token} {tokens : List Token}
    {type : Option GoType} (hRun : optionalType (s.on (token :: tokens)) = .ok type s') :
    (type = none ∧ s' = s.on (token :: tokens) ∧ nextKind tokens ∉ TokenKind.typeStarts) ∨
    ∃ (phrase : TypePhrase) (last : Token) (more : List Token),
      tokens = phrase.tokens ++ more ∧ s' = s.on (last :: more) ∧ type = some phrase.type
        ∧ phrase.isVariadic = false ∧ phrase.Fits (nextKind more) := by
  rw [optionalType, peek_bind, State.kind_peek_on_cons] at hRun
  by_cases hStart : nextKind tokens ∈ TokenKind.typeStarts
  · rw [if_pos (by simpa using hStart), advance_bind] at hRun
    obtain ⟨type, middle, hType, hRest⟩ := bind_ok hRun
    obtain ⟨phrase, last, more, rfl, rfl, rfl, hFits⟩ := readType_ok hType
    cases hRest
    refine Or.inr ⟨phrase, last, more, rfl, rfl, rfl, ?_, hFits⟩
    cases hVariadic : phrase.isVariadic with
    | false => rfl
    | true =>
        rw [phrase.nextKind_of_isVariadic hVariadic] at hStart
        exact absurd hStart (by decide)
  · rw [if_neg (by simpa using hStart)] at hRun
    cases hRun
    exact Or.inl ⟨rfl, rfl, hStart⟩

/-! ### Parameters and results -/

/-- The type of a parameter, which alone may be variadic. -/
def parameterType : ParseM (Option GoType) := do
  if ← peekIs .ellipsis then
    advance
    return some (← readType)
  else
    optionalType

instance : Explains parameterType := by
  unfold parameterType
  infer_instance

/-- A round of the parameters reads one name with its type. -/
theorem parameters_succ (fuel : Nat) :
    parameters (fuel + 1) = (do
      expect .ident
      let name ← curIdent
      let type ← parameterType
      if ← peekIs .comma then
        advance
        return (name, type.map GoType.text) :: (← parameters fuel)
      else
        expect .rparen
        return [(name, type.map GoType.text)]) := by
  rw [parameters, parameterType]
  simp only [bind_assoc]
  congr 1
  funext _
  congr 1
  funext name
  congr 1
  funext variadic
  cases variadic <;> simp

/-- The type of a parameter ends at the comma or the bracket behind it. -/
theorem parameterType_run (s : State) (more : List Token) (param : ParamPhrase)
    (hFits : param.Fits (nextKind more)) (hNext : nextKind more = .comma ∨ nextKind more = .rparen) :
    ∃ last, parameterType (s.on (param.tokens ++ more)) =
      .ok (param.type.map TypePhrase.type) (s.on (last :: more)) := by
  obtain ⟨name, type⟩ := param
  rw [ParamPhrase.tokens, List.cons_append]
  cases type with
  | none =>
      have hKinds : nextKind more ≠ .ellipsis ∧ nextKind more ∉ TokenKind.typeStarts := by
        rcases hNext with hNext | hNext <;> rw [hNext] <;> decide
      refine ⟨name.val, ?_⟩
      rw [tokensIf_none, List.nil_append, parameterType, peekIs_bind, State.kind_peek_on_cons,
        if_neg (by simpa using hKinds.1), optionalType_none s hKinds.2]
      rfl
  | some type =>
      have hType := hFits type rfl
      rw [tokensIf_some, parameterType, peekIs_bind, State.kind_peek_on_cons]
      cases hVariadic : type.isVariadic with
      | false =>
          have hNe : nextKind (type.tokens ++ more) ≠ .ellipsis := by
            have hStart := type.nextKind_mem hVariadic more
            intro hEq
            rw [hEq] at hStart
            exact absurd hStart (by decide)
          rw [if_neg (by simpa using hNe)]
          exact optionalType_some s name.val more type hVariadic hType
      | true =>
          obtain ⟨last, hRun⟩ := readType_run s more type hType
          refine ⟨last, ?_⟩
          rw [if_pos (by simp [type.nextKind_of_isVariadic hVariadic]), advance_bind,
            bind_of_ok hRun]
          rfl

/-- What is read for a parameter is a type that fits, or none. -/
theorem parameterType_ok {s s' : State} {name : Mark .ident} {tokens : List Token}
    {type : Option GoType} (hRun : parameterType (s.on (name.val :: tokens)) = .ok type s') :
    ∃ (param : ParamPhrase) (last : Token) (more : List Token),
      param.name = name ∧ name.val :: tokens = param.tokens ++ more ∧ s' = s.on (last :: more)
        ∧ type = param.type.map TypePhrase.type ∧ param.Fits (nextKind more) := by
  rw [parameterType, peekIs_bind, State.kind_peek_on_cons] at hRun
  by_cases hVariadic : nextKind tokens = .ellipsis
  · rw [if_pos (by simpa using hVariadic), advance_bind] at hRun
    obtain ⟨type, middle, hType, hRest⟩ := bind_ok hRun
    obtain ⟨phrase, last, more, rfl, rfl, rfl, hFits⟩ := readType_ok hType
    cases hRest
    exact ⟨⟨name, some phrase⟩, last, more, rfl, rfl, rfl, rfl, by rintro _ ⟨⟩; exact hFits⟩
  · rw [if_neg (by simpa using hVariadic)] at hRun
    rcases optionalType_ok hRun with
      ⟨rfl, rfl, -⟩ | ⟨phrase, last, more, rfl, rfl, rfl, -, hFits⟩
    · exact ⟨⟨name, none⟩, name.val, tokens, rfl, rfl, rfl, rfl, nofun⟩
    · exact ⟨⟨name, some phrase⟩, last, more, rfl, rfl, rfl, rfl, by rintro _ ⟨⟩; exact hFits⟩

/-- Parameters that are given up are reported. -/
theorem explains_parameters : (fuel : Nat) → Explains (parameters fuel)
  | 0 => explains_outOfFuel
  | fuel + 1 => by
      have := explains_parameters fuel
      rw [parameters_succ]
      infer_instance

instance (fuel : Nat) : Explains (parameters fuel) := explains_parameters fuel

/-- Parameters are read up to their closing parenthesis. -/
theorem parameters_run (s : State) (more : List Token) (closing : Mark .rparen) :
    (phrase : ParamsPhrase) → (token : Token) → (fuel : Nat) → phrase.Fits →
      phrase.tokens.length ≤ fuel →
      parameters fuel (s.on (token :: (phrase.tokens ++ closing.val :: more))) =
        .ok phrase.trees (s.on (closing.val :: more))
  | .last param, token, fuel, hFits, hFuel => by
      have hClosing : nextKind (closing.val :: more) = .rparen := closing.property
      simp only [ParamsPhrase.tokens, ParamPhrase.tokens, List.length_cons] at hFuel
      obtain ⟨fuel, rfl⟩ : ∃ n, fuel = n + 1 := ⟨fuel - 1, by omega⟩
      obtain ⟨last, hType⟩ := parameterType_run s (closing.val :: more) param
        (by rw [hClosing]; exact hFits) (Or.inr hClosing)
      rw [ParamPhrase.tokens, List.cons_append] at hType
      rw [parameters_succ, ParamsPhrase.tokens, ParamPhrase.tokens, List.cons_append,
        expect_bind _ _ _ _ (by exact param.name.property), curIdent_bind, bind_of_ok hType,
        peekIs_bind, State.kind_peek_on_cons, if_neg (by simp [hClosing]),
        expect_bind _ _ _ _ hClosing, param.tree_eq]
      rfl
  | .more param comma rest, token, fuel, hFits, hFuel => by
      have hComma : nextKind (comma.val :: (rest.tokens ++ closing.val :: more)) = .comma :=
        comma.property
      simp only [ParamsPhrase.tokens, List.length_append, List.length_cons] at hFuel
      obtain ⟨fuel, rfl⟩ : ∃ n, fuel = n + 1 := ⟨fuel - 1, by omega⟩
      obtain ⟨last, hType⟩ := parameterType_run s (comma.val :: (rest.tokens ++ closing.val :: more))
        param (by rw [hComma]; exact hFits.1) (Or.inl hComma)
      have hRest := parameters_run s more closing rest comma.val fuel hFits.2 (by omega)
      rw [ParamPhrase.tokens, List.cons_append] at hType
      rw [parameters_succ, ParamsPhrase.tokens, ParamPhrase.tokens, List.append_assoc,
        List.cons_append, List.cons_append, expect_bind _ _ _ _ (by exact param.name.property),
        curIdent_bind, bind_of_ok hType, peekIs_bind, State.kind_peek_on_cons,
        if_pos (by simp [hComma]), advance_bind, bind_of_ok hRest, param.tree_eq]
      rfl

/-- Parameters that are read are those of a phrase, up to the closing bracket. -/
theorem parameters_ok {s s' : State} :
    (fuel : Nat) → (token : Token) → (tokens : List Token) →
      (params : List (Expr × Option String)) →
      parameters fuel (s.on (token :: tokens)) = .ok params s' →
      ∃ (phrase : ParamsPhrase) (closing : Mark .rparen) (more : List Token),
        tokens = phrase.tokens ++ closing.val :: more ∧ s' = s.on (closing.val :: more)
          ∧ params = phrase.trees ∧ phrase.Fits
  | 0, _, _, _, hRun => by cases hRun
  | fuel + 1, token, tokens, params, hRun => by
      rw [parameters_succ] at hRun
      obtain ⟨_, middle, hExpect, hRest⟩ := bind_ok hRun
      obtain ⟨name, more, rfl, rfl⟩ := expect_ok hExpect (by decide)
      rw [curIdent_bind] at hRest
      obtain ⟨type, middle, hType, hRest⟩ := bind_ok hRest
      obtain ⟨param, last, more, rfl, hTokens, rfl, rfl, hFits⟩ := parameterType_ok hType
      rw [hTokens]
      rw [peekIs_bind, State.kind_peek_on_cons, param.tree_eq] at hRest
      by_cases hComma : nextKind more = .comma
      · obtain ⟨comma, more, rfl⟩ := exists_mark_of_nextKind hComma (by decide)
        rw [if_pos (by simpa using hComma), advance_bind] at hRest
        obtain ⟨others, middle, hOthers, hRest⟩ := bind_ok hRest
        obtain ⟨others, closing, more, rfl, rfl, rfl, hOthersFit⟩ :=
          parameters_ok fuel comma.val more others hOthers
        cases hRest
        rw [hComma] at hFits
        exact ⟨.more param comma others, closing, more, by simp [ParamsPhrase.tokens], rfl, rfl,
          hFits, hOthersFit⟩
      · rw [if_neg (by simpa using hComma)] at hRest
        obtain ⟨_, middle, hExpect, hRest⟩ := bind_ok hRest
        obtain ⟨closing, more, rfl, rfl⟩ := expect_ok hExpect (by decide)
        cases hRest
        rw [nextKind_cons, closing.property] at hFits
        exact ⟨.last param, closing, more, by simp [ParamsPhrase.tokens], rfl, rfl, hFits⟩

instance : Explains readParameters := by
  unfold readParameters
  infer_instance

/-- Parameters that fit are read as they are spelled, none in empty brackets. -/
theorem readParameters_run (s : State) (token : Token) (more : List Token)
    (closing : Mark .rparen) (params : Option ParamsPhrase)
    (hFits : ∀ phrase, params = some phrase → phrase.Fits) :
    readParameters
        (s.on (token :: (tokensIf ParamsPhrase.tokens params ++ closing.val :: more))) =
      .ok ((params.map ParamsPhrase.trees).getD []) (s.on (closing.val :: more)) := by
  cases params with
  | none =>
      rw [tokensIf_none, List.nil_append, readParameters, peekIs_bind, State.kind_peek_on_cons,
        if_pos (by simp [closing.property])]
      rfl
  | some phrase =>
      have hStart : nextKind (phrase.tokens ++ closing.val :: more) = .ident := by
        cases phrase with
        | last param => exact param.name.property
        | more param comma rest => exact param.name.property
      have hFuel : phrase.tokens.length
          ≤ (token :: (phrase.tokens ++ closing.val :: more)).length + 1 := by
        simp only [List.length_cons, List.length_append]
        omega
      rw [tokensIf_some, readParameters, peekIs_bind, State.kind_peek_on_cons,
        if_neg (by simp [hStart]), tokensLeft_bind, State.rest_on]
      exact parameters_run s more closing phrase token _ (hFits phrase rfl) hFuel

/-- What is read between the brackets of a function is a phrase of parameters, or nothing. -/
theorem readParameters_ok {s s' : State} {token : Token} {tokens : List Token}
    {params : List (Expr × Option String)}
    (hRun : readParameters (s.on (token :: tokens)) = .ok params s') :
    ∃ (phrase : Option ParamsPhrase) (closing : Mark .rparen) (more : List Token),
      tokens = tokensIf ParamsPhrase.tokens phrase ++ closing.val :: more
        ∧ s' = s.on (closing.val :: more) ∧ params = (phrase.map ParamsPhrase.trees).getD []
        ∧ ∀ phrase', phrase = some phrase' → phrase'.Fits := by
  rw [readParameters, peekIs_bind, State.kind_peek_on_cons] at hRun
  by_cases hEmpty : nextKind tokens = .rparen
  · obtain ⟨closing, more, rfl⟩ := exists_mark_of_nextKind hEmpty (by decide)
    rw [if_pos (by simpa using hEmpty), advance_bind] at hRun
    cases hRun
    exact ⟨none, closing, more, rfl, rfl, rfl, nofun⟩
  · rw [if_neg (by simpa using hEmpty), tokensLeft_bind] at hRun
    obtain ⟨phrase, closing, more, rfl, rfl, rfl, hFits⟩ := parameters_ok _ token tokens params hRun
    exact ⟨some phrase, closing, more, rfl, rfl, rfl, by rintro _ ⟨⟩; exact hFits⟩

instance : Explains readResult := by
  unfold readResult
  infer_instance

/-- A result that fits is read as it is spelled, none in front of a brace. -/
theorem readResult_run (s : State) (token : Token) (more : List Token) (result : ResultPhrase)
    (hFits : result.Fits) (hNext : nextKind more = .lbrace) :
    ∃ last, readResult (s.on (token :: (result.tokens ++ more))) =
      .ok result.type? (s.on (last :: more)) := by
  cases result with
  | none =>
      have hStart : nextKind more ∉ TokenKind.typeStarts := by rw [hNext]; decide
      refine ⟨token, ?_⟩
      rw [ResultPhrase.tokens, List.nil_append, readResult, peekIs_bind, State.kind_peek_on_cons,
        if_neg (by simp [hNext]), optionalType_none s hStart]
      rfl
  | single type =>
      obtain ⟨hVariadic, hType⟩ := hFits
      have hParen : nextKind (type.tokens ++ more) ≠ .lparen :=
        type.nextKind_ne (by decide) (by decide) more
      rw [ResultPhrase.tokens, readResult, peekIs_bind, State.kind_peek_on_cons,
        if_neg (by simpa using hParen)]
      exact optionalType_some s token more type hVariadic (by rw [hNext]; exact hType)
  | tuple types =>
      obtain ⟨last, hRun⟩ := readResults_run s more types hFits
      refine ⟨last, ?_⟩
      rw [ResultPhrase.tokens, readResult, peekIs_bind, State.kind_peek_on_cons,
        if_pos (by simp [types.nextKind_tokens]), advance_bind, bind_of_ok hRun]
      rfl

/-- A result fits if a body follows it. -/
theorem readResult_ok {s s' : State} {token : Token} {tokens : List Token} {type : Option GoType}
    (hRun : readResult (s.on (token :: tokens)) = .ok type s') :
    ∃ (result : ResultPhrase) (last : Token) (more : List Token),
      tokens = result.tokens ++ more ∧ s' = s.on (last :: more) ∧ type = result.type?
        ∧ (nextKind more = .lbrace → result.Fits) := by
  rw [readResult, peekIs_bind, State.kind_peek_on_cons] at hRun
  by_cases hParen : nextKind tokens = .lparen
  · obtain ⟨opening, more, rfl⟩ := exists_mark_of_nextKind hParen (by decide)
    rw [if_pos (by simpa using hParen), advance_bind] at hRun
    obtain ⟨type, middle, hResults, hRest⟩ := bind_ok hRun
    obtain ⟨_, rfl, types, last, more, hTokens, rfl, rfl, hFits⟩ := readResults_ok hResults
    cases hRest
    exact ⟨.tuple types, last, more, hTokens, rfl, rfl, fun _ => hFits⟩
  · rw [if_neg (by simpa using hParen)] at hRun
    rcases optionalType_ok hRun with
      ⟨rfl, rfl, -⟩ | ⟨phrase, last, more, rfl, rfl, rfl, hVariadic, hFits⟩
    · exact ⟨.none, token, tokens, rfl, rfl, rfl, fun _ => trivial⟩
    · refine ⟨.single phrase, last, more, rfl, rfl, rfl, fun hNext => ⟨hVariadic, ?_⟩⟩
      rw [hNext] at hFits
      exact hFits

/-! ### Comments and import groups -/

/-- Dropping as many tokens as were skipped leaves the last one of them in front. -/
theorem exists_drop_eq_cons (token : Token) (skipped more : List Token) :
    ∃ last, (token :: (skipped ++ more)).drop skipped.length = last :: more := by
  have hLength : ((token :: skipped).drop skipped.length).length = 1 := by simp
  obtain ⟨last, hLast⟩ := List.length_eq_one_iff.mp hLength
  refine ⟨last, ?_⟩
  rw [← List.cons_append, List.drop_append_of_le_length (by simp), hLast]
  rfl

/-- Comments are skipped up to the first token that is none. -/
theorem skipComments_run (s : State) (token : Token) (comments : Comments) (more : List Token)
    (hNext : (nextKind more).isComment = false) :
    ∃ last, skipComments (s.on (token :: (comments.val ++ more))) =
      .ok comments.val (s.on (last :: more)) := by
  have hTaken : (comments.val ++ more).takeWhile (fun token => token.kind.isComment)
      = comments.val := by
    rw [List.takeWhile_append_of_pos comments.property]
    cases more with
    | nil => simp
    | cons next more => simp [show next.kind.isComment = false from hNext]
  obtain ⟨last, hDrop⟩ := exists_drop_eq_cons token comments.val more
  refine ⟨last, ?_⟩
  simp only [skipComments, State.rest_on, List.tail_cons, hTaken, hDrop]
  rfl

/-- Exactly the comments in front are skipped, and they are kept in order. -/
theorem skipComments_ok {s s' : State} {token : Token} {tokens found : List Token}
    (hRun : skipComments (s.on (token :: tokens)) = .ok found s') :
    ∃ (comments : Comments) (last : Token) (more : List Token),
      tokens = comments.val ++ more ∧ found = comments.val ∧ s' = s.on (last :: more)
        ∧ (nextKind more).isComment = false := by
  let isComment : Token → Bool := fun token => token.kind.isComment
  have hSplit : tokens = tokens.takeWhile isComment ++ tokens.dropWhile isComment :=
    List.takeWhile_append_dropWhile.symm
  have hComments : ∀ t ∈ tokens.takeWhile isComment, t.kind.isComment = true :=
    fun t hMem => List.all_eq_true.mp List.all_takeWhile t hMem
  have hNext : (nextKind (tokens.dropWhile isComment)).isComment = false := by
    cases hRest : tokens.dropWhile isComment with
    | nil => rfl
    | cons next more =>
        have hHead := List.head_dropWhile_not isComment (l := tokens) (by simp [hRest])
        simpa [hRest] using hHead
  obtain ⟨last, hSkip⟩ := skipComments_run s token ⟨_, hComments⟩ _ hNext
  rw [← hSplit, hRun] at hSkip
  cases hSkip
  exact ⟨⟨_, hComments⟩, last, _, hSplit, rfl, rfl, hNext⟩

def skipSemicolon : ParseM Unit := do
  if ← peekIs .semicolon then advance else return ()

instance : Explains skipSemicolon := by
  unfold skipSemicolon
  infer_instance

/-- A semicolon is skipped where one stands. -/
theorem skipSemicolon_run (s : State) (token : Token) (semicolon : Option (Mark .semicolon))
    (more : List Token) (hNext : semicolon = none → nextKind more ≠ .semicolon) :
    ∃ last, skipSemicolon (s.on (token :: (tokensIf (fun mark => [mark.val]) semicolon ++ more))) =
      .ok () (s.on (last :: more)) := by
  cases semicolon with
  | none =>
      refine ⟨token, ?_⟩
      rw [tokensIf_none, List.nil_append, skipSemicolon, peekIs_bind, State.kind_peek_on_cons,
        if_neg (by simpa using hNext rfl)]
      rfl
  | some mark =>
      refine ⟨mark.val, ?_⟩
      rw [tokensIf_some, List.singleton_append, skipSemicolon, peekIs_bind,
        State.kind_peek_on_cons, if_pos (by simp [mark.property])]
      rfl

/-- One semicolon at most is skipped. -/
theorem skipSemicolon_ok {s s' : State} {token : Token} {tokens : List Token} {u : Unit}
    (hRun : skipSemicolon (s.on (token :: tokens)) = .ok u s') :
    ∃ (semicolon : Option (Mark .semicolon)) (last : Token) (more : List Token),
      tokens = tokensIf (fun mark => [mark.val]) semicolon ++ more
        ∧ s' = s.on (last :: more) ∧ (semicolon = none → nextKind more ≠ .semicolon) := by
  rw [skipSemicolon, peekIs_bind, State.kind_peek_on_cons] at hRun
  by_cases hEnded : nextKind tokens = .semicolon
  · obtain ⟨mark, more, rfl⟩ := exists_mark_of_nextKind hEnded (by decide)
    rw [if_pos (by simpa using hEnded)] at hRun
    cases hRun
    exact ⟨some mark, mark.val, more, rfl, rfl, nofun⟩
  · rw [if_neg (by simpa using hEnded)] at hRun
    cases hRun
    exact ⟨none, token, tokens, rfl, rfl, fun _ => hEnded⟩

/-- A round of an import group reads one path with the comments in front of it. -/
theorem importPaths_succ (fuel : Nat) :
    importPaths (fuel + 1) = (do
      let _ ← skipComments
      if ← peekIs .rparen then
        return []
      else
        expect .string
        let path ← cur
        skipSemicolon
        return path.literal :: (← importPaths fuel)) := by
  rw [importPaths]
  simp only [skipSemicolon, bind_assoc]
  congr 1
  funext _
  congr 1
  funext closed
  congr 1
  congr 1
  funext _
  congr 1
  funext path
  congr 1
  funext ended
  cases ended <;> simp

/-- An import group that is given up is reported. -/
theorem explains_importPaths : (fuel : Nat) → Explains (importPaths fuel)
  | 0 => explains_outOfFuel
  | fuel + 1 => by
      have := explains_importPaths fuel
      rw [importPaths_succ]
      infer_instance

instance (fuel : Nat) : Explains (importPaths fuel) := explains_importPaths fuel

/-- The paths of a group are read up to its bracket, without the comments between them. -/
theorem importPaths_run (s : State) (closing : Mark .rparen) (more : List Token) :
    (phrase : PathsPhrase) → (token : Token) → (fuel : Nat) → phrase.tokens.length < fuel →
      ∃ last, importPaths fuel (s.on (token :: (phrase.tokens ++ closing.val :: more))) =
        .ok phrase.paths (s.on (last :: closing.val :: more))
  | .done comments, token, fuel, hFuel => by
      have hClosing : nextKind (closing.val :: more) = .rparen := closing.property
      obtain ⟨fuel, rfl⟩ : ∃ n, fuel = n + 1 := ⟨fuel - 1, by omega⟩
      obtain ⟨last, hSkip⟩ := skipComments_run s token comments (closing.val :: more)
        (by rw [hClosing]; rfl)
      refine ⟨last, ?_⟩
      rw [PathsPhrase.tokens, importPaths_succ, bind_of_ok hSkip, peekIs_bind,
        State.kind_peek_on_cons, if_pos (by simp [hClosing])]
      rfl
  | .more comments path semicolon rest, token, fuel, hFuel => by
      have hPath : nextKind (path.val :: (tokensIf (fun mark => [mark.val]) semicolon
          ++ (rest.tokens ++ closing.val :: more))) = .string := path.property
      -- Nothing that can come after a path is a semicolon of its own.
      have hRest : nextKind (rest.tokens ++ closing.val :: more) ≠ .semicolon := by
        cases rest with
        | done comments =>
            exact comments.nextKind_ne rfl (by rw [nextKind_cons, closing.property]; decide)
        | more comments path _ _ =>
            rw [PathsPhrase.tokens, List.append_assoc]
            exact comments.nextKind_ne rfl
              (by rw [List.cons_append, nextKind_cons, path.property]; decide)
      simp only [PathsPhrase.tokens, List.length_append, List.length_cons] at hFuel
      obtain ⟨fuel, rfl⟩ : ∃ n, fuel = n + 1 := ⟨fuel - 1, by omega⟩
      obtain ⟨last, hSkip⟩ := skipComments_run s token comments _ (by rw [hPath]; rfl)
      obtain ⟨last', hSemicolon⟩ := skipSemicolon_run s path.val semicolon
        (rest.tokens ++ closing.val :: more) fun _ => hRest
      obtain ⟨last'', hRun⟩ := importPaths_run s closing more rest last' fuel (by omega)
      refine ⟨last'', ?_⟩
      rw [PathsPhrase.tokens, List.append_assoc, List.cons_append, List.append_assoc,
        importPaths_succ, bind_of_ok hSkip, peekIs_bind,
        State.kind_peek_on_cons, if_neg (by simp [hPath]), expect_bind _ _ _ _ hPath, cur_bind,
        State.cur_on_cons, bind_of_ok hSemicolon, bind_of_ok hRun]
      rfl

/-- The paths that are read are those of a phrase, up to the closing bracket. -/
theorem importPaths_ok {s s' : State} :
    (fuel : Nat) → (token : Token) → (tokens : List Token) → (paths : List String) →
      importPaths fuel (s.on (token :: tokens)) = .ok paths s' →
      ∃ (phrase : PathsPhrase) (last : Token) (closing : Mark .rparen) (more : List Token),
        tokens = phrase.tokens ++ closing.val :: more
          ∧ s' = s.on (last :: closing.val :: more) ∧ paths = phrase.paths
  | 0, _, _, _, hRun => by cases hRun
  | fuel + 1, token, tokens, paths, hRun => by
      rw [importPaths_succ] at hRun
      obtain ⟨_, middle, hSkip, hRest⟩ := bind_ok hRun
      obtain ⟨comments, last, more, rfl, rfl, rfl, -⟩ := skipComments_ok hSkip
      rw [peekIs_bind, State.kind_peek_on_cons] at hRest
      by_cases hClosed : nextKind more = .rparen
      · obtain ⟨closing, more, rfl⟩ := exists_mark_of_nextKind hClosed (by decide)
        rw [if_pos (by simpa using hClosed)] at hRest
        cases hRest
        exact ⟨.done comments, last, closing, more, rfl, rfl, rfl⟩
      · rw [if_neg (by simpa using hClosed)] at hRest
        obtain ⟨_, middle, hExpect, hRest⟩ := bind_ok hRest
        obtain ⟨path, more, rfl, rfl⟩ := expect_ok hExpect (by decide)
        rw [cur_bind, State.cur_on_cons] at hRest
        obtain ⟨_, middle, hSemicolon, hRest⟩ := bind_ok hRest
        obtain ⟨semicolon, last, more, rfl, rfl, -⟩ := skipSemicolon_ok hSemicolon
        obtain ⟨others, middle, hOthers, hRest⟩ := bind_ok hRest
        obtain ⟨others, last, closing, more, rfl, rfl, rfl⟩ :=
          importPaths_ok fuel last more others hOthers
        cases hRest
        exact ⟨.more comments path semicolon others, last, closing, more,
          by simp [PathsPhrase.tokens], rfl, rfl⟩

end TryGo.Parse
