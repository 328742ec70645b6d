import TryGo.Proofs.Phrase.Stmt
import TryGo.Proofs.Tree.Shape

/-! Trees without holes. A tree is complete if every child that has to be there is there; the
children that may be absent are the type and the value of a variable, the type of a constant,
the clauses of a loop header, the alternative of a conditional, the cleanup of a try, what a
catch clause binds, and the result and the single parameter types of a function.

The tree of a phrase is complete, and printing a complete tree meets no node that has no Go
form. -/
namespace TryGo

mutual

def Expr.Complete : Expr → Prop
  | .missing | .foreign _ _ _ => False
  | .ident _ _ | .int _ _ | .float _ _ | .str _ _ _ | .char _ _ | .bool _ _ | .nil _ => True
  | .unary _ _ operand => operand.Complete
  | .binary _ left _ right => left.Complete ∧ right.Complete
  | .call _ callee args => callee.Complete ∧ Expr.AllComplete args
  | .select _ left field => left.Complete ∧ field.Complete
  | .index _ left position => left.Complete ∧ position.Complete

def Expr.AllComplete : List Expr → Prop
  | [] => True
  | e :: es => e.Complete ∧ Expr.AllComplete es

end

/-- Whether a child that may be absent is absent or complete. -/
def Expr.CompleteIfAny (e : Expr) : Prop := e.isMissing = true ∨ e.Complete

mutual

/-- Whether a statement has all the children that it must have, of the sort that belongs there. A
definition defines identifiers and has values, a function has as many parameter types as
parameters, and a branch is a break or a continue. -/
def Stmt.Complete : Stmt → Prop
  | .missing | .catchClause _ _ _ _ | .bare _ | .program _ _ => False
  | .package _ _ | .imports _ _ | .comment _ _ _ => True
  | .decl _ .var name _ value => name.Complete ∧ value.CompleteIfAny
  | .decl _ .const name _ value => name.Complete ∧ value.Complete
  | .assign _ targets _ values => Expr.AllComplete targets ∧ Expr.AllComplete values
  | .define _ names values =>
      (∀ name ∈ names, name.isIdent = true) ∧ values ≠ [] ∧ Expr.AllComplete values
  | .ret _ values => Expr.AllComplete values
  | .expr _ value | .incr _ value _ | .throw _ value => value.Complete
  | .branch token => token.kind = .kwBreak ∨ token.kind = .kwContinue
  | .block _ statements => Stmt.AllComplete statements
  | .ifElse _ condition consequence alternative =>
      condition.Complete ∧ consequence.isBlock = true ∧ consequence.Complete
        ∧ (alternative.isMissing = true
          ∨ (alternative.isBlock || alternative.isConditional) = true ∧ alternative.Complete)
  | .loop _ init condition update body =>
      (init.isMissing = true ∨ init.isSimple = true ∧ init.Complete) ∧ condition.CompleteIfAny
        ∧ (update.isMissing = true ∨ update.isSimple = true ∧ update.Complete)
        ∧ body.isBlock = true ∧ body.Complete
  | .func _ name params types _ body =>
      name.Complete ∧ Expr.AllComplete params ∧ types.length = params.length
        ∧ body.isBlock = true ∧ body.Complete
  | .tryCatch _ body catches cleanup =>
      body.isBlock = true ∧ body.Complete ∧ Stmt.AllClauses catches
        ∧ (cleanup.isMissing = true ∨ cleanup.isBlock = true ∧ cleanup.Complete)

def Stmt.AllComplete : List Stmt → Prop
  | [] => True
  | s :: rest => s.Complete ∧ Stmt.AllComplete rest

/-- Whether some nodes are catch clauses that have their bodies. -/
def Stmt.AllClauses : List Stmt → Prop
  | [] => True
  | .catchClause _ name _ body :: rest =>
      name.CompleteIfAny ∧ body.isBlock = true ∧ body.Complete ∧ Stmt.AllClauses rest
  | _ :: _ => False

end

def Program.Complete (program : Program) : Prop := Stmt.AllComplete program.statements

/-! ### Phrases stand for complete trees -/

/-- An operand has all of its parts. -/
theorem complete_operand {token : Token} {value : Expr} (hValue : operand? token = some value) :
    value.Complete := by
  unfold operand? at hValue
  split at hValue <;> simp only [Option.map_eq_some_iff, Option.some.injEq, reduceCtorEq] at hValue
  all_goals first
    | (subst hValue; trivial)
    | (obtain ⟨_, _, rfl⟩ := hValue; trivial)

mutual

/-- An expression that was spelled has all of its parts. -/
theorem ExprPhrase.complete_tree : (phrase : ExprPhrase) → phrase.tree.Complete
  | .atom _ _ hValue => complete_operand hValue
  | .group _ inner _ => inner.complete_tree
  | .unary _ _ operand => operand.complete_tree
  | .binary left _ _ right => ⟨left.complete_tree, right.complete_tree⟩
  | .callEmpty callee _ _ => ⟨callee.complete_tree, trivial⟩
  | .call callee _ args _ => ⟨callee.complete_tree, args.complete_trees⟩
  | .select left _ _ => ⟨left.complete_tree, trivial⟩
  | .index left _ position _ => ⟨left.complete_tree, position.complete_tree⟩

theorem ExprsPhrase.complete_trees : (phrase : ExprsPhrase) → Expr.AllComplete phrase.trees
  | .last e => ⟨e.complete_tree, trivial⟩
  | .more e _ rest => ⟨e.complete_tree, rest.complete_trees⟩

end

theorem ExprsPhrase.trees_ne_nil (phrase : ExprsPhrase) : phrase.trees ≠ [] := by
  cases phrase with
  | last | more => exact List.cons_ne_nil _ _

/-- A simple statement that fits has all of its parts. -/
theorem SimplePhrase.complete_tree (phrase : SimplePhrase) {next : TokenKind}
    (hFits : phrase.Fits next) : phrase.tree.Complete := by
  cases phrase with
  | define names _ values => exact ⟨hFits.2.1, values.trees_ne_nil, values.complete_trees⟩
  | assign targets _ _ values => exact ⟨targets.complete_trees, values.complete_trees⟩
  | incr target _ _ => exact target.complete_tree
  | expr value => exact value.complete_tree

/-- Parameters that were spelled have their names. -/
theorem ParamsPhrase.complete_trees (phrase : ParamsPhrase) :
    Expr.AllComplete (phrase.trees.map Prod.fst) := by
  induction phrase with
  | last => exact ⟨trivial, trivial⟩
  | more _ _ _ ih => exact ⟨trivial, ih⟩

theorem SimplePhrase.isSimple_tree (phrase : SimplePhrase) : phrase.tree.isSimple = true := by
  cases phrase <;> rfl

theorem IfPhrase.isConditional_tree (phrase : IfPhrase) : phrase.tree.isConditional = true := by
  cases phrase <;> rfl

/-- A loop that fits lacks nothing but the clauses it may leave out. -/
theorem LoopPhrase.complete_tree (header : LoopPhrase) (keyword : Token) {body : Stmt}
    (hFits : header.Fits) (hBody : body.isBlock = true ∧ body.Complete) :
    (header.tree keyword body).Complete := by
  cases header with
  | endless => exact ⟨.inl rfl, .inl rfl, .inl rfl, hBody⟩
  | whileTrue condition => exact ⟨.inl rfl, .inr condition.complete_tree, .inl rfl, hBody⟩
  | clauses init _ condition _ update =>
      obtain ⟨hInit, -, hUpdate⟩ := hFits
      refine ⟨?_, ?_, ?_, hBody⟩
      · cases init with
        | none => exact .inl rfl
        | some phrase =>
            exact .inr ⟨phrase.isSimple_tree, phrase.complete_tree (hInit phrase rfl)⟩
      · cases condition with
        | none => exact .inl rfl
        | some phrase => exact .inr phrase.complete_tree
      · cases update with
        | none => exact .inl rfl
        | some phrase =>
            exact .inr ⟨phrase.isSimple_tree, phrase.complete_tree (hUpdate phrase rfl)⟩

theorem Stmt.allComplete_append {front back : List Stmt} (hFront : Stmt.AllComplete front)
    (hBack : Stmt.AllComplete back) : Stmt.AllComplete (front ++ back) := by
  induction front with
  | nil => exact hBack
  | cons s rest ih => exact ⟨hFront.1, ih hFront.2⟩

/-- Comments have all of their parts. -/
theorem allComplete_comments (comments : List Token) :
    Stmt.AllComplete (comments.map Parse.commentStmt) := by
  induction comments with
  | nil => trivial
  | cons token rest ih => exact ⟨trivial, ih⟩

/-- A constant has a value, because without one its phrase does not fit. -/
theorem complete_decl {kind : DeclKind} {keyword : Mark kind.tokenKind} {name : Mark .ident}
    {type : Option TypePhrase} {init : Option InitPhrase} {next : TokenKind}
    (hFits : (StmtPhrase.decl kind keyword name type init).Fits next) :
    (StmtPhrase.decl kind keyword name type init).tree.Complete := by
  cases init with
  | some init =>
      cases kind with
      | var => exact ⟨trivial, .inr init.value.complete_tree⟩
      | const => exact ⟨trivial, init.value.complete_tree⟩
  | none =>
      obtain rfl : kind = .var := by
        cases type with
        | none => exact hFits.1
        | some type => exact hFits.1
      exact ⟨trivial, .inl rfl⟩

mutual

/-- A statement that is read as its phrase says is complete. -/
theorem StmtPhrase.complete_tree : (phrase : StmtPhrase) → (next : TokenKind) → phrase.Fits next →
    phrase.tree.Complete
  | .package _ _, _, _ | .importOne _ _, _, _ | .importGroup _ _ _ _, _, _ | .comment _ _, _, _ =>
      trivial
  | .decl _ _ _ _ _, _, hFits => complete_decl hFits
  | .simple phrase, _, hFits => phrase.complete_tree hFits
  | .ret _ none, _, _ => trivial
  | .ret _ (some values), _, _ => values.complete_trees
  | .throw _ value, _, _ => value.complete_tree
  | .branch _ hKind, _, _ => hKind
  | .block body, _, hFits => (body.complete_tree hFits).2
  | .func _ _ _ params _ _ body, _, hFits => by
      refine ⟨trivial, ?_, ?_, body.complete_tree hFits.2.2⟩
      · cases params with
        | none => trivial
        | some params => exact params.complete_trees
      · rw [List.length_map, List.length_map]
  | .ifElse chain, next, hFits => chain.complete_tree next hFits
  | .loop keyword header body, _, hFits =>
      header.complete_tree keyword.val hFits.1 (body.complete_tree hFits.2)
  | .tryCatch _ body catches _, _, hFits =>
      ⟨(body.complete_tree hFits.1).1, (body.complete_tree hFits.1).2,
        catches.allClauses_trees hFits.2.1, .inl rfl⟩
  | .tryFinally _ body catches _ _ cleanup, _, hFits =>
      ⟨(body.complete_tree hFits.1).1, (body.complete_tree hFits.1).2,
        catches.allClauses_trees hFits.2.1, .inr (cleanup.complete_tree hFits.2.2)⟩

/-- A block that fits has all of its parts. -/
theorem BlockPhrase.complete_tree : (phrase : BlockPhrase) → phrase.Fits →
    phrase.tree.isBlock = true ∧ phrase.tree.Complete
  | .mk _ items _, hFits => ⟨rfl, items.allComplete_trees .rbrace hFits⟩

/-- Statements that fit have all of their parts. -/
theorem ItemsPhrase.allComplete_trees : (phrase : ItemsPhrase) → (after : TokenKind) →
    phrase.Fits after → Stmt.AllComplete phrase.trees
  | .nil, _, _ => trivial
  | .semicolon _ rest, after, hFits => rest.allComplete_trees after hFits
  | .cons stmt (some _) rest, after, hFits =>
      ⟨stmt.complete_tree _ hFits.1, Stmt.allComplete_append (allComplete_comments _)
        (rest.allComplete_trees after hFits.2)⟩
  | .cons stmt none rest, after, hFits =>
      ⟨stmt.complete_tree _ hFits.1, Stmt.allComplete_append (allComplete_comments _)
        (rest.allComplete_trees after hFits.2.2)⟩

/-- A chain that fits lacks nothing but the last alternative, if it has none. -/
theorem IfPhrase.complete_tree : (phrase : IfPhrase) → (next : TokenKind) → phrase.Fits next →
    phrase.tree.Complete
  | .plain _ condition body, _, hFits =>
      ⟨condition.complete_tree, (body.complete_tree hFits.2.1).1, (body.complete_tree hFits.2.1).2,
        .inl rfl⟩
  | .elseIf _ condition body _ chain, next, hFits => by
      refine ⟨condition.complete_tree, (body.complete_tree hFits.2.1).1,
        (body.complete_tree hFits.2.1).2, .inr ⟨?_, chain.complete_tree next hFits.2.2⟩⟩
      rw [chain.isConditional_tree, Bool.or_true]
  | .elseBlock _ condition body _ alternative, _, hFits => by
      refine ⟨condition.complete_tree, (body.complete_tree hFits.2.1).1,
        (body.complete_tree hFits.2.1).2, .inr ⟨?_, (alternative.complete_tree hFits.2.2).2⟩⟩
      rw [(alternative.complete_tree hFits.2.2).1, Bool.true_or]

/-- Clauses that fit have all of their parts but the names they do not bind. -/
theorem CatchesPhrase.allClauses_trees : (phrase : CatchesPhrase) → phrase.Fits →
    Stmt.AllClauses phrase.trees
  | .nil, _ => trivial
  | .cons _ _ none body rest, hFits =>
      ⟨.inl rfl, (body.complete_tree hFits.2.1).1, (body.complete_tree hFits.2.1).2,
        rest.allClauses_trees hFits.2.2⟩
  | .cons _ _ (some _) body rest, hFits =>
      ⟨.inr trivial, (body.complete_tree hFits.2.1).1, (body.complete_tree hFits.2.1).2,
        rest.allClauses_trees hFits.2.2⟩

end

/-! ### Nodes that have no Go form -/

mutual

/-- The kinds of the nodes in an expression for which a placeholder is printed. A field is not
printed as an expression. -/
def Expr.placeholders : Expr → List NodeKind
  | .missing => [.absent]
  | .foreign kind _ _ => [kind]
  | .ident _ _ | .int _ _ | .float _ _ | .str _ _ _ | .char _ _ | .bool _ _ | .nil _ => []
  | .unary _ _ operand => operand.placeholders
  | .binary _ left _ right => left.placeholders ++ right.placeholders
  | .call _ callee args => callee.placeholders ++ Expr.allPlaceholders args
  | .select _ left _ => left.placeholders
  | .index _ left position => left.placeholders ++ position.placeholders

def Expr.allPlaceholders : List Expr → List NodeKind
  | [] => []
  | e :: es => e.placeholders ++ Expr.allPlaceholders es

end

/-- The same of an expression that is not printed if it is missing. -/
def Expr.placeholdersIfAny (e : Expr) : List NodeKind :=
  if e.isMissing then [] else e.placeholders

mutual

/-- The kinds of the nodes in a statement for which a placeholder is written. -/
def Stmt.placeholders : Stmt → List NodeKind
  | .package _ _ | .imports _ _ | .comment _ _ _ | .branch _ => []
  | .decl _ _ _ _ value => value.placeholdersIfAny
  | .assign _ targets _ values => Expr.allPlaceholders targets ++ Expr.allPlaceholders values
  | .define _ names values => Expr.allPlaceholders names ++ Expr.allPlaceholders values
  | .ret _ values => Expr.allPlaceholders values
  | .expr _ value | .incr _ value _ | .throw _ value => value.placeholders
  | .block _ statements => Stmt.allPlaceholders statements
  | .ifElse _ condition consequence alternative =>
      condition.placeholders ++ consequence.bodyPlaceholders ++ alternative.elsePlaceholders
  | .loop _ init condition update body =>
      init.clausePlaceholders ++ condition.placeholdersIfAny ++ update.clausePlaceholders
        ++ body.bodyPlaceholders
  | .func _ _ _ _ _ body => body.bodyPlaceholders
  | .tryCatch _ body catches cleanup =>
      body.bodyPlaceholders ++ Stmt.clausesPlaceholders catches ++ cleanup.bodyPlaceholders
  | .missing => [.absent]
  | .catchClause _ _ _ _ => [.catchClause]
  | .bare value => [value.kind]
  | .program _ _ => [.program]

def Stmt.allPlaceholders : List Stmt → List NodeKind
  | [] => []
  | s :: rest => s.placeholders ++ Stmt.allPlaceholders rest

/-- The same of a node in the place of a body, of which only the statements count. -/
def Stmt.bodyPlaceholders : Stmt → List NodeKind
  | .block _ statements | .program _ statements => Stmt.allPlaceholders statements
  | _ => []

def Stmt.elsePlaceholders : Stmt → List NodeKind
  | .block _ statements | .program _ statements => Stmt.allPlaceholders statements
  | .ifElse _ condition consequence alternative =>
      condition.placeholders ++ consequence.bodyPlaceholders ++ alternative.elsePlaceholders
  | _ => []

/-- The same of a clause in the header of a loop. Only simple statements have a form there. -/
def Stmt.clausePlaceholders : Stmt → List NodeKind
  | .missing => []
  | .decl _ _ _ _ value => value.placeholdersIfAny
  | .assign _ targets _ values => Expr.allPlaceholders targets ++ Expr.allPlaceholders values
  | .define _ names values => Expr.allPlaceholders names ++ Expr.allPlaceholders values
  | .expr _ value | .incr _ value _ => value.placeholders
  | s => [s.kind]

/-- The same of catch clauses. Those behind a catch-all are dropped. -/
def Stmt.clausesPlaceholders : List Stmt → List NodeKind
  | .catchClause _ _ type body :: rest =>
      body.bodyPlaceholders ++ (if isTyped type then Stmt.clausesPlaceholders rest else [])
  | _ => []

end

/-- The kinds of the nodes in a program for which a placeholder is written. -/
def Program.placeholders (program : Program) : List NodeKind :=
  Stmt.allPlaceholders program.statements

mutual

/-- A complete expression is written without a placeholder. -/
theorem Expr.Complete.placeholders : (e : Expr) → e.Complete → e.placeholders = []
  | .missing, hComplete | .foreign _ _ _, hComplete => hComplete.elim
  | .ident _ _, _ | .int _ _, _ | .float _ _, _ | .str _ _ _, _ | .char _ _, _ | .bool _ _, _
  | .nil _, _ => rfl
  | .unary _ _ operand, hComplete => Expr.Complete.placeholders operand hComplete
  | .binary _ left _ right, hComplete => by
      rw [Expr.placeholders, Expr.Complete.placeholders left hComplete.1,
        Expr.Complete.placeholders right hComplete.2, List.append_nil]
  | .call _ callee args, hComplete => by
      rw [Expr.placeholders, Expr.Complete.placeholders callee hComplete.1,
        Expr.AllComplete.placeholders args hComplete.2, List.append_nil]
  | .select _ left _, hComplete => Expr.Complete.placeholders left hComplete.1
  | .index _ left position, hComplete => by
      rw [Expr.placeholders, Expr.Complete.placeholders left hComplete.1,
        Expr.Complete.placeholders position hComplete.2, List.append_nil]

theorem Expr.AllComplete.placeholders : (es : List Expr) → Expr.AllComplete es →
    Expr.allPlaceholders es = []
  | [], _ => rfl
  | e :: es, hComplete => by
      rw [Expr.allPlaceholders, Expr.Complete.placeholders e hComplete.1,
        Expr.AllComplete.placeholders es hComplete.2, List.append_nil]

end

/-- An expression that is left out is written as nothing. -/
theorem Expr.CompleteIfAny.placeholders {e : Expr} (hComplete : e.CompleteIfAny) :
    e.placeholdersIfAny = [] := by
  rw [Expr.placeholdersIfAny]
  rcases hComplete with hMissing | hComplete
  · rw [if_pos hMissing]
  · rw [Expr.Complete.placeholders e hComplete, ite_self]

theorem allComplete_of_isIdent {es : List Expr} (hIdents : ∀ e ∈ es, e.isIdent = true) :
    Expr.AllComplete es := by
  induction es with
  | nil => trivial
  | cons e rest ih =>
      rw [List.forall_mem_cons] at hIdents
      refine ⟨?_, ih hIdents.2⟩
      cases e with
      | ident => trivial
      | _ => cases hIdents.1

theorem Stmt.isMissing_cases {s : Stmt} (hMissing : s.isMissing = true) : s = .missing := by
  cases s with
  | missing => rfl
  | _ => cases hMissing

/-- A clause of a loop header is written without a placeholder if it is complete. -/
theorem Stmt.clausePlaceholders_eq_nil {s : Stmt}
    (hClause : s.isMissing = true ∨ s.isSimple = true ∧ s.Complete) :
    s.clausePlaceholders = [] := by
  rcases hClause with hMissing | ⟨hSimple, hComplete⟩
  · rw [Stmt.isMissing_cases hMissing]
    rfl
  · cases s with
    | assign _ targets _ values =>
        rw [Stmt.clausePlaceholders, Expr.AllComplete.placeholders targets hComplete.1,
          Expr.AllComplete.placeholders values hComplete.2, List.append_nil]
    | define _ names values =>
        rw [Stmt.clausePlaceholders,
          Expr.AllComplete.placeholders names (allComplete_of_isIdent hComplete.1),
          Expr.AllComplete.placeholders values hComplete.2.2, List.append_nil]
    | expr _ value | incr _ value _ => exact Expr.Complete.placeholders value hComplete
    | _ => cases hSimple

mutual

/-- A complete statement is written without a placeholder. -/
theorem Stmt.Complete.placeholders : (s : Stmt) → s.Complete → s.placeholders = []
  | .package _ _, _ | .imports _ _, _ | .comment _ _ _, _ | .branch _, _ => rfl
  | .missing, hComplete | .catchClause _ _ _ _, hComplete | .bare _, hComplete
  | .program _ _, hComplete => hComplete.elim
  | .decl _ .var _ _ value, hComplete => hComplete.2.placeholders
  | .decl _ .const _ _ value, hComplete =>
      Expr.CompleteIfAny.placeholders (Or.inr hComplete.2)
  | .assign _ targets _ values, hComplete => by
      rw [Stmt.placeholders, Expr.AllComplete.placeholders targets hComplete.1,
        Expr.AllComplete.placeholders values hComplete.2, List.append_nil]
  | .define _ names values, hComplete => by
      rw [Stmt.placeholders,
        Expr.AllComplete.placeholders names (allComplete_of_isIdent hComplete.1),
        Expr.AllComplete.placeholders values hComplete.2.2, List.append_nil]
  | .ret _ values, hComplete => Expr.AllComplete.placeholders values hComplete
  | .expr _ value, hComplete | .incr _ value _, hComplete | .throw _ value, hComplete =>
      Expr.Complete.placeholders value hComplete
  | .block _ statements, hComplete => Stmt.AllComplete.placeholders statements hComplete
  | .ifElse _ condition consequence alternative, hComplete => by
      obtain ⟨hCondition, -, hConsequence, hAlternative⟩ := hComplete
      rw [Stmt.placeholders, Expr.Complete.placeholders condition hCondition,
        Stmt.Complete.bodyPlaceholders consequence hConsequence,
        Stmt.Complete.elsePlaceholders alternative (hAlternative.imp_right And.right)]
      rfl
  | .loop _ init condition update body, hComplete => by
      obtain ⟨hInit, hCondition, hUpdate, -, hBody⟩ := hComplete
      rw [Stmt.placeholders, Stmt.clausePlaceholders_eq_nil hInit, hCondition.placeholders,
        Stmt.clausePlaceholders_eq_nil hUpdate, Stmt.Complete.bodyPlaceholders body hBody]
      rfl
  | .func _ _ _ _ _ body, hComplete =>
      Stmt.Complete.bodyPlaceholders body hComplete.2.2.2.2
  | .tryCatch _ body catches cleanup, hComplete => by
      obtain ⟨-, hBody, hCatches, hCleanup⟩ := hComplete
      have hLast : cleanup.bodyPlaceholders = [] := by
        rcases hCleanup with hMissing | hBlock
        · rw [Stmt.isMissing_cases hMissing]
          rfl
        · exact Stmt.Complete.bodyPlaceholders cleanup hBlock.2
      rw [Stmt.placeholders, Stmt.Complete.bodyPlaceholders body hBody,
        Stmt.AllClauses.placeholders catches hCatches, hLast]
      rfl

theorem Stmt.AllComplete.placeholders : (statements : List Stmt) → Stmt.AllComplete statements →
    Stmt.allPlaceholders statements = []
  | [], _ => rfl
  | s :: rest, hComplete => by
      rw [Stmt.allPlaceholders, Stmt.Complete.placeholders s hComplete.1,
        Stmt.AllComplete.placeholders rest hComplete.2, List.append_nil]

/-- The body of a complete block is written without a placeholder. -/
theorem Stmt.Complete.bodyPlaceholders : (s : Stmt) → s.Complete → s.bodyPlaceholders = []
  | .block _ statements, hComplete => Stmt.AllComplete.placeholders statements hComplete
  | .missing, hComplete | .catchClause _ _ _ _, hComplete | .bare _, hComplete
  | .program _ _, hComplete => hComplete.elim
  | .package _ _, _ | .imports _ _, _ | .comment _ _ _, _ | .branch _, _ | .decl _ _ _ _ _, _
  | .assign _ _ _ _, _ | .define _ _ _, _ | .ret _ _, _ | .expr _ _, _ | .incr _ _ _, _
  | .throw _ _, _ | .ifElse _ _ _ _, _ | .loop _ _ _ _ _, _ | .func _ _ _ _ _ _, _
  | .tryCatch _ _ _ _, _ => rfl

/-- An alternative that is left out is written as nothing. -/
theorem Stmt.Complete.elsePlaceholders : (s : Stmt) → s.isMissing = true ∨ s.Complete →
    s.elsePlaceholders = []
  | .block _ statements, hComplete =>
      Stmt.AllComplete.placeholders statements (hComplete.resolve_left nofun)
  | .ifElse _ condition consequence alternative, hComplete => by
      obtain ⟨hCondition, -, hConsequence, hAlternative⟩ := hComplete.resolve_left nofun
      rw [Stmt.elsePlaceholders, Expr.Complete.placeholders condition hCondition,
        Stmt.Complete.bodyPlaceholders consequence hConsequence,
        Stmt.Complete.elsePlaceholders alternative (hAlternative.imp_right And.right)]
      rfl
  | .program _ _, hComplete => (hComplete.resolve_left nofun).elim
  | .missing, _ | .package _ _, _ | .imports _ _, _ | .comment _ _ _, _ | .branch _, _
  | .decl _ _ _ _ _, _ | .assign _ _ _ _, _ | .define _ _ _, _ | .ret _ _, _ | .expr _ _, _
  | .incr _ _ _, _ | .throw _ _, _ | .loop _ _ _ _ _, _ | .func _ _ _ _ _ _, _
  | .tryCatch _ _ _ _, _ | .catchClause _ _ _ _, _ | .bare _, _ => rfl

/-- Complete clauses are written without a placeholder. -/
theorem Stmt.AllClauses.placeholders : (catches : List Stmt) → Stmt.AllClauses catches →
    Stmt.clausesPlaceholders catches = []
  | [], _ => rfl
  | s :: rest, hClauses => by
      cases s with
      | catchClause _ _ type body =>
          obtain ⟨-, -, hBody, hRest⟩ := hClauses
          rw [Stmt.clausesPlaceholders, Stmt.Complete.bodyPlaceholders body hBody,
            Stmt.AllClauses.placeholders rest hRest, ite_self, List.append_nil]
      | _ => exact hClauses.elim

end

end TryGo
