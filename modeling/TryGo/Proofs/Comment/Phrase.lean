import TryGo.Proofs.Comment.Place

/-! Going over the tokens of a phrase keeps the comments that its tree has, with the same places.
Expressions and types keep none. A block is what its braces enclose, and nothing in a phrase
opens a brace without closing it. -/
namespace TryGo

/-! ### Expressions and types -/

section Expressions

/-- What starts an expression is no comment and encloses none. -/
theorem TokenKind.isInert_of_exprStarts {kind : TokenKind} (hKind : kind ∈ exprStarts) :
    kind.isInert = true :=
  List.all_eq_true.mp (by decide : exprStarts.all isInert = true) kind hKind

theorem TokenKind.isInert_of_isUnary {kind : TokenKind} (hUnary : kind.isUnary = true) :
    kind.isInert = true := by
  have hTable : ∀ kind ∈ unaryKinds, kind.isInert = true := by decide
  exact hTable kind (mem_unaryKinds hUnary)

theorem TokenKind.isInert_of_isBinary {kind : TokenKind} (hBinary : kind.isBinary = true) :
    kind.isInert = true := by
  have hTable : ∀ kind ∈ binaryKinds, kind.isInert = true := by decide
  exact hTable kind (mem_binaryKinds hBinary)

mutual

/-- An expression has neither comments nor braces. -/
theorem ExprPhrase.silent : (phrase : ExprPhrase) → Silent phrase.tokens
  | .atom _ _ hValue =>
      silent_token (TokenKind.isInert_of_exprStarts (kind_mem_exprStarts_of_operand hValue))
  | .group opening inner closing =>
      (inner.silent.append (silent_mark closing rfl)).mark opening rfl
  | .unary _ hOp operand => operand.silent.cons (TokenKind.isInert_of_isUnary hOp)
  | .binary left _ hOp right =>
      left.silent.append (right.silent.cons (TokenKind.isInert_of_isBinary hOp))
  | .callEmpty callee opening closing =>
      callee.silent.append ((silent_mark closing rfl).mark opening rfl)
  | .call callee opening args closing =>
      callee.silent.append ((args.silent.append (silent_mark closing rfl)).mark opening rfl)
  | .select left dot field => left.silent.append ((silent_mark field rfl).mark dot rfl)
  | .index left opening position closing =>
      left.silent.append ((position.silent.append (silent_mark closing rfl)).bracket opening)

theorem ExprsPhrase.silent : (phrase : ExprsPhrase) → Silent phrase.tokens
  | .last e => e.silent
  | .more e comma rest => e.silent.append (rest.silent.mark comma rfl)

end

end Expressions

section Types

/-- The size of an array is passed over, even if it is a comment or a brace. -/
theorem silent_array {opening : Mark .lbracket} {size : Token} {closing : Mark .rbracket}
    {tokens : List Token} (hTokens : Silent tokens) :
    Silent (opening.val :: size :: closing.val :: tokens) := by
  intro final previous opened _
  have hOpening : Scan.after ⟨previous, false, opened⟩ opening.val = ⟨.lbracket, false, opened⟩ := by
    simp [Scan.after, opening.property]
  have hSize : Scan.after ⟨.lbracket, false, opened⟩ size = ⟨size.kind, false, opened⟩ := by
    simp [Scan.after]
  have hClosing : Scan.after ⟨size.kind, false, opened⟩ closing.val = ⟨.rbracket, false, opened⟩ := by
    simp [Scan.after, closing.property]
  obtain ⟨hKept, hLast⟩ := hTokens final .rbracket opened (by decide)
  have hAfter : (opening.val :: size :: closing.val :: tokens).foldl Scan.after
      ⟨previous, false, opened⟩ = tokens.foldl Scan.after ⟨.rbracket, false, opened⟩ := by
    rw [List.foldl_cons, hOpening, List.foldl_cons, hSize, List.foldl_cons, hClosing]
  refine ⟨?_, hAfter ▸ hLast⟩
  have hDrops : ∀ kind, Scan.drops ⟨.lbracket, false, opened⟩ kind = true := fun _ => rfl
  rw [keptFrom_cons_other (by rw [opening.property]; rfl), hOpening, keptFrom, hDrops, hSize,
    keptFrom_cons_other (by rw [closing.property]; rfl), hClosing, hKept, Bool.not_true,
    Bool.and_false]
  rfl

/-- Behind a keyword stands no size of an array. -/
theorem Silent.behind {kind : TokenKind} {tokens : List Token} (keyword : Mark kind)
    (hInert : kind.isInert = true) (hTokens : ∀ final opened, Scans final opened tokens []) :
    Silent (keyword.val :: tokens) := by
  intro final previous opened hPrevious
  have hInert : keyword.val.kind.isInert = true := by rw [keyword.property]; exact hInert
  obtain ⟨hKept, hLast⟩ := hTokens final opened keyword.val.kind (.of_isInert hInert)
  have hAfter := Scan.after_inert hInert hPrevious opened
  refine ⟨?_, by rw [List.foldl_cons, hAfter]; exact hLast⟩
  rw [keptFrom_cons_other (TokenKind.isComment_of_isInert hInert), hAfter, hKept]

/-- Braces with nothing between them. -/
theorem silent_braces {kind : TokenKind} (keyword : Mark kind) (hInert : kind.isInert = true)
    (opening : Mark .lbrace) (closing : Mark .rbrace) :
    Silent [keyword.val, opening.val, closing.val] := by
  refine .behind keyword hInert fun final opened => ?_
  have hEmpty : Scans .rbrace (opening.val :: opened) [] [] := scans_nil
  exact hEmpty.braces

mutual

/-- A type has no comments, and its braces stand next to each other. -/
theorem TypePhrase.silent : (phrase : TypePhrase) → Silent phrase.tokens
  | .named name => silent_mark name rfl
  | .qualified package dot name => ((silent_mark name rfl).mark dot rfl).mark package rfl
  | .pointer star elem => elem.silent.mark star rfl
  | .variadic dots elem => elem.silent.mark dots rfl
  | .slice opening closing elem => (elem.silent.mark closing rfl).bracket opening
  | .array _ _ _ _ elem => silent_array elem.silent
  | .map keyword opening key closing value =>
      ((key.silent.append (value.silent.mark closing rfl)).bracket opening).mark keyword rfl
  | .chan keyword elem => elem.silent.mark keyword rfl
  | .receiveChan arrow keyword elem => (elem.silent.mark keyword rfl).mark arrow rfl
  | .interface keyword opening closing | .struct keyword opening closing =>
      silent_braces keyword rfl opening closing
  | .func keyword params => params.silent.mark keyword rfl
  | .funcTo keyword params result => (params.silent.append result.silent).mark keyword rfl
  | .funcToTuple keyword params results => (params.silent.append results.silent).mark keyword rfl

theorem TuplePhrase.silent : (phrase : TuplePhrase) → Silent phrase.tokens
  | .empty opening closing => (silent_mark closing rfl).mark opening rfl
  | .full opening types closing =>
      (types.silent.append (silent_mark closing rfl)).mark opening rfl

theorem TypesPhrase.silent : (phrase : TypesPhrase) → Silent phrase.tokens
  | .last type => type.silent
  | .more type comma rest => type.silent.append (rest.silent.mark comma rfl)

end

end Types

/-! ### Parts of statements -/

section Parts

/-- A part that may be absent stands in front. -/
theorem Silent.optional {α : Type} {tokens : α → List Token} {more : List Token}
    (hTokens : ∀ part, Silent (tokens part)) (part : Option α) (hMore : Silent more) :
    Silent (tokensIf tokens part ++ more) := by
  cases part with
  | none => exact hMore
  | some part => exact (hTokens part).append hMore

/-- A part that may be absent stands behind. -/
theorem Silent.withOptional {α : Type} {tokens : α → List Token} {front : List Token}
    (hFront : Silent front) (hTokens : ∀ part, Silent (tokens part)) (part : Option α) :
    Silent (front ++ tokensIf tokens part) := by
  cases part with
  | none =>
      rw [tokensIf_none, List.append_nil]
      exact hFront
  | some part => exact hFront.append (hTokens part)

theorem TokenKind.isInert_of_assign {kind : TokenKind} (hOp : kind ∈ assignOperators) :
    kind.isInert = true :=
  List.all_eq_true.mp (by decide : assignOperators.all isInert = true) kind hOp

/-- A simple statement has neither comments nor braces. -/
theorem SimplePhrase.silent : (phrase : SimplePhrase) → Silent phrase.tokens
  | .define names op values => names.silent.append (values.silent.mark op rfl)
  | .assign targets _ hOp values =>
      targets.silent.append (values.silent.cons (TokenKind.isInert_of_assign hOp))
  | .incr target _ hOp =>
      target.silent.append (silent_token (by rcases hOp with hOp | hOp <;> rw [hOp] <;> rfl))
  | .expr value => value.silent

/-- Nothing is kept of a simple statement. -/
theorem SimplePhrase.comments_tree (place : Place) (phrase : SimplePhrase) :
    phrase.tree.comments place = [] := by
  cases phrase <;> rfl

/-- A parameter is silent since its type is. -/
theorem ParamPhrase.silent (param : ParamPhrase) : Silent param.tokens :=
  (silent_mark param.name rfl).withOptional TypePhrase.silent param.type

theorem ParamsPhrase.silent : (params : ParamsPhrase) → Silent params.tokens
  | .last param => param.silent
  | .more param comma rest => param.silent.append (rest.silent.mark comma rfl)

theorem BindingPhrase.silent (binding : BindingPhrase) : Silent binding.tokens :=
  ((Silent.optional TypePhrase.silent binding.type (silent_mark binding.closing rfl)).mark
    binding.name rfl).mark binding.opening rfl

theorem InitPhrase.silent (init : InitPhrase) : Silent init.tokens :=
  init.value.silent.mark init.op rfl

/-- The result of a function stands in front of its body. -/
theorem ResultPhrase.before (result : ResultPhrase) {final : TokenKind} {opened more : List Token}
    {kept : List (Token × Place)} (hMore : Scans final opened more kept) :
    Scans final opened (result.tokens ++ more) kept := by
  cases result with
  | none => exact hMore
  | single type => exact type.silent.before hMore
  | tuple types => exact types.silent.before hMore

/-- The header of a loop changes nothing for what follows. -/
theorem LoopPhrase.before (header : LoopPhrase) {final : TokenKind} {opened more : List Token}
    {kept : List (Token × Place)} (hMore : Scans final opened more kept) :
    Scans final opened (header.tokens ++ more) kept := by
  cases header with
  | endless => exact hMore
  | whileTrue condition => exact condition.silent.before hMore
  | clauses init first condition second update =>
      have hFirst : Silent (tokensIf SimplePhrase.tokens init ++ [first.val]) :=
        .optional SimplePhrase.silent init (silent_mark first rfl)
      have hSecond : Silent (tokensIf ExprPhrase.tokens condition
          ++ ([second.val] ++ tokensIf SimplePhrase.tokens update)) :=
        .optional ExprPhrase.silent condition
          ((silent_mark second rfl).withOptional SimplePhrase.silent update)
      have hHeader := (hFirst.append hSecond).before hMore
      simpa [LoopPhrase.tokens] using hHeader

/-- What a loop lists comes from its body. -/
theorem LoopPhrase.comments_tree (header : LoopPhrase) (keyword : Token) (body : Stmt)
    (place : Place) : (header.tree keyword body).comments place = body.comments .elsewhere := by
  cases header with
  | endless | whileTrue => rfl
  | clauses init first condition second update =>
      have hPart : ∀ part : Option SimplePhrase,
          ((part.map SimplePhrase.tree).getD .missing).comments .elsewhere = [] := by
        intro part
        cases part with
        | none => rfl
        | some phrase => exact phrase.comments_tree .elsewhere
      rw [LoopPhrase.tree, Stmt.comments, hPart, hPart]
      rfl

/-- A semicolon behind a statement, or in front of the rest of a list. -/
theorem scans_semicolon {final : TokenKind} {opened more : List Token}
    {kept : List (Token × Place)} (semicolon : Option (Mark .semicolon))
    (hMore : Scans final opened more kept) :
    Scans final opened (tokensIf (fun mark => [mark.val]) semicolon ++ more) kept := by
  cases semicolon with
  | none => exact hMore
  | some mark => exact hMore.mark mark rfl

end Parts

/-! ### Import groups -/

section Groups

/-- Whether going over some tokens inside an import group keeps nothing and stays in the group. -/
def GroupSilent (tokens : List Token) : Prop :=
  ∀ final previous opened, previous ≠ .lbracket →
    keptFrom final ⟨previous, true, opened⟩ tokens = []
      ∧ ∃ last, last ≠ .lbracket
        ∧ tokens.foldl Scan.after ⟨previous, true, opened⟩ = ⟨last, true, opened⟩

/-- What is silent in an import group stays so in a row. -/
theorem GroupSilent.append {tokens more : List Token} (hTokens : GroupSilent tokens)
    (hMore : GroupSilent more) : GroupSilent (tokens ++ more) := by
  intro final previous opened hPrevious
  obtain ⟨hKept, last, hLast, hAfter⟩ := hTokens (ahead final more) previous opened hPrevious
  obtain ⟨hKept', last', hLast', hAfter'⟩ := hMore final last opened hLast
  refine ⟨?_, last', hLast', by rw [List.foldl_append, hAfter, hAfter']⟩
  rw [keptFrom_append, hKept, hAfter, hKept']
  rfl

theorem groupSilent_nil : GroupSilent [] := fun _ previous _ hPrevious =>
  ⟨rfl, previous, hPrevious, rfl⟩

theorem groupSilent_token {token : Token} (hKind : token.kind.isComment = true
      ∨ token.kind = .string ∨ token.kind = .semicolon) : GroupSilent [token] := by
  intro final previous opened hPrevious
  have hDrops : ∀ kind, Scan.drops ⟨previous, true, opened⟩ kind = true := fun _ => rfl
  refine ⟨?_, token.kind, ?_, ?_⟩
  · rw [keptFrom, hDrops, Bool.not_true, Bool.and_false]
    rfl
  · rcases hKind with hKind | hKind | hKind
    · exact (Solid.of_isComment hKind).1
    · rw [hKind]
      decide
    · rw [hKind]
      decide
  · have hKinds : token.kind = .comment ∨ token.kind = .blockComment ∨ token.kind = .string
        ∨ token.kind = .semicolon := by
      rcases hKind with hKind | hKind
      · exact (TokenKind.cases_of_isComment hKind).imp_right .inl
      · exact .inr (.inr hKind)
    rcases hKinds with hKind | hKind | hKind | hKind <;> simp [Scan.after, hKind]

/-- Paths, semicolons and comments are silent in an import group. -/
theorem groupSilent_all {tokens : List Token} (hTokens : ∀ token ∈ tokens,
    token.kind.isComment = true ∨ token.kind = .string ∨ token.kind = .semicolon) :
    GroupSilent tokens := by
  induction tokens with
  | nil => exact groupSilent_nil
  | cons token rest ih =>
      obtain ⟨hToken, hRest⟩ := List.forall_mem_cons.mp hTokens
      exact (groupSilent_token hToken).append (ih hRest)

/-- The paths of a group stand among semicolons and comments only. -/
theorem PathsPhrase.kind_mem_tokens : (paths : PathsPhrase) → ∀ token ∈ paths.tokens,
    token.kind.isComment = true ∨ token.kind = .string ∨ token.kind = .semicolon
  | .done comments, token, hMem => .inl (comments.property token hMem)
  | .more comments path semicolon rest, token, hMem => by
      simp only [tokens, List.mem_append, List.mem_cons] at hMem
      rcases hMem with hMem | rfl | hMem | hMem
      · exact .inl (comments.property token hMem)
      · exact .inr (.inl path.property)
      · cases semicolon with
        | none => exact absurd hMem List.not_mem_nil
        | some mark =>
            rw [List.mem_singleton.mp hMem]
            exact .inr (.inr mark.property)
      · exact rest.kind_mem_tokens token hMem

/-- The parenthesis behind the keyword opens the group, and the next one closes it. -/
theorem scans_importGroup {keyword : Mark .kwImport} {opening : Mark .lparen} (paths : PathsPhrase)
    {closing : Mark .rparen} (final : TokenKind) (opened : List Token) :
    Scans final opened (keyword.val :: opening.val :: (paths.tokens ++ [closing.val])) [] := by
  intro previous hPrevious
  have hKeyword : Scan.after ⟨previous, false, opened⟩ keyword.val = ⟨.kwImport, false, opened⟩ := by
    simp [Scan.after, keyword.property]
  have hOpening : Scan.after ⟨.kwImport, false, opened⟩ opening.val = ⟨.lparen, true, opened⟩ := by
    simp [Scan.after, opening.property]
  have hClosing : ∀ last, Scan.after ⟨last, true, opened⟩ closing.val = ⟨.rparen, false, opened⟩ := by
    intro last
    simp [Scan.after, closing.property]
  obtain ⟨hKept, last, -, hAfter⟩ := groupSilent_all paths.kind_mem_tokens
    (ahead final [closing.val]) .lparen opened (by decide)
  refine ⟨?_, .rparen, ⟨by decide, by decide⟩, ?_⟩
  · rw [keptFrom_cons_other (by rw [keyword.property]; rfl), hKeyword,
      keptFrom_cons_other (by rw [opening.property]; rfl), hOpening, keptFrom_append, hKept, hAfter,
      keptFrom_cons_other (by rw [closing.property]; rfl)]
    rfl
  · rw [List.foldl_cons, hKeyword, List.foldl_cons, hOpening, List.foldl_append, hAfter,
      List.foldl_cons, hClosing, List.foldl_nil]

/-- An import of one path keeps nothing. -/
theorem scans_importOne {keyword : Mark .kwImport} {path : Mark .string} (final : TokenKind)
    (opened : List Token) : Scans final opened [keyword.val, path.val] [] := by
  intro previous hPrevious
  have hKeyword : Scan.after ⟨previous, false, opened⟩ keyword.val = ⟨.kwImport, false, opened⟩ := by
    simp [Scan.after, keyword.property]
  have hPath : Scan.after ⟨.kwImport, false, opened⟩ path.val = ⟨.string, false, opened⟩ := by
    simp [Scan.after, path.property]
  refine ⟨?_, .string, ⟨by decide, by decide⟩, ?_⟩
  · rw [keptFrom_cons_other (by rw [keyword.property]; rfl), hKeyword,
      keptFrom_cons_other (by rw [path.property]; rfl)]
    rfl
  · rw [List.foldl_cons, hKeyword, List.foldl_cons, hPath, List.foldl_nil]

end Groups

/-! ### Statements -/

section Statements

/-- Only a comment starts with a comment. -/
theorem StmtPhrase.comment_or (stmt : StmtPhrase) :
    (∃ token hKind, stmt = .comment token hKind) ∨ (nextKind stmt.tokens).isComment = false := by
  have hSimple : ∀ kind ∈ TokenKind.exprStarts, kind.isComment = false := by decide
  rw [← List.append_nil stmt.tokens]
  cases stmt with
  | comment token hKind => exact .inl ⟨token, hKind, rfl⟩
  | simple phrase => exact .inr (hSimple _ (phrase.nextKind_mem []))
  | branch token hKind =>
      refine .inr ?_
      rw [StmtPhrase.tokens, List.singleton_append, nextKind_cons]
      rcases hKind with hKind | hKind <;> rw [hKind] <;> rfl
  | block body =>
      refine .inr ?_
      rw [StmtPhrase.tokens, body.nextKind_tokens]
      rfl
  | ifElse chain =>
      refine .inr ?_
      rw [StmtPhrase.tokens, chain.nextKind_tokens]
      rfl
  | decl kind keyword =>
      refine .inr ?_
      rw [StmtPhrase.tokens, List.cons_append, nextKind_cons, keyword.property]
      cases kind <;> rfl
  | package keyword | importOne keyword | importGroup keyword | ret keyword | throw keyword
  | func keyword | loop keyword | tryCatch keyword | tryFinally keyword =>
      refine .inr ?_
      rw [StmtPhrase.tokens, List.cons_append, nextKind_cons, keyword.property]
      rfl

/-- No statement starts with a clause. -/
theorem StmtPhrase.startsClause_ahead {final : TokenKind} (hFinal : final.startsClause = false)
    (stmt : StmtPhrase) : (ahead final stmt.tokens).startsClause = false := by
  have hStarts : ∀ kind ∈ TokenKind.stmtStarts, kind.startsClause = false := by decide
  rcases stmt.comment_or with ⟨token, hKind, rfl⟩ | hOther
  · rw [StmtPhrase.tokens, ahead_cons_comment hKind]
    exact hFinal
  · have hStart := stmt.nextKind_mem []
    rw [List.append_nil] at hStart
    cases hTokens : stmt.tokens with
    | nil => exact absurd hTokens stmt.tokens_ne_nil
    | cons token more =>
        rw [hTokens, nextKind_cons] at hStart hOther
        rw [ahead_cons hOther]
        exact hStarts _ hStart

/-- A semicolon starts no clause of a try. -/
theorem startsClause_ahead_semicolon {final : TokenKind} (hFinal : final.startsClause = false)
    (semicolon : Option (Mark .semicolon)) :
    (ahead final (tokensIf (fun mark => [mark.val]) semicolon)).startsClause = false := by
  cases semicolon with
  | none => exact hFinal
  | some mark =>
      rw [tokensIf_some, ahead_cons (by rw [mark.property]; rfl), mark.property]
      rfl

/-- Nor does a list of statements, if it does not stand before one. -/
theorem ItemsPhrase.startsClause_ahead {final : TokenKind} (hFinal : final.startsClause = false) :
    (items : ItemsPhrase) → (ahead final items.tokens).startsClause = false
  | .nil => hFinal
  | .semicolon mark rest => by
      rw [ItemsPhrase.tokens, ahead_cons (by rw [mark.property]; rfl), mark.property]
      rfl
  | .cons stmt ending rest => by
      rw [ItemsPhrase.tokens, ahead_append, ahead_append]
      exact stmt.startsClause_ahead
        (startsClause_ahead_semicolon (rest.startsClause_ahead hFinal) ending)

/-- The keyword of a declaration opens nothing. -/
theorem DeclKind.isInert_tokenKind (kind : DeclKind) : kind.tokenKind.isInert = true := by
  cases kind <;> rfl

/-- The comments of a phrase as they are listed for its tree, and those that it leaves behind. -/
def StmtPhrase.listed (place : Place) (stmt : StmtPhrase) : List (Token × Place) :=
  stmt.tree.comments place ++ stmt.trailing.map fun token => (token, place)

/-- A statement that leaves no comments behind lists its own. -/
theorem StmtPhrase.listed_eq {stmt : StmtPhrase} (hNone : stmt.trailing = []) (place : Place) :
    stmt.listed place = stmt.tree.comments place := by
  rw [listed, hNone, List.map_nil, List.append_nil]

mutual

/-- Going over the tokens of a statement that stands before no clause keeps its comments. -/
theorem StmtPhrase.scans {final : TokenKind} (hFinal : final.startsClause = false)
    (opened : List Token) : (stmt : StmtPhrase) →
      Scans final opened stmt.tokens (stmt.listed (placeIn opened))
  | .package keyword name => ((silent_mark name rfl).mark keyword rfl).scans
  | .importOne _ _ => scans_importOne final opened
  | .importGroup _ _ paths _ => scans_importGroup paths final opened
  | .decl kind keyword name type init => by
      have hInit : Silent (name.val :: tokensIf TypePhrase.tokens type
          ++ tokensIf InitPhrase.tokens init) :=
        ((silent_mark name rfl).withOptional TypePhrase.silent type).withOptional
          InitPhrase.silent init
      exact (hInit.mark keyword kind.isInert_tokenKind).scans
  | .simple phrase => by
      rw [StmtPhrase.listed_eq rfl, StmtPhrase.tree, phrase.comments_tree]
      exact phrase.silent.scans
  | .ret keyword values => ((silent_mark keyword rfl).withOptional ExprsPhrase.silent values).scans
  | .throw keyword value => (value.silent.mark keyword rfl).scans
  | .branch _ hKind =>
      (silent_token (by rcases hKind with hKind | hKind <;> rw [hKind] <;> rfl)).scans
  | .comment token hKind => by
      have hKept := scans_comments final opened
        ⟨[token], fun other hMem => by rw [List.mem_singleton.mp hMem]; exact hKind⟩
      rw [hFinal] at hKept
      exact hKept
  | .block body => by
      rw [StmtPhrase.listed_eq rfl]
      exact body.scans final opened _
  | .func keyword name opening params closing result body => by
      have hBody := result.before (body.scans final opened .elsewhere)
      have hParams : Silent (tokensIf ParamsPhrase.tokens params ++ [closing.val]) :=
        .optional ParamsPhrase.silent params (silent_mark closing rfl)
      have hHeading := ((hParams.mark opening rfl).mark name rfl).mark keyword rfl
      have hBoth := hHeading.before hBody
      rw [StmtPhrase.listed_eq rfl, StmtPhrase.tree, Stmt.comments]
      simpa [StmtPhrase.tokens] using hBoth
  | .ifElse chain => by
      rw [StmtPhrase.listed_eq rfl]
      exact chain.scans final opened _
  | .loop keyword header body => by
      have hBody := header.before (body.scans final opened .elsewhere)
      rw [StmtPhrase.listed_eq rfl, StmtPhrase.tree, header.comments_tree]
      exact hBody.mark keyword rfl
  | .tryCatch keyword body catches comments => by
      have hComments := scans_comments final opened comments
      rw [hFinal] at hComments
      have hRest := (catches.scans (ahead final comments.val) opened .elsewhere).append hComments
      have hTry := ((body.scans _ opened .elsewhere).append hRest).mark keyword rfl
      have hMissing : Stmt.missing.comments .elsewhere = [] := rfl
      rw [StmtPhrase.listed, StmtPhrase.tree, StmtPhrase.trailing, Stmt.comments, hMissing,
        List.append_nil, List.append_assoc]
      exact hTry
  | .tryFinally keyword body catches comments lastly cleanup => by
      have hCleanup := (cleanup.scans final opened .elsewhere).mark lastly rfl
      have hAhead : ahead final (lastly.val :: cleanup.tokens) = .kwFinally := by
        rw [ahead_cons (by rw [lastly.property]; rfl), lastly.property]
      have hComments := scans_comments .kwFinally opened comments
      rw [← hAhead] at hComments
      have hRest := (catches.scans _ opened .elsewhere).append (hComments.append hCleanup)
      have hTry := ((body.scans _ opened .elsewhere).append hRest).mark keyword rfl
      rw [hAhead] at hTry
      rw [StmtPhrase.listed_eq rfl]
      exact hTry

/-- The comments between the braces of a block are those of the block. -/
theorem BlockPhrase.scans (final : TokenKind) (opened : List Token) (place : Place) :
    (block : BlockPhrase) → Scans final opened block.tokens (block.tree.comments place)
  | .mk opening items _ => (items.scans (opening.val :: opened) rfl).braces

/-- The comments of statements in a row are kept in their braces. -/
theorem ItemsPhrase.scans {final : TokenKind} (opened : List Token) : (items : ItemsPhrase) →
    final.startsClause = false →
      Scans final opened items.tokens (Stmt.allComments (placeIn opened) items.trees)
  | .nil, _ => scans_nil
  | .semicolon mark rest, hFinal => (rest.scans opened hFinal).mark mark rfl
  | .cons stmt ending rest, hFinal => by
      have hRest := scans_semicolon ending (rest.scans opened hFinal)
      have hAhead : (ahead final (tokensIf (fun mark => [mark.val]) ending
          ++ rest.tokens)).startsClause = false := by
        rw [ahead_append]
        exact startsClause_ahead_semicolon (rest.startsClause_ahead hFinal) ending
      rw [ItemsPhrase.trees, Stmt.allComments, Stmt.allComments_append,
        Stmt.allComments_commentStmt, ← List.append_assoc]
      exact (stmt.scans hAhead opened).append hRest

/-- The comments of a chain of conditionals are kept in the braces of its arms. -/
theorem IfPhrase.scans (final : TokenKind) (opened : List Token) (place : Place) :
    (chain : IfPhrase) → Scans final opened chain.tokens (chain.tree.comments place)
  | .plain keyword condition body => by
      have hBody := condition.silent.before (body.scans final opened .elsewhere)
      have hMissing : Stmt.missing.comments .elsewhere = [] := rfl
      rw [IfPhrase.tree, Stmt.comments, hMissing, List.append_nil]
      exact hBody.mark keyword rfl
  | .elseIf keyword condition body otherwise chain =>
      (condition.silent.before ((body.scans _ opened .elsewhere).append
        ((chain.scans final opened .elsewhere).mark otherwise rfl))).mark keyword rfl
  | .elseBlock keyword condition body otherwise alternative =>
      (condition.silent.before ((body.scans _ opened .elsewhere).append
        ((alternative.scans final opened .elsewhere).mark otherwise rfl))).mark keyword rfl

/-- The comments in front of a catch clause are dropped. -/
theorem CatchesPhrase.scans (final : TokenKind) (opened : List Token) (place : Place) :
    (catches : CatchesPhrase) →
      Scans final opened catches.tokens (Stmt.allComments place catches.trees)
  | .nil => scans_nil
  | .cons comments keyword binding body rest => by
      have hBodies := (body.scans _ opened .elsewhere).append (rest.scans final opened place)
      have hHeading : Silent (keyword.val :: tokensIf BindingPhrase.tokens binding) :=
        (silent_mark keyword rfl).withOptional BindingPhrase.silent binding
      have hComments := scans_comments .kwCatch opened comments
      have hAhead : ahead final (keyword.val :: (tokensIf BindingPhrase.tokens binding
          ++ (body.tokens ++ rest.tokens))) = .kwCatch := by
        rw [ahead_cons (by rw [keyword.property]; rfl), keyword.property]
      rw [← hAhead] at hComments
      have hClause := hComments.append (hHeading.before hBodies)
      rw [hAhead] at hClause
      cases binding with
      | none => exact hClause
      | some binding => exact hClause

end

end Statements

end TryGo
