import TryGo.Proofs.Again.Program
import TryGo.Proofs.GoType.Spelled

/-! What becomes of quoted literals. Printing lays out the parentheses, semicolons and comments of a
program anew and keeps every other token, but for the sizes of arrays. So the output has the quoted
literals of its source, unless one stands for a size, or breaks off at the end of the source. -/
namespace TryGo

/-! ### Tokens that are kept -/

/-- The kinds that printing lays out anew. -/
def TokenKind.loose : List TokenKind := [.lparen, .rparen, .semicolon, .comment, .blockComment]

/-- The tokens of the other kinds. -/
def firm (tokens : List Token) : List Token :=
  tokens.filter fun token => !TokenKind.loose.contains token.kind

@[simp] theorem firm_nil : firm [] = [] := rfl

@[simp] theorem firm_append (tokens more : List Token) :
    firm (tokens ++ more) = firm tokens ++ firm more := List.filter_append tokens more

/-- A token is firm unless its kind is loose. -/
theorem firm_cons (token : Token) (tokens : List Token) :
    firm (token :: tokens) =
      if TokenKind.loose.contains token.kind then firm tokens else token :: firm tokens := by
  rw [firm, List.filter_cons]
  cases TokenKind.loose.contains token.kind <;> rfl

/-- A token of a loose kind is not firm. -/
theorem firm_loose {kind : TokenKind} (mark : Mark kind) (tokens : List Token)
    (hLoose : TokenKind.loose.contains kind = true) : firm (mark.val :: tokens) = firm tokens := by
  rw [firm_cons, mark.property, if_pos hLoose]

/-- No comment is firm. -/
theorem firm_comments (comments : Comments) : firm comments.val = [] := by
  refine List.filter_eq_nil_iff.mpr fun token hMem => ?_
  rcases TokenKind.cases_of_isComment (comments.property token hMem) with hKind | hKind <;>
    simp [hKind, TokenKind.loose]

/-- What is printed for an optional part keeps its firm tokens if the part does. -/
theorem firm_tokensIf {α : Type} {tokens : α → List Token} {f : α → α}
    (hParts : ∀ part, firm (tokens (f part)) = firm (tokens part)) (part : Option α) :
    firm (tokensIf tokens (part.map f)) = firm (tokensIf tokens part) := by
  cases part with
  | none => rfl
  | some part => exact hParts part

theorem firm_semicolon (semicolon : Option (Mark .semicolon)) :
    firm (tokensIf (fun mark => [mark.val]) semicolon) = [] := by
  cases semicolon with
  | none => rfl
  | some mark => exact firm_loose mark [] (by decide)

/-! ### Expressions -/

/-- Brackets are loose, so a group has the firm tokens of what is in it. -/
theorem ExprPhrase.firm_groupIf (wanted : Bool) (phrase : ExprPhrase) :
    firm (phrase.groupIf wanted).tokens = firm phrase.tokens := by
  cases wanted with
  | false => rfl
  | true =>
      change firm (printedOpening.val :: (phrase.tokens ++ [printedClosing.val])) = _
      rw [firm_loose printedOpening _ (by decide), firm_append,
        firm_loose printedClosing _ (by decide), firm_nil, List.append_nil]

mutual

/-- Only parentheses are put into an expression and taken from it. -/
theorem ExprPhrase.firm_printed : (phrase : ExprPhrase) →
    firm phrase.printed.tokens = firm phrase.tokens
  | .atom _ _ _ => rfl
  | .group opening inner closing => by
      rw [ExprPhrase.printed, ExprPhrase.tokens, firm_loose opening _ (by decide), firm_append,
        firm_loose closing _ (by decide), firm_nil, List.append_nil, inner.firm_printed]
  | .unary op _ operand => by
      simp only [ExprPhrase.printed, ExprPhrase.tokens, firm_cons, ExprPhrase.firm_groupIf,
        operand.firm_printed]
  | .binary left op _ right => by
      simp only [ExprPhrase.printed, ExprPhrase.tokens, firm_append, firm_cons,
        ExprPhrase.firm_groupIf, left.firm_printed, right.firm_printed]
  | .callEmpty callee opening closing => by
      simp only [ExprPhrase.printed, ExprPhrase.tokens, firm_append, ExprPhrase.firm_groupIf,
        callee.firm_printed]
  | .call callee opening args closing => by
      simp only [ExprPhrase.printed, ExprPhrase.tokens, firm_append, firm_cons,
        ExprPhrase.firm_groupIf, callee.firm_printed, args.firm_printed]
  | .select left dot field => by
      simp only [ExprPhrase.printed, ExprPhrase.tokens, firm_append, ExprPhrase.firm_groupIf,
        left.firm_printed]
  | .index left opening position closing => by
      simp only [ExprPhrase.printed, ExprPhrase.tokens, firm_append, firm_cons,
        ExprPhrase.firm_groupIf, left.firm_printed, position.firm_printed]

theorem ExprsPhrase.firm_printed : (phrase : ExprsPhrase) →
    firm phrase.printed.tokens = firm phrase.tokens
  | .last e => e.firm_printed
  | .more e comma rest => by
      simp only [ExprsPhrase.printed, ExprsPhrase.tokens, firm_append, firm_cons, e.firm_printed,
        rest.firm_printed]

end

/-! ### Parts of statements -/

/-- A simple statement is printed with its firm tokens. -/
theorem SimplePhrase.firm_printed (phrase : SimplePhrase) :
    firm phrase.printed.tokens = firm phrase.tokens := by
  cases phrase with
  | define names op values | assign names op hOp values =>
      simp only [SimplePhrase.printed, SimplePhrase.tokens, firm_append, firm_cons,
        names.firm_printed, values.firm_printed]
  | incr target op hOp =>
      simp only [SimplePhrase.printed, SimplePhrase.tokens, firm_append,
        ExprPhrase.firm_groupIf, target.firm_printed]
  | expr value => exact value.firm_printed

theorem InitPhrase.firm_printed (init : InitPhrase) :
    firm init.printed.tokens = firm init.tokens := by
  simp only [InitPhrase.printed, InitPhrase.tokens, firm_cons, init.value.firm_printed]

/-- The header of a loop is printed with its firm tokens, semicolons or not. -/
theorem LoopPhrase.firm_printed (header : LoopPhrase) :
    firm header.printed.tokens = firm header.tokens := by
  have hClauses (init : Option SimplePhrase) (first second : Mark .semicolon)
      (condition : Option ExprPhrase) (update : Option SimplePhrase) :
      firm (LoopPhrase.clauses (init.map SimplePhrase.printed) first
          (condition.map ExprPhrase.printed) second (update.map SimplePhrase.printed)).tokens =
        firm (LoopPhrase.clauses init first condition second update).tokens := by
    simp only [LoopPhrase.tokens, firm_append, firm_cons, firm_tokensIf SimplePhrase.firm_printed,
      firm_tokensIf ExprPhrase.firm_printed]
  unfold LoopPhrase.printed
  split
  · rfl
  · exact ExprPhrase.firm_printed _
  · simp [LoopPhrase.tokens, firm_loose _ _ (by decide : TokenKind.loose.contains .semicolon = true)]
  · simp [LoopPhrase.tokens, firm_loose _ _ (by decide : TokenKind.loose.contains .semicolon = true),
      ExprPhrase.firm_printed]
  · exact hClauses _ _ _ _ _

theorem PathsPhrase.firm_printed : (paths : PathsPhrase) →
    firm paths.printed.tokens = firm paths.tokens
  | .done comments => (firm_comments comments).symm
  | .more comments path semicolon rest => by
      simp only [PathsPhrase.printed, PathsPhrase.tokens, firm_append, firm_cons, firm_comments,
        firm_semicolon, rest.firm_printed, val_noComments, tokensIf_none, List.nil_append]

/-- A type is printed with its firm tokens if its sizes stand bare. -/
theorem firm_printedType (type : Option TypePhrase)
    (hBare : SizesBare (leavesIf TypePhrase.leaves type)) :
    firm (tokensIf TypePhrase.tokens (type.map TypePhrase.printed)) =
      firm (tokensIf TypePhrase.tokens type) := by
  cases type with
  | none => rfl
  | some type => exact congrArg firm (TypePhrase.tokens_printed_of_bare hBare)

theorem ParamPhrase.firm_printed (param : ParamPhrase) (hBare : SizesBare param.leaves) :
    firm param.printed.tokens = firm param.tokens := by
  simp only [ParamPhrase.leaves, sizesBare_word] at hBare
  simp only [ParamPhrase.printed, ParamPhrase.tokens, firm_cons, firm_printedType param.type hBare]

theorem ParamsPhrase.firm_printed : (params : ParamsPhrase) → SizesBare params.leaves →
    firm params.printed.tokens = firm params.tokens
  | .last param, hBare => param.firm_printed hBare
  | .more param comma rest, hBare => by
      simp only [ParamsPhrase.leaves, sizesBare_word, sizesBare_append] at hBare
      simp only [ParamsPhrase.printed, ParamsPhrase.tokens, firm_append, firm_cons,
        param.firm_printed hBare.1, rest.firm_printed hBare.2]

theorem firm_printedParams (params : Option ParamsPhrase)
    (hBare : SizesBare (leavesIf ParamsPhrase.leaves params)) :
    firm (tokensIf ParamsPhrase.tokens (params.map ParamsPhrase.printed)) =
      firm (tokensIf ParamsPhrase.tokens params) := by
  cases params with
  | none => rfl
  | some params => exact params.firm_printed hBare

theorem ResultPhrase.firm_printed (result : ResultPhrase) (hBare : SizesBare result.leaves) :
    firm result.printed.tokens = firm result.tokens := by
  cases result with
  | none => rfl
  | single type => exact congrArg firm (TypePhrase.tokens_printed_of_bare hBare)
  | tuple types => exact congrArg firm (TuplePhrase.tokens_printed_of_bare hBare)

/-! ### Statements -/

/-- An import group is kept as its keyword and its paths. -/
theorem firm_importGroup (keyword : Mark .kwImport) (opening : Mark .lparen) (paths : PathsPhrase)
    (closing : Mark .rparen) :
    firm (StmtPhrase.importGroup keyword opening paths closing).tokens =
      firm (keyword.val :: paths.tokens) := by
  rw [StmtPhrase.tokens, firm_cons, firm_loose opening _ (by decide), firm_append,
    firm_loose closing _ (by decide), firm_nil, List.append_nil, ← firm_cons]

/-- A group of one path is printed without its brackets, which are loose. -/
theorem StmtPhrase.firm_printedGroup (keyword : Mark .kwImport) (opening : Mark .lparen)
    (closing : Mark .rparen) (paths : PathsPhrase) :
    firm (StmtPhrase.printedGroup keyword opening closing paths).tokens =
      firm (StmtPhrase.importGroup keyword opening paths closing).tokens := by
  rw [firm_importGroup, firm_cons, ← paths.firm_printed, ← firm_cons]
  unfold StmtPhrase.printedGroup
  split
  · rfl
  · exact firm_importGroup keyword opening _ closing

mutual

/-- Printing a statement keeps its firm tokens. -/
theorem StmtPhrase.firm_printed : (stmt : StmtPhrase) → SizesBare stmt.leaves →
    firm stmt.printed.tokens = firm stmt.tokens
  | .package _ _, _ | .importOne _ _, _ | .branch _ _, _ | .throw _ _, _ | .tryCatch _ _ _ _, _
  | .tryFinally _ _ _ _ _ _, _ => rfl
  | .importGroup keyword opening paths closing, _ =>
      StmtPhrase.firm_printedGroup keyword opening closing paths
  | .decl kind keyword name type init, hBare => by
      simp only [StmtPhrase.leaves, sizesBare_word, sizesBare_append] at hBare
      simp only [StmtPhrase.printed, StmtPhrase.tokens, firm_cons, firm_append,
        firm_printedType type hBare.1, firm_tokensIf InitPhrase.firm_printed]
  | .simple phrase, _ => phrase.firm_printed
  | .ret keyword values, _ => by
      simp only [StmtPhrase.printed, StmtPhrase.tokens, firm_cons,
        firm_tokensIf ExprsPhrase.firm_printed]
  | .comment token hKind, _ =>
      (firm_comments ⟨[token.printedComment], by simpa [Token.printedComment] using hKind⟩).trans
        (firm_comments ⟨[token], by simpa using hKind⟩).symm
  | .block body, hBare => body.firm_printed hBare
  | .func keyword name opening params closing result body, hBare => by
      simp only [StmtPhrase.leaves, sizesBare_word, sizesBare_append] at hBare
      simp only [StmtPhrase.printed, StmtPhrase.tokens, firm_cons, firm_append,
        firm_printedParams params hBare.1, result.firm_printed hBare.2.1,
        body.firm_printed hBare.2.2]
  | .ifElse chain, hBare => chain.firm_printed hBare
  | .loop keyword header body, hBare => by
      simp only [StmtPhrase.leaves, sizesBare_word, sizesBare_append] at hBare
      simp only [StmtPhrase.printed, StmtPhrase.tokens, firm_cons, firm_append, header.firm_printed,
        body.firm_printed hBare.2]

/-- A block is printed with the firm tokens of its statements. -/
theorem BlockPhrase.firm_printed : (body : BlockPhrase) → SizesBare body.leaves →
    firm body.printed.tokens = firm body.tokens
  | .mk opening items closing, hBare => by
      simp only [BlockPhrase.leaves, sizesBare_word, sizesBare_append] at hBare
      simp only [BlockPhrase.printed, BlockPhrase.tokens, firm_cons, firm_append,
        items.firm_printed hBare.1]

theorem ItemsPhrase.firm_printed : (items : ItemsPhrase) → SizesBare items.leaves →
    firm items.printed.tokens = firm items.tokens
  | .nil, _ => rfl
  | .semicolon mark rest, hBare => by
      simp only [ItemsPhrase.leaves, sizesBare_word] at hBare
      rw [ItemsPhrase.printed, ItemsPhrase.tokens, firm_loose mark _ (by decide),
        rest.firm_printed hBare]
  | .cons stmt semicolon rest, hBare => by
      simp only [ItemsPhrase.leaves, sizesBare_append] at hBare
      simp only [ItemsPhrase.printed, ItemsPhrase.tokens, firm_append, firm_semicolon,
        tokensIf_none, firm_nil, stmt.firm_printed hBare.1, rest.firm_printed hBare.2.2]

/-- A chain of conditionals is printed with its firm tokens. -/
theorem IfPhrase.firm_printed : (chain : IfPhrase) → SizesBare chain.leaves →
    firm chain.printed.tokens = firm chain.tokens
  | .plain keyword condition body, hBare => by
      simp only [IfPhrase.leaves, sizesBare_word, sizesBare_append] at hBare
      simp only [IfPhrase.printed, IfPhrase.tokens, firm_cons, firm_append, condition.firm_printed,
        body.firm_printed hBare.2]
  | .elseIf keyword condition body otherwise chain, hBare => by
      simp only [IfPhrase.leaves, sizesBare_word, sizesBare_append] at hBare
      simp only [IfPhrase.printed, IfPhrase.tokens, firm_cons, firm_append, condition.firm_printed,
        body.firm_printed hBare.2.1, chain.firm_printed hBare.2.2]
  | .elseBlock keyword condition body otherwise alternative, hBare => by
      simp only [IfPhrase.leaves, sizesBare_word, sizesBare_append] at hBare
      simp only [IfPhrase.printed, IfPhrase.tokens, firm_cons, firm_append, condition.firm_printed,
        body.firm_printed hBare.2.1, alternative.firm_printed hBare.2.2]

end

/-! ### Where the sizes of a program stand -/

/-- An optional part keeps its sizes in brackets if the part does. -/
theorem sizesInside_leavesIf {α : Type} {leaves : α → List Leaf}
    (hParts : ∀ part, SizesInside (leaves part)) (part : Option α) :
    SizesInside (leavesIf leaves part) := by
  cases part with
  | none => exact sizesInside_words []
  | some part => exact hParts part

theorem sizesInside_semicolon (semicolon : Option (Mark .semicolon)) :
    SizesInside (leavesIf (fun mark => [.word mark.val]) semicolon) := by
  cases semicolon with
  | none => exact sizesInside_words []
  | some mark => exact sizesInside_words [mark.val]

theorem ParamPhrase.sizesInside (param : ParamPhrase) : SizesInside param.leaves :=
  sizesInside_word param.name.val (sizesInside_leavesIf TypePhrase.sizesInside param.type)

theorem ParamsPhrase.sizesInside : (params : ParamsPhrase) → SizesInside params.leaves
  | .last param => param.sizesInside
  | .more param comma rest =>
      param.sizesInside.append (sizesInside_word comma.val rest.sizesInside)

theorem ResultPhrase.sizesInside (result : ResultPhrase) : SizesInside result.leaves := by
  cases result with
  | none => exact sizesInside_words []
  | single type => exact type.sizesInside
  | tuple types => exact types.sizesInside

theorem PathsPhrase.sizesInside : (paths : PathsPhrase) → SizesInside paths.leaves
  | .done comments => sizesInside_groupComments comments.val
  | .more comments path semicolon rest =>
      (sizesInside_groupComments comments.val).append (sizesInside_word path.val
        ((sizesInside_semicolon semicolon).append rest.sizesInside))

theorem BindingPhrase.sizesInside (binding : BindingPhrase) : SizesInside binding.leaves :=
  sizesInside_word binding.opening.val (sizesInside_word binding.name.val
    ((sizesInside_leavesIf TypePhrase.sizesInside binding.type).append
      (sizesInside_words [binding.closing.val])))

mutual

/-- Every size of a statement stands in the brackets of an array. -/
theorem StmtPhrase.sizesInside : (stmt : StmtPhrase) → SizesInside stmt.leaves
  | .package keyword name => sizesInside_words [keyword.val, name.val]
  | .importOne keyword path => sizesInside_words [keyword.val, path.val]
  | .importGroup keyword opening paths closing =>
      sizesInside_word keyword.val (sizesInside_word opening.val
        (paths.sizesInside.append (sizesInside_words [closing.val])))
  | .decl _ keyword name type _ =>
      sizesInside_word keyword.val (sizesInside_word name.val
        ((sizesInside_leavesIf TypePhrase.sizesInside type).append (sizesInside_words _)))
  | .simple _ => sizesInside_words _
  | .ret keyword _ => sizesInside_word keyword.val (sizesInside_words _)
  | .throw keyword _ => sizesInside_word keyword.val (sizesInside_words _)
  | .branch token _ | .comment token _ => sizesInside_words [token]
  | .block body => body.sizesInside
  | .func keyword name opening params closing result body =>
      sizesInside_word keyword.val (sizesInside_word name.val (sizesInside_word opening.val
        ((sizesInside_leavesIf ParamsPhrase.sizesInside params).append
          (sizesInside_word closing.val (result.sizesInside.append body.sizesInside)))))
  | .ifElse chain => chain.sizesInside
  | .loop keyword _ body =>
      sizesInside_word keyword.val ((sizesInside_words _).append body.sizesInside)
  | .tryCatch keyword body catches _ =>
      sizesInside_word keyword.val (body.sizesInside.append
        (catches.sizesInside.append (sizesInside_words _)))
  | .tryFinally keyword body catches _ lastly cleanup =>
      sizesInside_word keyword.val (body.sizesInside.append (catches.sizesInside.append
        ((sizesInside_words _).append (sizesInside_word lastly.val cleanup.sizesInside))))

theorem BlockPhrase.sizesInside : (body : BlockPhrase) → SizesInside body.leaves
  | .mk opening items closing =>
      sizesInside_word opening.val (items.sizesInside.append (sizesInside_words [closing.val]))

theorem ItemsPhrase.sizesInside : (items : ItemsPhrase) → SizesInside items.leaves
  | .nil => sizesInside_words []
  | .semicolon mark rest => sizesInside_word mark.val rest.sizesInside
  | .cons stmt semicolon rest =>
      stmt.sizesInside.append ((sizesInside_semicolon semicolon).append rest.sizesInside)

theorem IfPhrase.sizesInside : (chain : IfPhrase) → SizesInside chain.leaves
  | .plain keyword _ body =>
      sizesInside_word keyword.val ((sizesInside_words _).append body.sizesInside)
  | .elseIf keyword _ body otherwise chain =>
      sizesInside_word keyword.val ((sizesInside_words _).append
        (body.sizesInside.append (sizesInside_word otherwise.val chain.sizesInside)))
  | .elseBlock keyword _ body otherwise alternative =>
      sizesInside_word keyword.val ((sizesInside_words _).append
        (body.sizesInside.append (sizesInside_word otherwise.val alternative.sizesInside)))

theorem CatchesPhrase.sizesInside : (catches : CatchesPhrase) → SizesInside catches.leaves
  | .nil => sizesInside_words []
  | .cons _ keyword binding body rest =>
      (sizesInside_words _).append (sizesInside_word keyword.val
        ((sizesInside_leavesIf BindingPhrase.sizesInside binding).append
          (body.sizesInside.append rest.sizesInside)))

end

/-! ### Quoted literals -/

/-- Whether a kind is one of literals in quotes. -/
def TokenKind.isQuotation (kind : TokenKind) : Bool :=
  [TokenKind.string, .rawString, .char].contains kind

/-- The kinds and literals of the quoted literals among some tokens. -/
def quotations (tokens : List Token) : List Spelling :=
  (tokens.map Token.spelling).filter fun spelling => spelling.1.isQuotation

/-- Quoted literals are among the tokens that are kept. -/
theorem quotations_eq_firm (tokens : List Token) :
    quotations tokens = ((firm tokens).filter fun token => token.kind.isQuotation).map
      Token.spelling := by
  have hKinds : ∀ kind : TokenKind,
      (kind.isQuotation && !TokenKind.loose.contains kind) = kind.isQuotation := by
    intro kind
    cases kind <;> rfl
  rw [quotations, firm, List.filter_map, List.filter_filter]
  refine congrArg _ (List.filter_congr fun token _ => ?_)
  exact (hKinds token.kind).symm

/-- If two sequences of tokens have the same quoted literals, all of one are closed if all of the
other are. -/
theorem isClosed_of_quotations {tokens others : List Token}
    (hSame : quotations tokens = quotations others)
    (hClosed : ∀ token ∈ tokens, token.isClosed = true) :
    ∀ token ∈ others, token.isClosed = true := by
  intro token hMem
  by_cases hKind : token.kind ∈ [.string, .char]
  · have hQuotation : token.kind.isQuotation = true := by
      revert hKind
      cases token.kind <;> decide
    have hSpelling : token.spelling ∈ quotations tokens := by
      rw [hSame]
      exact List.mem_filter.mpr ⟨List.mem_map_of_mem hMem, hQuotation⟩
    obtain ⟨other, hOther, hEq⟩ := List.mem_map.mp (List.mem_filter.mp hSpelling).1
    have hOtherClosed := hClosed other hOther
    obtain ⟨hEqKind, hEqLiteral⟩ := Prod.mk.inj hEq
    unfold Token.isClosed at hOtherClosed ⊢
    rw [← hEqKind, ← hEqLiteral]
    exact hOtherClosed
  · exact Token.isClosed_of_kind hKind

/-- The text of lines does not end in a backslash. -/
theorem getLast?_sourceText (lines : List Go.Line) :
    (Go.sourceText lines).toList.getLast? ≠ some '\\' := by
  rcases List.eq_nil_or_concat lines with rfl | ⟨front, line, rfl⟩
  · decide
  · rw [List.concat_eq_append, sourceText_append]
    simp [Go.sourceText]

/-- A source without a try or a throw that is read without a report has a phrase of all its tokens
and is transpiled. Whichever such phrase tells which tokens are the sizes of arrays, if none of
these is a quoted literal or a line comment, the output has the quoted literals of the source just
if all of them are closed. One that breaks off behind a backslash at the end of the source takes in
the quote that is printed behind it. -/
theorem quotations_goSource (source : String) (filename : Option String) (program : Program)
    (hResult : (parse source).result = .ok program) (hReports : (parse source).reports = [])
    (hPlain : program.isPlain = true) :
    (∃ items : ItemsPhrase, items.tokens = (Lexer.ofString source).words ∧ items.Fits .eof
      ∧ items.trees = program.statements)
    ∧ ∃ output, goSource source filename = .ok output
      ∧ ∀ items : ItemsPhrase, items.tokens = (Lexer.ofString source).words → items.Fits .eof →
          (∀ size, Leaf.size size ∈ items.leaves →
            size.kind ∉ [.string, .rawString, .char, .comment]) →
          (quotations (Lexer.ofString output).words = quotations (Lexer.ofString source).words
            ↔ ∀ token ∈ (Lexer.ofString source).words, token.isClosed = true) := by
  have hOutput := program.goSource_of_isPlain hPlain (Parse.allShaped_readFrom hResult)
  refine ⟨exists_items_of_parse hResult hReports, Go.sourceText program.lines,
    goSource_of_program hResult hReports hOutput filename, fun items hTokens hFits hSizes => ?_⟩
  refine ⟨fun hSame => isClosed_of_quotations hSame
    (Lexer.isClosed _ (getLast?_sourceText program.lines)), fun hClosed => ?_⟩
  have hSound : AllSound items.tokens := by
    rw [hTokens]
    exact (Lexer.ofString source).sound hClosed
  have hWhole : ∀ size, Leaf.size size ∈ items.leaves → size.kind.omitsEnd = false := by
    intro size hMem
    have hKind := hSizes size hMem
    revert hKind
    cases size.kind <;> decide
  have hWords : items.leaves.map Leaf.token <:+: (Lexer.ofString source).words := by
    rw [items.map_token_leaves, hTokens]
  obtain ⟨hStand, hBare⟩ := items.sizesInside.stand hWords hWhole
  have hTrees := trees_of_parse hResult hTokens hFits
  calc quotations (Lexer.ofString (Go.sourceText program.lines)).words
      = quotations items.printed.tokens := by
        rw [quotations, map_spelling_sourceText hSound hStand hTrees hPlain, quotations]
    _ = quotations items.tokens := by
        rw [quotations_eq_firm, quotations_eq_firm, items.firm_printed hBare]
    _ = quotations (Lexer.ofString source).words := by rw [hTokens]

/-- A source with an array and with marks of comments and of literals inside literals. -/
def quotingSource : String := "var t [4]rune = f(\"// \\\"\", '\\'')"

/-- The size of this array is an integer. -/
theorem quotingSize_ne : (Mark.inline .int "4" 7).val.kind ≠ .rbracket := by decide

def quotingType : TypePhrase :=
  .array (.inline .lbracket "[" 6) (Mark.inline .int "4" 7).val quotingSize_ne
    (.inline .rbracket "]" 8) (.named (.inline .ident "rune" 9))

def quotingStmt : StmtPhrase :=
  .decl .var (.inline .kwVar "var" 0) (.inline .ident "t" 4) (some quotingType)
    (some ⟨.inline .assign "=" 14,
      .call (.inline "f" 16) (.inline .lparen "(" 17)
        (.more (.atom (Mark.inline .string "// \\\"" 18).val _ rfl) (.inline .comma "," 25)
          (.last (.atom (Mark.inline .char "\\'" 27).val _ rfl)))
        (.inline .rparen ")" 31)⟩)

def quotingItems : ItemsPhrase := .cons quotingStmt none .nil

/-- Its output has the same two quoted literals. -/
theorem quotations_goSource_quotingSource :
    ∃ program output, (parse quotingSource).result = .ok program
      ∧ (parse quotingSource).reports = [] ∧ program.isPlain = true
      ∧ goSource quotingSource none = .ok output
      ∧ quotations (Lexer.ofString output).words = [(.string, "// \\\""), (.char, "\\'")] := by
  have hTokens : quotingItems.tokens = (Lexer.ofString quotingSource).words := by decide +kernel
  have hType (phrase : TypePhrase) (hPhrase : some quotingType = some phrase) :
      phrase.isVariadic = false ∧ phrase.Fits .assign :=
    Option.some.inj hPhrase ▸ ⟨rfl, (by decide : TokenKind.assign ≠ .dot)⟩
  have hFits : quotingItems.Fits .eof :=
    ⟨⟨hType, ⟨by decide, trivial, trivial, trivial⟩, by decide⟩, by decide, trivial⟩
  have hParse := parse_of_items hTokens hFits
  have hResult := congrArg Parse.Reading.result hParse
  have hReports := congrArg Parse.Reading.reports hParse
  have hPlain : Stmt.allPlain quotingItems.trees = true := by decide
  have hSizes : ∀ size, Leaf.size size ∈ quotingItems.leaves →
      size.kind ∉ [.string, .rawString, .char, .comment] := by
    intro size hMem
    have hSize : size = (Mark.inline .int "4" 7).val := by
      simpa [quotingItems, quotingStmt, quotingType, ItemsPhrase.leaves, StmtPhrase.leaves,
        TypePhrase.leaves, words] using hMem
    rw [hSize]
    decide
  obtain ⟨-, output, hOutput, hSame⟩ :=
    quotations_goSource quotingSource none _ hResult hReports hPlain
  have hClosed : ∀ token ∈ (Lexer.ofString quotingSource).words, token.isClosed = true := by
    decide +kernel
  refine ⟨_, output, hResult, hReports, hPlain, hOutput, ?_⟩
  rw [(hSame quotingItems hTokens hFits hSizes).mpr hClosed]
  decide +kernel

/-- Whether a source without a try or a throw is read without a report, but its output has other
quoted literals. -/
def ChangesQuotations (source : String) : Prop :=
  (parse source).reports = [] ∧ (parse source).result.toOption.map Program.isPlain = some true
    ∧ ∃ output, goSource source none = .ok output
      ∧ quotations (Lexer.ofString output).words ≠ quotations (Lexer.ofString source).words

/-- A source changes its quotations as soon as one output of it has others. -/
theorem changesQuotations_of_output {source : String} (output : String)
    (hReports : (parse source).reports = [])
    (hPlain : (parse source).result.toOption.map Program.isPlain = some true)
    (hOutput : (goSource source none).toOption = some output)
    (hQuotations : quotations (Lexer.ofString output).words ≠
      quotations (Lexer.ofString source).words) : ChangesQuotations source :=
  ⟨hReports, hPlain, output, goSource_of_toOption hOutput, hQuotations⟩

/-- The size of an array loses its quotes, and the quote behind a backslash at the end of a source
closes nothing. -/
theorem quotations_goSource_changes :
    ChangesQuotations "var t ['\\n']string" ∧ ChangesQuotations "a := \"b\\" := by
  refine ⟨changesQuotations_of_output "var t [\\n]string\n" ?_ ?_ ?_ ?_,
    changesQuotations_of_output "a := \"b\\\"\n" ?_ ?_ ?_ ?_⟩ <;> decide +kernel

end TryGo
