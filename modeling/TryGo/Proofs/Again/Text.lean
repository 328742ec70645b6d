import TryGo.Proofs.Again.Stmt
import TryGo.Proofs.PassThrough.Stmt

/-! The words of printed lines. The text of the lines of a statement is divided into the tokens of
its printed phrase, whatever stands behind the last line. -/
namespace TryGo

/-- Whether the text of a line is divided into some words in front of the end of the line. -/
def Go.Code.Spells (code : Go.Code) (words : List Spelling) : Prop :=
  ∀ rest, spellings (code.text.toList ++ '\n' :: rest) = words ++ spellings rest

/-- Whether the text of some lines is divided into some words in front of whatever follows. -/
def LinesSpell (lines : List Go.Line) (words : List Spelling) : Prop :=
  ∀ rest, spellings ((Go.sourceText lines).toList ++ rest) = words ++ spellings rest

section Lines

variable {code : Go.Code} {lines more : List Go.Line} {words others : List Spelling} {depth : Nat}

theorem linesSpell_nil : LinesSpell [] [] := fun _ => rfl

/-- Lines spell whatever equals what they spell. -/
theorem LinesSpell.of_eq (hLines : LinesSpell lines words) (hWords : words = others) :
    LinesSpell lines others := hWords ▸ hLines

/-- Tabs in front of a line spell nothing. -/
theorem spellings_tabs (depth : Nat) (rest : List Char) :
    spellings ((Text.repeated "\t" depth).toList ++ rest) = spellings rest := by
  induction depth generalizing rest with
  | zero => rfl
  | succ depth ih =>
      rw [Text.repeated, String.toList_append, List.append_assoc, ih]
      exact spellings_blank (by decide) rest

/-- The depth of a line does not matter, nor does it that a line without text has none. -/
theorem Go.Code.Spells.line (hCode : code.Spells words) (rest : List Char) :
    spellings ((Go.Line.text ⟨depth, code⟩).toList ++ '\n' :: rest) = words ++ spellings rest := by
  rw [Go.Line.text]
  split
  next hEmpty =>
    have hText := hCode rest
    rwa [beq_iff_eq.mp hEmpty] at hText
  next =>
    rw [String.toList_append, List.append_assoc, spellings_tabs, hCode rest]

/-- A line in front spells its own words first. -/
theorem LinesSpell.cons (hCode : code.Spells words) (hLines : LinesSpell lines others) :
    LinesSpell (⟨depth, code⟩ :: lines) (words ++ others) := by
  intro rest
  have hText : (Go.sourceText (⟨depth, code⟩ :: lines)).toList ++ rest =
      (Go.Line.text ⟨depth, code⟩).toList ++ '\n' :: ((Go.sourceText lines).toList ++ rest) := by
    simp [Go.sourceText]
  rw [hText, hCode.line, hLines rest, List.append_assoc]

theorem sourceText_append (lines more : List Go.Line) :
    Go.sourceText (lines ++ more) = Go.sourceText lines ++ Go.sourceText more := by
  rw [Go.sourceText, Go.sourceText, Go.sourceText, List.map_append]
  induction lines.map fun line => line.text ++ "\n" with
  | nil => rw [List.nil_append, Text.concat_nil, String.empty_append]
  | cons text texts ih => rw [List.cons_append, Text.concat_cons, Text.concat_cons, ih,
      String.append_assoc]

/-- Lines in a row spell their words in a row. -/
theorem LinesSpell.append (hLines : LinesSpell lines words) (hMore : LinesSpell more others) :
    LinesSpell (lines ++ more) (words ++ others) := by
  intro rest
  rw [sourceText_append, String.toList_append, List.append_assoc, hLines, hMore, List.append_assoc]

/-- What a code spells, a line of it spells at any depth. -/
theorem Go.Code.Spells.single (hCode : code.Spells words) : LinesSpell [⟨depth, code⟩] words :=
  (LinesSpell.cons hCode linesSpell_nil).of_eq (List.append_nil words)

end Lines

/-! ### Single lines -/

section Codes

variable {words : List Spelling}

/-- The line of a package clause spells its keyword and its name. -/
theorem spells_package (keyword : Mark .kwPackage) (name : Mark .ident)
    (hKeyword : keyword.val.Lexed) (hName : name.val.Lexed) :
    (Go.Code.package name.val.literal).Spells [keyword.val.spelling, name.val.spelling] := by
  intro rest
  have hText : (Go.Code.package name.val.literal).text.toList ++ '\n' :: rest =
      "package".toList ++ ' ' :: (name.val.literal.toList ++ '\n' :: rest) := by
    simp [Go.Code.text]
  rw [hText, spellings_keyword_space "package" .kwPackage _ rfl rfl,
    spellings_name (isName_mark name hName) (not_isWordChar_head (by decide)),
    spellings_blank (by decide), keyword.spelling_eq hKeyword rfl, name.spelling_ident]
  rfl

/-- The path of an import is divided off as a string. -/
theorem spellings_path (path : Mark .string) (hPath : path.val.Sound) (rest : List Char) :
    spellings ('"' :: (path.val.literal.toList ++ '"' :: '\n' :: rest)) =
      path.val.spelling :: spellings rest := by
  have hClosed : isQuoted '"' path.val.literal = true := by
    have hClosed := hPath.closed
    rwa [Token.isClosed, path.property] at hClosed
  rw [spellings_string hClosed, spellings_blank (by decide), Token.spelling, path.property]

/-- The line of an import spells its keyword and its path in quotes. -/
theorem spells_importPath (keyword : Mark .kwImport) (path : Mark .string)
    (hKeyword : keyword.val.Lexed) (hPath : path.val.Sound) :
    (Go.Code.importPath path.val.literal).Spells [keyword.val.spelling, path.val.spelling] := by
  intro rest
  have hText : (Go.Code.importPath path.val.literal).text.toList ++ '\n' :: rest =
      "import".toList ++ ' ' :: '"' :: (path.val.literal.toList ++ '"' :: '\n' :: rest) := by
    simp [Go.Code.text]
  rw [hText, spellings_keyword_space "import" .kwImport _ rfl rfl, spellings_path path hPath,
    keyword.spelling_eq hKeyword rfl]
  rfl

/-- A line of an import group spells a path in quotes. -/
theorem spells_groupedPath (path : Mark .string) (hPath : path.val.Sound) :
    (Go.Code.groupedPath path.val.literal).Spells [path.val.spelling] := by
  intro rest
  have hText : (Go.Code.groupedPath path.val.literal).text.toList ++ '\n' :: rest =
      '"' :: (path.val.literal.toList ++ '"' :: '\n' :: rest) := by
    simp [Go.Code.text]
  rw [hText, spellings_path path hPath]
  rfl

theorem spells_importOpen :
    Go.Code.importOpen.Spells [(.kwImport, "import"), (.lparen, "(")] := by
  intro rest
  have hText : Go.Code.importOpen.text.toList ++ '\n' :: rest =
      "import".toList ++ ' ' :: '(' :: '\n' :: rest := by simp [Go.Code.text]
  rw [hText, spellings_keyword_space "import" .kwImport _ rfl rfl,
    spellings_delimiter .lparen (by decide), spellings_blank (by decide)]
  rfl

/-- A delimiter on a line of its own. -/
theorem spells_delimiter {code : Go.Code} {c : Char} (kind : TokenKind)
    (hText : code.text = String.singleton c) (hDelimiter : (c, kind) ∈ loneDelimiters) :
    code.Spells [(kind, String.ofList [c])] := by
  intro rest
  have hChars : code.text.toList ++ '\n' :: rest = c :: '\n' :: rest := by
    rw [hText]
    simp
  rw [hChars, spellings_delimiter kind hDelimiter, spellings_blank (by decide)]
  rfl

theorem spells_close : Go.Code.close.Spells [(.rbrace, "\x7d")] :=
  spells_delimiter .rbrace rfl (by decide)

theorem spells_importClose : Go.Code.importClose.Spells [(.rparen, ")")] :=
  spells_delimiter .rparen rfl (by decide)

theorem spells_blank : Go.Code.blank.Spells [] := fun _ => spellings_blank (by decide) _

/-- A line that ends in an opening brace. -/
theorem spells_opening {code : Go.Code} {front : String} (hText : code.text = front ++ " \x7b")
    (hFront : ∀ rest, spellings (front.toList ++ ' ' :: rest) = words ++ spellings rest) :
    code.Spells (words ++ [(.lbrace, "\x7b")]) := by
  intro rest
  have hChars : code.text.toList ++ '\n' :: rest =
      front.toList ++ ' ' :: '\x7b' :: '\n' :: rest := by
    rw [hText]
    simp
  rw [hChars, hFront, spellings_delimiter .lbrace (by decide), spellings_blank (by decide),
    List.append_assoc]
  rfl

/-- The line of a return spells its values with commas between them. -/
theorem spells_ret (keyword : Mark .kwReturn) (values : Option ExprsPhrase)
    (hKeyword : keyword.val.Lexed) (hValues : AllSound (tokensIf ExprsPhrase.tokens values)) :
    (Go.Code.ret (((values.map ExprsPhrase.trees).getD []).map Expr.go)).Spells
      (keyword.val.spelling
        :: (tokensIf ExprsPhrase.tokens (values.map ExprsPhrase.printed)).map Token.spelling) := by
  intro rest
  rw [keyword.spelling_eq hKeyword rfl]
  cases values with
  | none =>
      have hText : (Go.Code.ret []).text.toList ++ '\n' :: rest =
          "return".toList ++ '\n' :: rest := rfl
      rw [Option.map_none, Option.getD_none, List.map_nil, hText,
        spellings_keyword "return" .kwReturn rest rfl rfl rfl, spellings_blank (by decide)]
      rfl
  | some values =>
      have hReturn : Go.Code.returnText (values.trees.map Expr.go) =
          "return " ++ Text.commaSeparated (values.trees.map Expr.go) := by
        cases values <;> rfl
      have hText : (Go.Code.ret (values.trees.map Expr.go)).text.toList ++ '\n' :: rest =
          "return".toList ++ ' '
            :: ((Text.commaSeparated (values.trees.map Expr.go)).toList ++ '\n' :: rest) := by
        rw [Go.Code.text, hReturn]
        simp
      rw [Option.map_some, Option.getD_some, hText,
        spellings_keyword_space "return" .kwReturn _ rfl rfl,
        values.spellings_go hValues (breaks_newline rest), spellings_blank (by decide)]
      rfl

/-- The line of a branch spells its keyword. -/
theorem spells_branch {token : Token} (hLexed : token.Lexed)
    (hKind : token.kind = .kwBreak ∨ token.kind = .kwContinue) :
    (Go.Code.branch (token.kind.keyword?.getD "")).Spells [token.spelling] := by
  intro rest
  rw [Token.spelling]
  rcases hKind with hKind | hKind
  · rw [hLexed.literal_eq hKind rfl, hKind]
    change spellings ("break".toList ++ '\n' :: rest) = _
    rw [spellings_keyword "break" .kwBreak rest rfl rfl rfl, spellings_blank (by decide)]
    rfl
  · rw [hLexed.literal_eq hKind rfl, hKind]
    change spellings ("continue".toList ++ '\n' :: rest) = _
    rw [spellings_keyword "continue" .kwContinue rest rfl rfl rfl, spellings_blank (by decide)]
    rfl

/-- The start of a conditional, behind the brace of the one before it or not. -/
theorem spells_ifOpen (chained : Bool) (keyword : Mark .kwIf) (condition : ExprPhrase)
    (hKeyword : keyword.val.Lexed) (hCondition : AllSound condition.tokens) :
    (Go.Code.ifOpen chained condition.tree.go).Spells
      ((if chained then [(.rbrace, "\x7d"), (.kwElse, "else")] else [])
        ++ keyword.val.spelling :: condition.printed.tokens.map Token.spelling
          ++ [(.lbrace, "\x7b")]) := by
  have hText : (Go.Code.ifOpen chained condition.tree.go).text =
      (if chained then "\x7d else " else "") ++ "if " ++ condition.tree.go ++ " \x7b" := by
    simp only [Go.Code.text, String.append_assoc]
  refine spells_opening hText fun rest => ?_
  have hIf : spellings ("if".toList ++ ' ' :: (condition.tree.go.toList ++ ' ' :: rest)) =
      keyword.val.spelling :: (condition.printed.tokens.map Token.spelling ++ spellings rest) := by
    rw [spellings_keyword_space "if" .kwIf _ rfl rfl,
      condition.spellings_go hCondition (breaks_ender (by decide) rest),
      spellings_blank (by decide), keyword.spelling_eq hKeyword rfl]
  cases chained with
  | false =>
      refine Eq.trans ?_ hIf
      simp
  | true =>
      have hText : ((if true = true then "\x7d else " else "") ++ "if "
          ++ condition.tree.go).toList ++ ' ' :: rest = '\x7d' :: ' ' :: ("else".toList ++ ' '
            :: ("if".toList ++ ' ' :: (condition.tree.go.toList ++ ' ' :: rest))) := by
        simp
      rw [hText, spellings_delimiter .rbrace (by decide), spellings_blank (by decide),
        spellings_keyword_space "else" .kwElse _ rfl rfl, hIf]
      rfl

theorem spells_elseOpen :
    Go.Code.elseOpen.Spells [(.rbrace, "\x7d"), (.kwElse, "else"), (.lbrace, "\x7b")] := by
  intro rest
  have hText : Go.Code.elseOpen.text.toList ++ '\n' :: rest =
      '\x7d' :: ' ' :: ("else".toList ++ ' ' :: '\x7b' :: '\n' :: rest) := by
    simp [Go.Code.text]
  rw [hText, spellings_delimiter .rbrace (by decide), spellings_blank (by decide),
    spellings_keyword_space "else" .kwElse _ rfl rfl, spellings_delimiter .lbrace (by decide),
    spellings_blank (by decide)]
  rfl

end Codes

/-! ### Statements -/

/-- A block is its braces and what is inside. -/
theorem BlockPhrase.map_spelling_tokens (body : BlockPhrase) (hLexed : AllLexed body.tokens) :
    body.printed.tokens.map Token.spelling = (.lbrace, "\x7b")
      :: (body.inside.printed.tokens.map Token.spelling ++ [(.rbrace, "\x7d")]) := by
  cases body with
  | mk opening items closing =>
      simp only [BlockPhrase.tokens, allLexed_cons, allLexed_append] at hLexed
      rw [BlockPhrase.printed, BlockPhrase.tokens, List.map_cons, List.map_append,
        List.map_singleton, opening.spelling_eq hLexed.1 rfl,
        closing.spelling_eq hLexed.2.2.1 rfl]
      rfl

/-- The body of a block is written as its statements in a row. -/
theorem BlockPhrase.bodyLines_tree (body : BlockPhrase) (depth : Nat) :
    body.tree.bodyLines depth = Stmt.allLines body.inside.trees depth := by
  cases body with
  | mk opening items closing => rw [BlockPhrase.tree, Stmt.bodyLines, BlockPhrase.inside]

section Statements

variable {depth : Nat}

/-- A line that opens a block, and the lines of the block. -/
theorem linesSpell_block (body : BlockPhrase) {code : Go.Code} {words : List Spelling}
    (hLexed : AllLexed body.tokens) (hCode : code.Spells (words ++ [(.lbrace, "\x7b")]))
    (hInside : LinesSpell (Stmt.allLines body.inside.trees (depth + 1))
      (body.inside.printed.tokens.map Token.spelling)) :
    LinesSpell (⟨depth, code⟩ :: (body.tree.bodyLines (depth + 1) ++ [⟨depth, .close⟩]))
      (words ++ body.printed.tokens.map Token.spelling) := by
  rw [body.bodyLines_tree, body.map_spelling_tokens hLexed]
  refine (LinesSpell.cons hCode (hInside.append spells_close.single)).of_eq ?_
  rw [List.append_assoc]
  rfl

/-- Each path of a group is spelled on a line of its own. -/
theorem linesSpell_paths : (paths : PathsPhrase) → AllSound paths.tokens →
    LinesSpell (paths.paths.map fun path => ⟨depth, .groupedPath path⟩)
      (paths.printed.tokens.map Token.spelling)
  | .done _, _ => linesSpell_nil
  | .more comments path semicolon rest, hSound => by
      simp only [PathsPhrase.tokens, allSound_append, allSound_cons] at hSound
      exact LinesSpell.cons (spells_groupedPath path hSound.2.1)
        (linesSpell_paths rest hSound.2.2.2)

/-- The lines of an import group are divided into the tokens of what is printed for it. -/
theorem linesSpell_importGroup (keyword : Mark .kwImport) (opening : Mark .lparen)
    (paths : PathsPhrase) (closing : Mark .rparen)
    (hSound : AllSound (StmtPhrase.importGroup keyword opening paths closing).tokens) :
    LinesSpell (importCode depth paths.paths)
      ((StmtPhrase.printedGroup keyword opening closing paths).tokens.map Token.spelling) := by
  simp only [StmtPhrase.tokens, allSound_cons, allSound_append] at hSound
  obtain ⟨hKeyword, hOpening, hPaths, hClosing, -⟩ := hSound
  unfold StmtPhrase.printedGroup
  split
  next comments path semicolon _ =>
    simp only [PathsPhrase.tokens, allSound_append, allSound_cons] at hPaths
    exact (spells_importPath keyword path hKeyword.lexed hPaths.2.1).single
  next hMany =>
    have hCode : importCode depth paths.paths = ⟨depth, .importOpen⟩
        :: (paths.paths.map (fun path => ⟨depth + 1, .groupedPath path⟩)
          ++ [⟨depth, .importClose⟩]) := by
      unfold importCode
      split
      next path hOne =>
        cases paths with
        | done => cases hOne
        | more comments mark semicolon rest =>
            cases rest with
            | done last => exact absurd rfl (hMany comments mark semicolon last)
            | more => cases hOne
      next => rfl
    rw [hCode]
    refine (LinesSpell.cons spells_importOpen ((linesSpell_paths paths hPaths).append
      spells_importClose.single)).of_eq ?_
    rw [StmtPhrase.tokens, List.map_cons, List.map_cons, List.map_append, List.map_singleton,
      keyword.spelling_eq hKeyword.lexed rfl, opening.spelling_eq hOpening.lexed rfl,
      closing.spelling_eq hClosing.lexed rfl]
    rfl

/-- A declaration is spelled on one line. -/
theorem linesSpell_decl (kind : DeclKind) (keyword : Mark kind.tokenKind) (name : Mark .ident)
    (type : Option TypePhrase) (init : Option InitPhrase)
    (hSound : AllSound (StmtPhrase.decl kind keyword name type init).tokens)
    (hSizes : SizesStand (StmtPhrase.decl kind keyword name type init).leaves) :
    LinesSpell ((StmtPhrase.decl kind keyword name type init).tree.lines depth)
      ((StmtPhrase.decl kind keyword name type init).printed.tokens.map Token.spelling) := by
  refine Go.Code.Spells.single fun rest => ?_
  refine (spellings_decl kind keyword name type init hSound hSizes (breaks_newline rest)).trans ?_
  rw [spellings_blank (by decide)]
  rfl

/-- A simple statement is spelled on one line. -/
theorem linesSpell_simple (phrase : SimplePhrase) (hSound : AllSound phrase.tokens) :
    LinesSpell (phrase.tree.lines depth) (phrase.printed.tokens.map Token.spelling) := by
  have hCode : (Lower.simpleCode phrase.tree).Spells
      (phrase.printed.tokens.map Token.spelling) := by
    intro rest
    rw [SimplePhrase.spellings_code hSound (breaks_newline rest), spellings_blank (by decide)]
  cases phrase <;> exact hCode.single

/-- A comment is spelled as it is printed. -/
theorem linesSpell_comment {token : Token} (hSound : token.Sound)
    (hKind : token.kind.isComment = true) :
    LinesSpell ((Parse.commentStmt token).lines depth) [token.printedComment.spelling] :=
  Go.Code.Spells.single fun rest => hSound.spellings_comment hKind rest

/-- A function is spelled by its signature, its body and a closing brace. -/
theorem linesSpell_func (keyword : Mark .kwFunc) (name : Mark .ident) (opening : Mark .lparen)
    (params : Option ParamsPhrase) (closing : Mark .rparen) (result : ResultPhrase)
    (body : BlockPhrase)
    (hSound : AllSound (StmtPhrase.func keyword name opening params closing result body).tokens)
    (hSizes : SizesStand (StmtPhrase.func keyword name opening params closing result body).leaves)
    (hInside : LinesSpell (Stmt.allLines body.inside.trees (depth + 1))
      (body.inside.printed.tokens.map Token.spelling)) :
    LinesSpell ((StmtPhrase.func keyword name opening params closing result body).tree.lines depth)
      ((StmtPhrase.func keyword name opening params closing result body).printed.tokens.map
        Token.spelling) := by
  simp only [StmtPhrase.tokens, allSound_cons, allSound_append] at hSound
  simp only [StmtPhrase.leaves, sizesStand_word, sizesStand_append] at hSizes
  obtain ⟨hKeyword, hName, hOpening, hParams, hClosing, hResult, hBody⟩ := hSound
  have hCode : (Go.Code.funcOpen (signatureText (.ident name.val name.val.literal)
      (((params.map ParamsPhrase.trees).getD []).map Prod.fst)
      (((params.map ParamsPhrase.trees).getD []).map Prod.snd)
      (result.type?.map GoType.text))).Spells
        (keyword.val.spelling :: name.val.spelling :: opening.val.spelling
          :: ((tokensIf ParamsPhrase.tokens (params.map ParamsPhrase.printed)).map Token.spelling
            ++ closing.val.spelling :: result.printed.tokens.map Token.spelling)
          ++ [(.lbrace, "\x7b")]) := by
    have hFunc (signature : String) (rest : List Char) : ("func " ++ signature).toList ++ rest =
        "func".toList ++ ' ' :: (signature.toList ++ rest) := by simp
    refine spells_opening rfl fun rest => ?_
    rw [hFunc, spellings_keyword_space "func" .kwFunc _ rfl rfl,
      spellings_signature name opening params closing result hName.lexed hOpening.lexed
        hParams.lexed hClosing.lexed hResult.lexed hSizes.1 hSizes.2.1
        (not_isWordChar_head (by decide)), spellings_blank (by decide),
      keyword.spelling_eq hKeyword.lexed rfl]
    simp
  refine (linesSpell_block body hBody.lexed hCode hInside).of_eq ?_
  simp [StmtPhrase.printed, StmtPhrase.tokens]

/-- A loop is spelled by its header, its body and a closing brace. -/
theorem linesSpell_loop (keyword : Mark .kwFor) (header : LoopPhrase) (body : BlockPhrase)
    (hSound : AllSound (StmtPhrase.loop keyword header body).tokens)
    (hInside : LinesSpell (Stmt.allLines body.inside.trees (depth + 1))
      (body.inside.printed.tokens.map Token.spelling)) :
    LinesSpell ((StmtPhrase.loop keyword header body).tree.lines depth)
      ((StmtPhrase.loop keyword header body).printed.tokens.map Token.spelling) := by
  simp only [StmtPhrase.tokens, allSound_cons, allSound_append] at hSound
  have hCode : (Go.Code.forOpen header.code).Spells
      (keyword.val.spelling :: header.printed.tokens.map Token.spelling
        ++ [(.lbrace, "\x7b")]) := by
    refine spells_opening rfl fun rest => ?_
    rw [header.spellings_code hSound.2.1, keyword.spelling_eq hSound.1.lexed rfl]
    rfl
  rw [StmtPhrase.tree, header.lines_tree]
  refine (linesSpell_block body hSound.2.2.lexed hCode hInside).of_eq ?_
  simp [StmtPhrase.printed, StmtPhrase.tokens]

/-- A conditional in front of what closes its consequence. It may itself stand behind the
consequence of another one. -/
theorem linesSpell_ifOpen (keyword : Mark .kwIf) (condition : ExprPhrase) (body : BlockPhrase)
    {behind : List Go.Line} {words : List Spelling} (hKeyword : keyword.val.Lexed)
    (hCondition : AllSound condition.tokens) (hBody : AllLexed body.tokens)
    (hInside : LinesSpell (Stmt.allLines body.inside.trees (depth + 1))
      (body.inside.printed.tokens.map Token.spelling))
    (hBehind : LinesSpell behind ((.rbrace, "\x7d") :: words)) (chained : Bool) :
    LinesSpell (⟨depth, .ifOpen chained condition.tree.go⟩
        :: (body.tree.bodyLines (depth + 1) ++ behind))
      ((if chained then [(.rbrace, "\x7d"), (.kwElse, "else")] else [])
        ++ keyword.val.spelling :: (condition.printed.tokens.map Token.spelling
          ++ (body.printed.tokens.map Token.spelling ++ words))) := by
  rw [body.bodyLines_tree, body.map_spelling_tokens hBody]
  refine (LinesSpell.cons (spells_ifOpen chained keyword condition hKeyword hCondition)
    (hInside.append hBehind)).of_eq ?_
  simp

mutual

/-- The lines of a statement without a try or a throw are divided into the tokens of its printed
phrase. -/
theorem StmtPhrase.linesSpell : (stmt : StmtPhrase) → AllSound stmt.tokens →
    SizesStand stmt.leaves → stmt.tree.isPlain = true → (depth : Nat) →
      LinesSpell (stmt.tree.lines depth) (stmt.printed.tokens.map Token.spelling)
  | .tryCatch _ _ _ _, _, _, hPlain, _ | .tryFinally _ _ _ _ _ _, _, _, hPlain, _
  | .throw _ _, _, _, hPlain, _ => absurd hPlain Bool.false_ne_true
  | .package keyword name, hSound, _, _, _ => by
      simp only [StmtPhrase.tokens, allSound_cons] at hSound
      exact (spells_package keyword name hSound.1.lexed hSound.2.1.lexed).single
  | .importOne keyword path, hSound, _, _, _ => by
      simp only [StmtPhrase.tokens, allSound_cons] at hSound
      exact (spells_importPath keyword path hSound.1.lexed hSound.2.1).single
  | .importGroup keyword opening paths closing, hSound, _, _, _ =>
      linesSpell_importGroup keyword opening paths closing hSound
  | .decl kind keyword name type init, hSound, hSizes, _, _ =>
      linesSpell_decl kind keyword name type init hSound hSizes
  | .simple phrase, hSound, _, _, _ => linesSpell_simple phrase hSound
  | .ret keyword values, hSound, _, _, _ => by
      simp only [StmtPhrase.tokens, allSound_cons] at hSound
      exact (spells_ret keyword values hSound.1.lexed hSound.2).single
  | .branch token hKind, hSound, _, _, _ =>
      (spells_branch (hSound token List.mem_cons_self).lexed hKind).single
  | .comment token hKind, hSound, _, _, _ =>
      linesSpell_comment (hSound token List.mem_cons_self) hKind
  | .block body, hSound, hSizes, hPlain, depth => by
      have hOpen : Go.Code.blockOpen.Spells ([] ++ [(.lbrace, "\x7b")]) :=
        spells_delimiter .lbrace rfl (by decide)
      have hLines := linesSpell_block body hSound.lexed hOpen
        (body.linesSpell hSound hSizes hPlain (depth + 1))
      rw [body.bodyLines_tree] at hLines
      cases body with
      | mk opening items closing => exact hLines
  | .func keyword name opening params closing result body, hSound, hSizes, hPlain, depth => by
      have hTokens := hSound
      have hLeaves := hSizes
      simp only [StmtPhrase.tokens, allSound_cons, allSound_append] at hTokens
      simp only [StmtPhrase.leaves, sizesStand_word, sizesStand_append] at hLeaves
      exact linesSpell_func keyword name opening params closing result body hSound hSizes
        (body.linesSpell hTokens.2.2.2.2.2.2 hLeaves.2.2 hPlain (depth + 1))
  | .ifElse chain, hSound, hSizes, hPlain, depth =>
      (chain.linesSpell hSound hSizes hPlain depth).1
  | .loop keyword header body, hSound, hSizes, hPlain, depth => by
      have hTokens := hSound
      simp only [StmtPhrase.tokens, allSound_cons, allSound_append] at hTokens
      simp only [StmtPhrase.leaves, sizesStand_word, sizesStand_append] at hSizes
      refine linesSpell_loop keyword header body hSound
        (body.linesSpell hTokens.2.2 hSizes.2 ?_ (depth + 1))
      cases header <;> simp_all [StmtPhrase.tree, LoopPhrase.tree, Stmt.isPlain]

/-- The lines of a block spell its statements. -/
theorem BlockPhrase.linesSpell : (body : BlockPhrase) → AllSound body.tokens →
    SizesStand body.leaves → body.tree.isPlain = true → (depth : Nat) →
      LinesSpell (Stmt.allLines body.inside.trees depth)
        (body.inside.printed.tokens.map Token.spelling)
  | .mk _ items _, hSound, hSizes, hPlain, depth => by
      simp only [BlockPhrase.tokens, allSound_cons, allSound_append] at hSound
      simp only [BlockPhrase.leaves, sizesStand_word, sizesStand_append] at hSizes
      exact items.linesSpell hSound.2.1 hSizes.1 hPlain depth

/-- The lines of statements in a row spell them in a row. -/
theorem ItemsPhrase.linesSpell : (items : ItemsPhrase) → AllSound items.tokens →
    SizesStand items.leaves → Stmt.allPlain items.trees = true → (depth : Nat) →
      LinesSpell (Stmt.allLines items.trees depth) (items.printed.tokens.map Token.spelling)
  | .nil, _, _, _, _ => linesSpell_nil
  | .semicolon _ rest, hSound, hSizes, hPlain, depth => by
      simp only [ItemsPhrase.tokens, allSound_cons] at hSound
      simp only [ItemsPhrase.leaves, sizesStand_word] at hSizes
      exact rest.linesSpell hSound.2 hSizes hPlain depth
  | .cons stmt _ rest, hSound, hSizes, hPlain, depth => by
      simp only [ItemsPhrase.tokens, allSound_append] at hSound
      simp only [ItemsPhrase.leaves, sizesStand_append] at hSizes
      rw [ItemsPhrase.trees, Stmt.allPlain, Bool.and_eq_true] at hPlain
      rw [stmt.trailing_of_isPlain hPlain.1] at hPlain
      rw [ItemsPhrase.trees, stmt.trailing_of_isPlain hPlain.1]
      refine ((stmt.linesSpell hSound.1 hSizes.1 hPlain.1 depth).append
        (rest.linesSpell hSound.2.2 hSizes.2.2 hPlain.2 depth)).of_eq ?_
      rw [← List.map_append]
      rfl

/-- The lines of a chain of conditionals spell it, from any of its links on. -/
theorem IfPhrase.linesSpell : (chain : IfPhrase) → AllSound chain.tokens →
    SizesStand chain.leaves → chain.tree.isPlain = true → (depth : Nat) →
      LinesSpell (chain.tree.lines depth) (chain.printed.tokens.map Token.spelling)
        ∧ LinesSpell (chain.tree.elseLines depth)
          ((.rbrace, "\x7d") :: (.kwElse, "else") :: chain.printed.tokens.map Token.spelling)
  | .plain keyword condition body, hSound, hSizes, hPlain, depth => by
      simp only [IfPhrase.tokens, allSound_cons, allSound_append] at hSound
      simp only [IfPhrase.leaves, sizesStand_word, sizesStand_append] at hSizes
      rw [IfPhrase.tree, Stmt.isPlain, Bool.and_eq_true] at hPlain
      have hClose : LinesSpell [⟨depth, .close⟩] [(.rbrace, "\x7d")] := spells_close.single
      have hLines := linesSpell_ifOpen keyword condition body hSound.1.lexed hSound.2.1
        hSound.2.2.lexed (body.linesSpell hSound.2.2 hSizes.2 hPlain.1 (depth + 1)) hClose
      rw [List.append_nil, ← List.map_append] at hLines
      exact ⟨hLines false, hLines true⟩
  | .elseIf keyword condition body otherwise chain, hSound, hSizes, hPlain, depth => by
      simp only [IfPhrase.tokens, allSound_cons, allSound_append] at hSound
      simp only [IfPhrase.leaves, sizesStand_word, sizesStand_append] at hSizes
      rw [IfPhrase.tree, Stmt.isPlain, Bool.and_eq_true] at hPlain
      have hBehind := (chain.linesSpell hSound.2.2.2.2 hSizes.2.2 hPlain.2 depth).2
      rw [← otherwise.spelling_eq hSound.2.2.2.1.lexed rfl, ← List.map_cons] at hBehind
      have hLines := linesSpell_ifOpen keyword condition body hSound.1.lexed hSound.2.1
        hSound.2.2.1.lexed (body.linesSpell hSound.2.2.1 hSizes.2.1 hPlain.1 (depth + 1)) hBehind
      rw [← List.map_append, ← List.map_append] at hLines
      exact ⟨hLines false, hLines true⟩
  | .elseBlock keyword condition body otherwise alternative, hSound, hSizes, hPlain, depth => by
      simp only [IfPhrase.tokens, allSound_cons, allSound_append] at hSound
      simp only [IfPhrase.leaves, sizesStand_word, sizesStand_append] at hSizes
      rw [IfPhrase.tree, Stmt.isPlain, Bool.and_eq_true] at hPlain
      have hOpen : Go.Code.elseOpen.Spells
          ([(.rbrace, "\x7d"), (.kwElse, "else")] ++ [(.lbrace, "\x7b")]) := spells_elseOpen
      have hBehind := linesSpell_block alternative hSound.2.2.2.2.lexed hOpen
        (alternative.linesSpell hSound.2.2.2.2 hSizes.2.2 hPlain.2 (depth + 1))
      rw [← otherwise.spelling_eq hSound.2.2.2.1.lexed rfl, List.cons_append,
        List.singleton_append, ← List.map_cons, alternative.bodyLines_tree] at hBehind
      have hLines := linesSpell_ifOpen keyword condition body hSound.1.lexed hSound.2.1
        hSound.2.2.1.lexed (body.linesSpell hSound.2.2.1 hSizes.2.1 hPlain.1 (depth + 1)) hBehind
      rw [← List.map_append, ← List.map_append] at hLines
      cases alternative with
      | mk => exact ⟨hLines false, hLines true⟩

end

/-- The lines of a program are divided into the tokens of its printed phrase. The blank lines
between the statements say nothing. -/
theorem ItemsPhrase.linesSpell_top : (items : ItemsPhrase) → (previous : Option Stmt) →
    AllSound items.tokens → SizesStand items.leaves → Stmt.allPlain items.trees = true →
      LinesSpell (Stmt.topLines previous items.trees depth)
        (items.printed.tokens.map Token.spelling)
  | .nil, _, _, _, _ => linesSpell_nil
  | .semicolon _ rest, previous, hSound, hSizes, hPlain => by
      simp only [ItemsPhrase.tokens, allSound_cons] at hSound
      simp only [ItemsPhrase.leaves, sizesStand_word] at hSizes
      exact rest.linesSpell_top previous hSound.2 hSizes hPlain
  | .cons stmt _ rest, previous, hSound, hSizes, hPlain => by
      simp only [ItemsPhrase.tokens, allSound_append] at hSound
      simp only [ItemsPhrase.leaves, sizesStand_append] at hSizes
      rw [ItemsPhrase.trees, Stmt.allPlain, Bool.and_eq_true] at hPlain
      rw [stmt.trailing_of_isPlain hPlain.1] at hPlain
      rw [ItemsPhrase.trees, stmt.trailing_of_isPlain hPlain.1, Stmt.topLines]
      have hGap : LinesSpell (if (previous.map fun p =>
          Lower.needsBlankLine p stmt.tree).getD false then [⟨depth, .blank⟩] else []) [] := by
        split
        · exact spells_blank.single
        · exact linesSpell_nil
      refine (hGap.append ((stmt.linesSpell hSound.1 hSizes.1 hPlain.1 depth).append
        (rest.linesSpell_top (some stmt.tree) hSound.2.2 hSizes.2.2 hPlain.2))).of_eq ?_
      rw [List.nil_append, ← List.map_append]
      rfl

end Statements

end TryGo
