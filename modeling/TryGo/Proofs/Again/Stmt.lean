import Mathlib.Data.List.Forall2
import TryGo.Proofs.Again.Part

/-! Statements as they are printed. A printed statement has no semicolons but those in the header
of a loop, so where it ends depends on what the next one is written as. `Apart` says that no
statement is continued by the next. -/
namespace TryGo

namespace PathsPhrase

/-- The paths of an import group without the comments and semicolons between them. -/
def printed : PathsPhrase → PathsPhrase
  | .done _ => .done noComments
  | .more _ path _ rest => .more noComments path none rest.printed

/-- A group is printed with its paths. -/
theorem paths_printed : (paths : PathsPhrase) → paths.printed.paths = paths.paths
  | .done _ => rfl
  | .more _ path _ rest => congrArg (path.val.literal :: ·) rest.paths_printed

end PathsPhrase

/-- An import group as it is printed. One path needs no parentheses. -/
def StmtPhrase.printedGroup (keyword : Mark .kwImport) (opening : Mark .lparen)
    (closing : Mark .rparen) : PathsPhrase → StmtPhrase
  | .more _ path _ (.done _) => .importOne keyword path
  | paths => .importGroup keyword opening paths.printed closing

mutual

/-- A statement as it is printed. A try and a throw are not printed as such. -/
def StmtPhrase.printed : StmtPhrase → StmtPhrase
  | .importGroup keyword opening paths closing =>
      StmtPhrase.printedGroup keyword opening closing paths
  | .decl kind keyword name type init =>
      .decl kind keyword name (type.map TypePhrase.printed) (init.map InitPhrase.printed)
  | .simple phrase => .simple phrase.printed
  | .ret keyword values => .ret keyword (values.map ExprsPhrase.printed)
  | .comment token hKind => .comment token.printedComment hKind
  | .block body => .block body.printed
  | .func keyword name opening params closing result body =>
      .func keyword name opening (params.map ParamsPhrase.printed) closing result.printed
        body.printed
  | .ifElse chain => .ifElse chain.printed
  | .loop keyword header body => .loop keyword header.printed body.printed
  | .package keyword name => .package keyword name
  | .importOne keyword path => .importOne keyword path
  | .branch token hKind => .branch token hKind
  | .throw keyword value => .throw keyword value
  | .tryCatch keyword body catches comments => .tryCatch keyword body catches comments
  | .tryFinally keyword body catches comments lastly cleanup =>
      .tryFinally keyword body catches comments lastly cleanup

def BlockPhrase.printed : BlockPhrase → BlockPhrase
  | .mk opening items closing => .mk opening items.printed closing

def ItemsPhrase.printed : ItemsPhrase → ItemsPhrase
  | .nil => .nil
  | .semicolon _ rest => rest.printed
  | .cons stmt _ rest => .cons stmt.printed none rest.printed

def IfPhrase.printed : IfPhrase → IfPhrase
  | .plain keyword condition body => .plain keyword condition.printed body.printed
  | .elseIf keyword condition body otherwise chain =>
      .elseIf keyword condition.printed body.printed otherwise chain.printed
  | .elseBlock keyword condition body otherwise alternative =>
      .elseBlock keyword condition.printed body.printed otherwise alternative.printed

end

/-! ### The trees -/

/-- Whether two statements have the same lines wherever they stand, and a try or a throw in them
both or in neither. -/
structure Stmt.Alike (s other : Stmt) : Prop where
  lines : s.lines = other.lines
  body : s.bodyLines = other.bodyLines
  alternative : s.elseLines = other.elseLines
  plain : s.isPlain = other.isPlain
  kind : s.kind = other.kind
  gap : Lower.needsBlankLine s = Lower.needsBlankLine other

/-- A statement is like itself. -/
theorem Stmt.Alike.of_eq {s other : Stmt} (hEq : s = other) : s.Alike other := by
  subst hEq
  exact ⟨rfl, rfl, rfl, rfl, rfl, rfl⟩

/-- Whether the statements of two lists are alike one by one. -/
def Stmt.AllAlike (statements others : List Stmt) : Prop :=
  List.Forall₂ Stmt.Alike statements others

section Alike

variable {statements others : List Stmt} {s other : Stmt}

/-- Statements that are alike are written the same. -/
theorem Stmt.AllAlike.allLines (hAlike : Stmt.AllAlike statements others) :
    Stmt.allLines statements = Stmt.allLines others := by
  induction hAlike with
  | nil => rfl
  | cons hFirst _ ih =>
      funext depth
      rw [Stmt.allLines, Stmt.allLines, hFirst.lines, ih]

theorem Stmt.AllAlike.allPlain (hAlike : Stmt.AllAlike statements others) :
    Stmt.allPlain statements = Stmt.allPlain others := by
  induction hAlike with
  | nil => rfl
  | cons hFirst _ ih => rw [Stmt.allPlain, Stmt.allPlain, hFirst.plain, ih]

/-- Alike statements have the same blank lines between them. -/
theorem Stmt.AllAlike.topLines (hAlike : Stmt.AllAlike statements others) :
    ∀ previous before : Option Stmt,
      previous.map Lower.needsBlankLine = before.map Lower.needsBlankLine →
        Stmt.topLines previous statements = Stmt.topLines before others := by
  induction hAlike with
  | nil =>
      intro previous before _
      funext depth
      rfl
  | @cons s other _ _ hFirst _ ih =>
      intro previous before hGap
      have hBlank : (previous.map fun p => Lower.needsBlankLine p s) =
          before.map fun p => Lower.needsBlankLine p other := by
        have hKind (p : Stmt) : Lower.needsBlankLine p s = Lower.needsBlankLine p other := by
          unfold Lower.needsBlankLine
          rw [hFirst.kind]
        simp only [hKind]
        have hApply := congrArg (Option.map fun gap => gap other) hGap
        rwa [Option.map_map, Option.map_map] at hApply
      funext depth
      rw [Stmt.topLines, Stmt.topLines, hBlank, hFirst.lines,
        ih (some s) (some other) (congrArg some hFirst.gap)]

/-- Blocks are alike if their statements are. -/
theorem Stmt.alike_block (token : Token) (hAlike : Stmt.AllAlike statements others) :
    (Stmt.block token statements).Alike (.block token others) where
  lines := by
    funext depth
    rw [Stmt.lines, Stmt.lines, hAlike.allLines]
  body := by
    funext depth
    rw [Stmt.bodyLines, Stmt.bodyLines, hAlike.allLines]
  alternative := by
    funext depth
    rw [Stmt.elseLines, Stmt.elseLines, hAlike.allLines]
  plain := hAlike.allPlain
  kind := rfl
  gap := rfl

/-- Conditionals are alike if their arms are. -/
theorem Stmt.alike_ifElse (token : Token) (condition : Expr) {alternative otherwise : Stmt}
    (hBody : s.Alike other) (hElse : alternative.Alike otherwise) :
    (Stmt.ifElse token condition s alternative).Alike
      (.ifElse token condition other otherwise) where
  lines := by
    funext depth
    rw [Stmt.lines, Stmt.lines, hBody.body, hElse.alternative]
  body := rfl
  alternative := by
    funext depth
    rw [Stmt.elseLines, Stmt.elseLines, hBody.body, hElse.alternative]
  plain := by rw [Stmt.isPlain, Stmt.isPlain, hBody.plain, hElse.plain]
  kind := rfl
  gap := rfl

/-- Functions are alike if their bodies are. -/
theorem Stmt.alike_func (token : Token) (name : Expr) (params : List Expr)
    (types : List (Option String)) (result : Option String) (hBody : s.Alike other) :
    (Stmt.func token name params types result s).Alike
      (.func token name params types result other) where
  lines := by
    funext depth
    rw [Stmt.lines, Stmt.lines, hBody.body]
  body := rfl
  alternative := rfl
  plain := hBody.plain
  kind := rfl
  gap := rfl

/-- Loops are alike if their bodies are, since the printed header reads the same. -/
theorem Stmt.alike_loop (token : Token) (header : LoopPhrase) (hBody : s.Alike other) :
    (header.printed.tree token s).Alike (header.tree token other) := by
  have hTree (header : LoopPhrase) (body : Stmt) : ∃ init condition update,
      header.tree token body = .loop token init condition update body
        ∧ (init.isPlain && update.isPlain) = true := by
    have hClause (clause : Option SimplePhrase) :
        ((clause.map SimplePhrase.tree).getD .missing).isPlain = true := by
      cases clause with
      | none => rfl
      | some phrase => cases phrase <;> rfl
    cases header with
    | endless | whileTrue => exact ⟨_, _, _, rfl, rfl⟩
    | clauses => exact ⟨_, _, _, rfl, by rw [hClause, hClause]; rfl⟩
  obtain ⟨_, _, _, hPrinted, hPrintedPlain⟩ := hTree header.printed s
  obtain ⟨_, _, _, hSource, hSourcePlain⟩ := hTree header other
  refine ⟨?_, ?_, ?_, ?_, ?_, ?_⟩
  · funext depth
    rw [header.printed.lines_tree, header.lines_tree, header.code_printed, hBody.body]
  all_goals rw [hPrinted, hSource]
  · rfl
  · rfl
  · rw [Stmt.isPlain, Stmt.isPlain, hPrintedPlain, hSourcePlain, hBody.plain]
  · rfl
  · rfl

end Alike

theorem SimplePhrase.alike_printed (phrase : SimplePhrase) :
    phrase.printed.tree.Alike phrase.tree := by
  have hCode := phrase.simpleCode_printed
  refine ⟨?_, ?_, ?_, ?_, ?_, ?_⟩
  · funext depth
    cases phrase <;> exact congrArg (fun code => [Go.Line.mk depth code]) hCode
  all_goals cases phrase <;> rfl

/-- A group is read back with its paths, with brackets or without. -/
theorem StmtPhrase.tree_printedGroup (keyword : Mark .kwImport) (opening : Mark .lparen)
    (closing : Mark .rparen) (paths : PathsPhrase) :
    (StmtPhrase.printedGroup keyword opening closing paths).tree =
      .imports keyword.val paths.paths := by
  unfold StmtPhrase.printedGroup
  split
  · rfl
  · rw [StmtPhrase.tree, PathsPhrase.paths_printed]

/-- A printed statement leaves the same comments behind. -/
theorem StmtPhrase.trailing_printed (stmt : StmtPhrase) :
    stmt.printed.trailing = stmt.trailing := by
  cases stmt with
  | importGroup _ _ paths =>
      rw [StmtPhrase.printed]
      unfold StmtPhrase.printedGroup
      split <;> rfl
  | _ => rfl

/-- A comment has the same line where it is printed. -/
theorem Token.Sound.alike_comment {token : Token} (hSound : token.Sound)
    (hKind : token.kind.isComment = true) :
    (Parse.commentStmt token.printedComment).Alike (Parse.commentStmt token) := by
  refine ⟨?_, rfl, rfl, rfl, rfl, rfl⟩
  funext depth
  simp only [Parse.commentStmt, Stmt.lines, hSound.commentContent_printedComment hKind]
  rfl

mutual

/-- Printing changes nothing that is printed. -/
theorem StmtPhrase.alike_printed : (stmt : StmtPhrase) → AllSound stmt.tokens →
    stmt.printed.tree.Alike stmt.tree
  | .package _ _, _ | .importOne _ _, _ | .branch _ _, _ | .throw _ _, _ | .tryCatch _ _ _ _, _
  | .tryFinally _ _ _ _ _ _, _ => .of_eq rfl
  | .importGroup keyword opening paths closing, _ =>
      .of_eq (StmtPhrase.tree_printedGroup keyword opening closing paths)
  | .decl kind keyword name type init, _ => by
      have hInit : (init.map InitPhrase.printed).map (fun init => init.value.tree) =
          init.map fun init => init.value.tree := by
        cases init with
        | none => rfl
        | some init => exact congrArg some init.value.tree_printed
      refine .of_eq ?_
      rw [StmtPhrase.printed, StmtPhrase.tree, StmtPhrase.tree, map_text_printed, hInit]
  | .simple phrase, _ => phrase.alike_printed
  | .ret keyword values, _ => by
      have hValues : (values.map ExprsPhrase.printed).map ExprsPhrase.trees =
          values.map ExprsPhrase.trees := by
        cases values with
        | none => rfl
        | some values => exact congrArg some values.trees_printed
      refine .of_eq ?_
      rw [StmtPhrase.printed, StmtPhrase.tree, StmtPhrase.tree, hValues]
  | .comment token hKind, hSound => (hSound token List.mem_cons_self).alike_comment hKind
  | .block body, hSound => body.alike_printed hSound
  | .func keyword name opening params closing result body, hSound => by
      simp only [StmtPhrase.tokens, allSound_cons, allSound_append] at hSound
      have hParams : (params.map ParamsPhrase.printed).map ParamsPhrase.trees =
          params.map ParamsPhrase.trees := by
        cases params with
        | none => rfl
        | some params => exact congrArg some params.trees_printed
      rw [StmtPhrase.printed, StmtPhrase.tree, StmtPhrase.tree, hParams, result.type?_printed]
      exact Stmt.alike_func _ _ _ _ _ (body.alike_printed hSound.2.2.2.2.2.2)
  | .ifElse chain, hSound => chain.alike_printed hSound
  | .loop keyword header body, hSound => by
      simp only [StmtPhrase.tokens, allSound_cons, allSound_append] at hSound
      exact Stmt.alike_loop keyword.val header (body.alike_printed hSound.2.2)

/-- A printed block is like the block. -/
theorem BlockPhrase.alike_printed : (body : BlockPhrase) → AllSound body.tokens →
    body.printed.tree.Alike body.tree
  | .mk opening items closing, hSound => by
      simp only [BlockPhrase.tokens, allSound_cons, allSound_append] at hSound
      exact Stmt.alike_block opening.val (items.alike_printed hSound.2.1)

/-- Printed statements are like the statements. -/
theorem ItemsPhrase.alike_printed : (items : ItemsPhrase) → AllSound items.tokens →
    Stmt.AllAlike items.printed.trees items.trees
  | .nil, _ => .nil
  | .semicolon mark rest, hSound => by
      simp only [ItemsPhrase.tokens, allSound_cons] at hSound
      exact rest.alike_printed hSound.2
  | .cons stmt semicolon rest, hSound => by
      simp only [ItemsPhrase.tokens, allSound_append] at hSound
      rw [ItemsPhrase.printed, ItemsPhrase.trees, ItemsPhrase.trees, stmt.trailing_printed]
      have hTrailing : Stmt.AllAlike (stmt.trailing.map Parse.commentStmt)
          (stmt.trailing.map Parse.commentStmt) := List.forall₂_same.mpr fun s _ => .of_eq rfl
      exact .cons (stmt.alike_printed hSound.1)
        (List.rel_append hTrailing (rest.alike_printed hSound.2.2))

/-- A printed chain is like the chain. -/
theorem IfPhrase.alike_printed : (chain : IfPhrase) → AllSound chain.tokens →
    chain.printed.tree.Alike chain.tree
  | .plain keyword condition body, hSound => by
      simp only [IfPhrase.tokens, allSound_cons, allSound_append] at hSound
      rw [IfPhrase.printed, IfPhrase.tree, IfPhrase.tree, condition.tree_printed]
      exact Stmt.alike_ifElse _ _ (body.alike_printed hSound.2.2) (.of_eq rfl)
  | .elseIf keyword condition body otherwise chain, hSound => by
      simp only [IfPhrase.tokens, allSound_cons, allSound_append] at hSound
      rw [IfPhrase.printed, IfPhrase.tree, IfPhrase.tree, condition.tree_printed]
      exact Stmt.alike_ifElse _ _ (body.alike_printed hSound.2.2.1)
        (chain.alike_printed hSound.2.2.2.2)
  | .elseBlock keyword condition body otherwise alternative, hSound => by
      simp only [IfPhrase.tokens, allSound_cons, allSound_append] at hSound
      rw [IfPhrase.printed, IfPhrase.tree, IfPhrase.tree, condition.tree_printed]
      exact Stmt.alike_ifElse _ _ (body.alike_printed hSound.2.2.1)
        (alternative.alike_printed hSound.2.2.2.2)

end

/-! ### Where the statements end -/

/-- The kind that statements start with where they are written, or the kind of what follows if
there are none. -/
def leadKind (after : TokenKind) (statements : List Stmt) : TokenKind :=
  ((Stmt.writtenAll statements).head?.map Prod.fst).getD after

mutual

/-- Whether the statements inside a statement stay apart. What stands inside a try is not
written as such. -/
def StmtPhrase.Apart : StmtPhrase → Prop
  | .block body | .func _ _ _ _ _ _ body | .loop _ _ body => body.Apart
  | .ifElse chain => chain.Apart
  | _ => True

def BlockPhrase.Apart : BlockPhrase → Prop
  | .mk _ items _ => items.Apart .rbrace

/-- Whether statements stay apart where nothing is written between them: each of them ends
where it does also in front of what the next one is written as. -/
def ItemsPhrase.Apart (after : TokenKind) : ItemsPhrase → Prop
  | .nil => True
  | .semicolon _ rest => rest.Apart after
  | .cons stmt _ rest => stmt.Fits (leadKind after rest.trees) ∧ stmt.Apart ∧ rest.Apart after

def IfPhrase.Apart : IfPhrase → Prop
  | .plain _ _ body => body.Apart
  | .elseIf _ _ body _ chain => body.Apart ∧ chain.Apart
  | .elseBlock _ _ body _ alternative => body.Apart ∧ alternative.Apart

end

/-- What starts tokens is known from their spelling. -/
theorem head?_of_spellings {tokens : List Token} {words : List Spelling} (hSome : tokens ≠ [])
    (hWords : tokens.map Token.spelling = words) (more : List Token) (others : List Spelling) :
    (tokens ++ more).head?.map Token.kind = (words ++ others).head?.map Prod.fst := by
  subst hWords
  cases tokens with
  | nil => exact absurd rfl hSome
  | cons token rest => rfl

/-- A printed simple statement starts with the kind of token that its tree is written with. -/
theorem SimplePhrase.head?_printed (phrase : SimplePhrase) (hLexed : AllLexed phrase.tokens) :
    phrase.printed.tokens.head?.map Token.kind = phrase.tree.written.head?.map Prod.fst := by
  cases phrase with
  | define names op values =>
      simp only [SimplePhrase.tokens, allLexed_append] at hLexed
      exact head?_of_spellings names.printed.tokens_ne_nil (names.map_spelling_printed hLexed.1) _ _
  | assign targets op hOp values =>
      simp only [SimplePhrase.tokens, allLexed_append] at hLexed
      exact head?_of_spellings targets.printed.tokens_ne_nil
        (targets.map_spelling_printed hLexed.1) _ _
  | incr target op hOp =>
      simp only [SimplePhrase.tokens, allLexed_append] at hLexed
      refine head?_of_spellings (ExprPhrase.tokens_ne_nil _) ?_ _ _
      rw [ExprPhrase.map_spelling_groupIf, target.map_spelling_printed hLexed.1]
  | expr value =>
      have hHead := head?_of_spellings value.printed.tokens_ne_nil
        (value.map_spelling_printed hLexed) [] []
      rwa [List.append_nil, List.append_nil] at hHead

/-- A printed statement starts with the kind that it is written with. -/
theorem StmtPhrase.head?_printed (stmt : StmtPhrase) (hLexed : AllLexed stmt.tokens) :
    stmt.printed.tokens.head?.map Token.kind = stmt.tree.written.head?.map Prod.fst := by
  cases stmt with
  | simple phrase => exact phrase.head?_printed hLexed
  | importGroup keyword opening paths closing =>
      have hPrinted : (StmtPhrase.printedGroup keyword opening closing paths).tokens.head?.map
          Token.kind = some .kwImport := by
        unfold StmtPhrase.printedGroup
        split <;> exact congrArg some keyword.property
      refine hPrinted.trans ?_
      simp only [StmtPhrase.tree]
      match paths.paths with
      | [] | [_] | _ :: _ :: _ => rfl
  | branch token hKind => rfl
  | comment token hKind =>
      rcases TokenKind.cases_of_isComment hKind with hLine | hBlock
      · simp [StmtPhrase.printed, StmtPhrase.tokens, StmtPhrase.tree, Parse.commentStmt,
          Stmt.written, Token.printedComment, hLine]
      · simp [StmtPhrase.printed, StmtPhrase.tokens, StmtPhrase.tree, Parse.commentStmt,
          Stmt.written, Token.printedComment, hBlock]
  | block body =>
      cases body with
      | mk opening items closing => exact congrArg some opening.property
  | ifElse chain =>
      cases chain with
      | plain keyword | elseIf keyword | elseBlock keyword => exact congrArg some keyword.property
  | loop keyword header body =>
      cases header with
      | endless | whileTrue | clauses => exact congrArg some keyword.property
  | package keyword | importOne keyword | decl _ keyword | ret keyword | throw keyword
  | func keyword | tryCatch keyword | tryFinally keyword => exact congrArg some keyword.property

/-- Printed statements start with the kind that they are written with. -/
theorem ItemsPhrase.kindBefore_printed (after : TokenKind) : (items : ItemsPhrase) →
    AllLexed items.tokens → kindBefore after items.printed.tokens = leadKind after items.trees
  | .nil, _ => rfl
  | .semicolon mark rest, hLexed => by
      simp only [ItemsPhrase.tokens, allLexed_cons] at hLexed
      exact rest.kindBefore_printed after hLexed.2
  | .cons stmt _ rest, hLexed => by
      simp only [ItemsPhrase.tokens, allLexed_append] at hLexed
      have hHead := stmt.head?_printed hLexed.1
      cases hTokens : stmt.printed.tokens with
      | nil => exact absurd hTokens stmt.printed.tokens_ne_nil
      | cons token tokens =>
          rw [hTokens, List.head?_cons, Option.map_some] at hHead
          obtain ⟨word, hWord, hKind⟩ := Option.map_eq_some_iff.mp hHead.symm
          obtain ⟨words, hWords⟩ := List.head?_eq_some_iff.mp hWord
          rw [ItemsPhrase.printed, ItemsPhrase.tokens, hTokens, leadKind, ItemsPhrase.trees,
            Stmt.writtenAll, hWords]
          exact hKind.symm

/-- No printed statement starts with a semicolon. -/
theorem ItemsPhrase.kindBefore_printed_ne {after : TokenKind} (hAfter : after ≠ .semicolon)
    (items : ItemsPhrase) : kindBefore after items.printed.tokens ≠ .semicolon := by
  cases items with
  | nil => exact hAfter
  | semicolon _ rest => exact rest.kindBefore_printed_ne hAfter
  | cons stmt _ rest =>
      have hNext : nextKind (stmt.printed.tokens ++ []) ≠ .semicolon :=
        stmt.printed.nextKind_ne (by decide) []
      rw [List.append_nil] at hNext
      rw [ItemsPhrase.printed, ItemsPhrase.tokens]
      cases hTokens : stmt.printed.tokens with
      | nil => exact absurd hTokens stmt.printed.tokens_ne_nil
      | cons token tokens =>
          rw [hTokens] at hNext
          exact hNext

theorem StmtPhrase.fits_printedGroup (keyword : Mark .kwImport) (opening : Mark .lparen)
    (closing : Mark .rparen) (paths : PathsPhrase) (next : TokenKind) :
    (StmtPhrase.printedGroup keyword opening closing paths).Fits next := by
  unfold StmtPhrase.printedGroup
  split <;> trivial

/-- A printed declaration fits where the declaration did, whatever was grouped in its value. -/
theorem StmtPhrase.fits_printedDecl {kind : DeclKind} {keyword : Mark kind.tokenKind}
    {name : Mark .ident} {type : Option TypePhrase} {init : Option InitPhrase} {next : TokenKind}
    (hLexed : AllLexed (tokensIf InitPhrase.tokens init))
    (hFits : (StmtPhrase.decl kind keyword name type init).Fits next) :
    (StmtPhrase.decl kind keyword name type init).printed.Fits next := by
  cases init with
  | some init =>
      simp only [tokensIf_some, InitPhrase.tokens, allLexed_cons] at hLexed
      obtain ⟨hType, -, hLevel⟩ := hFits
      refine ⟨fun found hFound => ?_, init.value.levelled_printed hLexed.2, hLevel⟩
      obtain ⟨phrase, rfl, rfl⟩ := Option.map_eq_some_iff.mp hFound
      exact ⟨phrase.isVariadic_printed.trans (hType phrase rfl).1,
        phrase.fits_printed (hType phrase rfl).2⟩
  | none =>
      cases type with
      | none => exact hFits
      | some type =>
          obtain ⟨hKind, hVariadic, hType, hAssign⟩ := hFits
          exact ⟨hKind, type.isVariadic_printed.trans hVariadic, type.fits_printed hType, hAssign⟩

mutual

/-- A printed statement ends where the statement does, if the statements in it stay apart. -/
theorem StmtPhrase.fits_printed : (stmt : StmtPhrase) → {next : TokenKind} →
    AllLexed stmt.tokens → stmt.Apart → stmt.Fits next → stmt.printed.Fits next
  | .package _ _, _, _, _, hFits | .importOne _ _, _, _, _, hFits | .branch _ _, _, _, _, hFits
  | .throw _ _, _, _, _, hFits | .tryCatch _ _ _ _, _, _, _, hFits
  | .tryFinally _ _ _ _ _ _, _, _, _, hFits => hFits
  | .importGroup keyword opening paths closing, next, _, _, _ =>
      StmtPhrase.fits_printedGroup keyword opening closing paths next
  | .decl _ _ _ _ _, _, hLexed, _, hFits => by
      simp only [StmtPhrase.tokens, allLexed_cons, allLexed_append] at hLexed
      exact StmtPhrase.fits_printedDecl hLexed.2.2.2 hFits
  | .simple phrase, _, hLexed, _, hFits => SimplePhrase.fits_printed hLexed hFits
  | .ret _ none, _, _, _, hFits => hFits
  | .ret _ (some values), _, hLexed, _, hFits => by
      simp only [StmtPhrase.tokens, allLexed_cons] at hLexed
      exact ⟨values.levelled_printed hLexed.2, hFits.2⟩
  | .comment _ _, _, _, _, _ => trivial
  | .block body, _, hLexed, hApart, _ => body.fits_printed hLexed hApart
  | .func _ _ _ params _ result body, _, hLexed, hApart, hFits => by
      simp only [StmtPhrase.tokens, allLexed_cons, allLexed_append] at hLexed
      refine ⟨fun found hFound => ?_, ResultPhrase.fits_printed hFits.2.1,
        body.fits_printed hLexed.2.2.2.2.2.2 hApart⟩
      obtain ⟨phrase, rfl, rfl⟩ := Option.map_eq_some_iff.mp hFound
      exact phrase.fits_printed (hFits.1 phrase rfl)
  | .ifElse chain, _, hLexed, hApart, hFits => chain.fits_printed hLexed hApart hFits
  | .loop _ header body, _, hLexed, hApart, hFits => by
      simp only [StmtPhrase.tokens, allLexed_cons, allLexed_append] at hLexed
      exact ⟨LoopPhrase.fits_printed hLexed.2.1 hFits.1, body.fits_printed hLexed.2.2 hApart⟩

/-- A printed block fits if its statements stay apart. -/
theorem BlockPhrase.fits_printed : (body : BlockPhrase) → AllLexed body.tokens → body.Apart →
    body.printed.Fits
  | .mk _ items _, hLexed, hApart => by
      simp only [BlockPhrase.tokens, allLexed_cons, allLexed_append] at hLexed
      exact items.fits_printed (by decide) hLexed.2.1 hApart

/-- Printed statements fit if none of them goes on with the one before. -/
theorem ItemsPhrase.fits_printed : (items : ItemsPhrase) → {after : TokenKind} →
    after ≠ .semicolon → AllLexed items.tokens → items.Apart after → items.printed.Fits after
  | .nil, _, _, _, _ => trivial
  | .semicolon _ rest, _, hAfter, hLexed, hApart => by
      simp only [ItemsPhrase.tokens, allLexed_cons] at hLexed
      exact rest.fits_printed hAfter hLexed.2 hApart
  | .cons stmt _ rest, after, hAfter, hLexed, hApart => by
      simp only [ItemsPhrase.tokens, allLexed_append] at hLexed
      refine ⟨?_, rest.kindBefore_printed_ne hAfter, rest.fits_printed hAfter hLexed.2.2 hApart.2.2⟩
      rw [rest.kindBefore_printed after hLexed.2.2]
      exact stmt.fits_printed hLexed.1 hApart.2.1 hApart.1

/-- A printed chain fits if its statements stay apart. -/
theorem IfPhrase.fits_printed : (chain : IfPhrase) → {next : TokenKind} →
    AllLexed chain.tokens → chain.Apart → chain.Fits next → chain.printed.Fits next
  | .plain _ condition body, _, hLexed, hApart, hFits => by
      simp only [IfPhrase.tokens, allLexed_cons, allLexed_append] at hLexed
      exact ⟨condition.levelled_printed hLexed.2.1, body.fits_printed hLexed.2.2 hApart, hFits.2.2⟩
  | .elseIf _ condition body _ chain, _, hLexed, hApart, hFits => by
      simp only [IfPhrase.tokens, allLexed_cons, allLexed_append] at hLexed
      exact ⟨condition.levelled_printed hLexed.2.1, body.fits_printed hLexed.2.2.1 hApart.1,
        chain.fits_printed hLexed.2.2.2.2 hApart.2 hFits.2.2⟩
  | .elseBlock _ condition body _ alternative, _, hLexed, hApart, _ => by
      simp only [IfPhrase.tokens, allLexed_cons, allLexed_append] at hLexed
      exact ⟨condition.levelled_printed hLexed.2.1, body.fits_printed hLexed.2.2.1 hApart.1,
        alternative.fits_printed hLexed.2.2.2.2 hApart.2⟩

end

end TryGo
