import TryGo.Proofs.PassThrough.Lines
import TryGo.Proofs.PassThrough.Simple

/-! What the lines of statements keep of their source. The lines of a statement without a try or a
throw say what its leaves do, in their order. -/
namespace TryGo

/-- Only a try leaves comments behind it. -/
theorem StmtPhrase.trailing_of_isPlain (phrase : StmtPhrase) (hPlain : phrase.tree.isPlain = true) :
    phrase.trailing = [] := by
  cases phrase with
  | tryCatch => cases hPlain
  | _ => rfl

def BlockPhrase.inside : BlockPhrase → ItemsPhrase
  | .mk _ items _ => items

namespace Lower

/-- A block says its braces and what stands between them. -/
theorem keptLeaves_block (block : BlockPhrase) (hLexed : AllLexed block.tokens) :
    keptLeaves block.leaves =
      kept "\x7b" ++ (keptLeaves block.inside.leaves ++ kept "\x7d") := by
  cases block with
  | mk opening items closing =>
      simp only [BlockPhrase.tokens, allLexed_cons, allLexed_append] at hLexed
      simp only [BlockPhrase.leaves, BlockPhrase.inside, keptLeaves_word, keptLeaves_append,
        keptLeaves_nil, List.append_nil, squash_mark opening hLexed.1 "\x7b" (by decide),
        squash_mark closing hLexed.2.2.1 "\x7d" (by decide)]

/-! ### Statements without blocks -/

theorem DeclKind.fixed_tokenKind (kind : DeclKind) :
    kind.tokenKind.fixed? = some kind.keyword := by
  cases kind <;> decide

/-- The line of a declaration keeps its leaves. -/
theorem decl_kept (kind : DeclKind) (keyword : Mark kind.tokenKind) (name : Mark .ident)
    (type : Option TypePhrase) (init : Option InitPhrase)
    (hLexed : AllLexed (StmtPhrase.decl kind keyword name type init).tokens) (depth : Nat) :
    keptLines ((StmtPhrase.decl kind keyword name type init).tree.lines depth) =
      keptLeaves (StmtPhrase.decl kind keyword name type init).leaves := by
  simp only [StmtPhrase.tokens, allLexed_cons, allLexed_append] at hLexed
  obtain ⟨hKeyword, -, hType, hInit⟩ := hLexed
  have hValue : (if ((init.map fun init : InitPhrase => init.value.tree).getD .missing).isMissing
      then none else some ((init.map fun init : InitPhrase => init.value.tree).getD .missing).go) =
        init.map fun init : InitPhrase => init.value.tree.go := by
    cases init with
    | none => rfl
    | some init =>
        simp only [Option.map_some, Option.getD_some, init.value.isMissing_tree]
        rfl
  simp only [StmtPhrase.tree, Stmt.lines, simpleCode, hValue, keptLines_line, keptLines_nil]
  simp only [Go.Code.text, Expr.text, StmtPhrase.leaves, keptLeaves_word, keptLeaves_append,
    kept_append, kept_typeSuffix, kept_optionalType type hType, ← kept_init init hInit,
    squash_name name, squash_mark keyword hKeyword _ (DeclKind.fixed_tokenKind kind),
    List.append_assoc, List.append_nil]
  rfl

/-- The line of a simple statement keeps its tokens. -/
theorem simple_kept (phrase : SimplePhrase) (hLexed : AllLexed phrase.tokens) (depth : Nat) :
    keptLines (phrase.tree.lines depth) = keptLeaves (words phrase.tokens) := by
  have hLines : phrase.tree.lines depth = [⟨depth, simpleCode phrase.tree⟩] := by
    cases phrase <;> rfl
  rw [hLines, keptLines_line, keptLines_nil, List.append_nil, kept_simpleCode phrase hLexed]

/-- The line of a return keeps its leaves. -/
theorem ret_kept (keyword : Mark .kwReturn) (values : Option ExprsPhrase)
    (hLexed : AllLexed (StmtPhrase.ret keyword values).tokens) (depth : Nat) :
    keptLines ((StmtPhrase.ret keyword values).tree.lines depth) =
      keptLeaves (StmtPhrase.ret keyword values).leaves := by
  simp only [StmtPhrase.tokens, allLexed_cons] at hLexed
  simp only [StmtPhrase.leaves, keptLeaves_word, squash_mark keyword hLexed.1 "return" (by decide),
    StmtPhrase.tree, Stmt.lines, keptLines_line, keptLines_nil, List.append_nil, Go.Code.text]
  cases values with
  | none => rfl
  | some values =>
      have hText : Go.Code.returnText (values.trees.map Expr.go) =
          "return " ++ Text.commaSeparated (values.trees.map Expr.go) := by
        cases values <;> rfl
      rw [Option.map_some, Option.getD_some, hText, kept_append, values.kept_go hLexed.2]
      rfl

/-- The lines of an import keep its paths, in brackets or not. -/
theorem imports_kept (keyword : Mark .kwImport) (hLexed : keyword.val.Lexed) {leaves : List Leaf}
    {paths : List String} (hPaths : keptLeaves leaves = keptPaths paths) (depth : Nat) :
    keptLines ((Stmt.imports keyword.val paths).lines depth) =
      keptLeaves (.word keyword.val :: leaves) := by
  rw [Stmt.lines, kept_importCode, keptLeaves_word, squash_mark keyword hLexed "import" (by decide),
    hPaths]

theorem branch_kept {token : Token} (hKind : token.kind = .kwBreak ∨ token.kind = .kwContinue)
    (hLexed : token.Lexed) (depth : Nat) :
    keptLines ((Stmt.branch token).lines depth) = keptLeaves [.word token] := by
  rw [keptLeaves_word, keptLeaves_nil, Stmt.lines, keptLines_line, keptLines_nil]
  rcases hKind with hKind | hKind
  · rw [squash_mark ⟨token, hKind⟩ hLexed "break" (by decide), hKind]
    rfl
  · rw [squash_mark ⟨token, hKind⟩ hLexed "continue" (by decide), hKind]
    rfl

/-! ### Statements with blocks -/

/-- What the contents of a block say, at any depth, is what its leaves do. -/
def BlockKept (block : BlockPhrase) : Prop :=
  ∀ depth, keptLines (block.tree.bodyLines depth) = keptLeaves block.inside.leaves

section Blocks

variable {body : BlockPhrase} (depth : Nat)

/-- A block is kept alike by itself and behind an else. -/
theorem block_lines_kept (hLexed : AllLexed body.tokens) (hBody : BlockKept body) :
    keptLines (body.tree.lines depth) = keptLeaves body.leaves
      ∧ keptLines (body.tree.elseLines depth) =
        kept "\x7d" ++ (kept "else" ++ keptLeaves body.leaves) := by
  have hInside := hBody (depth + 1)
  rw [keptLeaves_block body hLexed, ← hInside]
  cases body with
  | mk opening items closing =>
      simp only [BlockPhrase.tree, Stmt.lines, Stmt.elseLines, Stmt.bodyLines, keptLines_line,
        keptLines_append, keptLines_nil, List.append_nil]
      exact ⟨rfl, rfl⟩

/-- A conditional at the start of a chain and further down. -/
theorem conditional_kept {keyword : Mark .kwIf} {condition : ExprPhrase} {alternative : Stmt}
    {rest : List Char} (hKeyword : keyword.val.Lexed) (hLexed : AllLexed condition.tokens)
    (hBlock : AllLexed body.tokens) (hBody : BlockKept body)
    (hElse : keptLines (alternative.elseLines depth) = kept "\x7d" ++ rest) :
    let said := squash keyword.val.spelled ++ (keptLeaves (words condition.tokens)
      ++ (keptLeaves body.leaves ++ rest))
    keptLines ((Stmt.ifElse keyword.val condition.tree body.tree alternative).lines depth) = said
      ∧ keptLines
          ((Stmt.ifElse keyword.val condition.tree body.tree alternative).elseLines depth) =
        kept "\x7d" ++ (kept "else" ++ said) := by
  dsimp only
  rw [squash_mark keyword hKeyword "if" (by decide), keptLeaves_block body hBlock]
  simp only [Stmt.lines, Stmt.elseLines, keptLines_line, keptLines_append, hBody (depth + 1),
    hElse, Go.Code.text, kept_append, condition.kept_go hLexed, List.append_assoc]
  exact ⟨rfl, rfl⟩

/-- The lines of a loop keep its header and its body. -/
theorem loop_kept {keyword : Mark .kwFor} {header : LoopPhrase}
    (hLexed : AllLexed (StmtPhrase.loop keyword header body).tokens) (hBody : BlockKept body) :
    keptLines ((StmtPhrase.loop keyword header body).tree.lines depth) =
      keptLeaves (StmtPhrase.loop keyword header body).leaves := by
  simp only [StmtPhrase.tokens, allLexed_cons, allLexed_append] at hLexed
  obtain ⟨hKeyword, hHeader, hBlock⟩ := hLexed
  obtain ⟨init, condition, update, hTree, hText⟩ : ∃ init condition update,
      header.tree keyword.val body.tree = .loop keyword.val init condition update body.tree
        ∧ kept (loopText init condition update) =
          kept "for" ++ keptLeaves (words header.tokens) := by
    have hNone {α : Type} (f : α → List Token) : AllLexed (tokensIf f none) :=
      fun _ hMem => absurd hMem List.not_mem_nil
    cases header with
    | endless => exact ⟨_, _, _, rfl, kept_loopText none none none (hNone _) (hNone _) (hNone _)⟩
    | whileTrue condition =>
        refine ⟨_, _, _, rfl,
          (kept_loopText none (some condition) none (hNone _) hHeader (hNone _)).trans ?_⟩
        exact congrArg (kept "for" ++ ·) (List.append_nil _)
    | clauses init first condition second update =>
        simp only [LoopPhrase.tokens, allLexed_append, allLexed_cons] at hHeader
        obtain ⟨hInit, hFirst, hCondition, hSecond, hUpdate⟩ := hHeader
        refine ⟨_, _, _, rfl,
          (kept_loopText init condition update hInit hCondition hUpdate).trans ?_⟩
        simp only [LoopPhrase.tokens, words_append, words_cons, keptLeaves_append, keptLeaves_word,
          squash_mark first hFirst ";" (by decide), squash_mark second hSecond ";" (by decide)]
        rfl
  rw [StmtPhrase.tree, hTree]
  simp only [Stmt.lines, keptLines_line, keptLines_append, keptLines_nil, hBody (depth + 1),
    StmtPhrase.leaves, keptLeaves_word, keptLeaves_append, Go.Code.text, kept_append, hText,
    keptLeaves_block body hBlock, squash_mark keyword hKeyword "for" (by decide),
    List.append_assoc]
  rfl

/-- A function says its signature and its body. -/
theorem func_kept {keyword : Mark .kwFunc} {name : Mark .ident} {opening : Mark .lparen}
    {params : Option ParamsPhrase} {closing : Mark .rparen} {result : ResultPhrase}
    (hLexed : AllLexed (StmtPhrase.func keyword name opening params closing result body).tokens)
    (hBody : BlockKept body) :
    keptLines
        ((StmtPhrase.func keyword name opening params closing result body).tree.lines depth) =
      keptLeaves (StmtPhrase.func keyword name opening params closing result body).leaves := by
  simp only [StmtPhrase.tokens, allLexed_cons, allLexed_append] at hLexed
  obtain ⟨hKeyword, -, hOpening, hParams, hClosing, hResult, hBlock⟩ := hLexed
  simp only [StmtPhrase.tree, Stmt.lines, keptLines_line, keptLines_append, keptLines_nil,
    hBody (depth + 1), StmtPhrase.leaves, keptLeaves_word, keptLeaves_append, Go.Code.text,
    signatureText, Expr.text, kept_append, kept_typeSuffix, kept_parameterList params hParams,
    kept_result result hResult, keptLeaves_block body hBlock, squash_name name,
    squash_mark keyword hKeyword "func" (by decide), squash_mark opening hOpening "(" (by decide),
    squash_mark closing hClosing ")" (by decide), List.append_assoc]
  rfl

end Blocks

mutual

/-- The lines of a statement without a try or a throw say what its leaves do. -/
theorem stmt_kept : (phrase : StmtPhrase) → AllLexed phrase.tokens → phrase.tree.isPlain = true →
    (depth : Nat) → keptLines (phrase.tree.lines depth) = keptLeaves phrase.leaves
  | .throw _ _, _, hPlain, _ | .tryCatch _ _ _ _, _, hPlain, _
  | .tryFinally _ _ _ _ _ _, _, hPlain, _ => absurd hPlain Bool.false_ne_true
  | .package keyword name, hLexed, _, _ => by
      simp only [StmtPhrase.tokens, allLexed_cons] at hLexed
      simp only [StmtPhrase.tree, Stmt.lines, keptLines_line, keptLines_nil, Go.Code.text,
        StmtPhrase.leaves, words_cons, words_nil, keptLeaves_word, keptLeaves_nil, kept_append,
        List.append_nil, squash_name name, squash_mark keyword hLexed.1 "package" (by decide)]
      rfl
  | .importOne keyword path, hLexed, _, depth => by
      refine imports_kept keyword (hLexed keyword.val List.mem_cons_self) ?_ depth
      change keptLeaves [.word path.val] = _
      rw [keptLeaves_word, squash_path]
      rfl
  | .importGroup keyword opening paths closing, hLexed, _, depth => by
      simp only [StmtPhrase.tokens, allLexed_cons, allLexed_append] at hLexed
      refine imports_kept keyword hLexed.1 ?_ depth
      simp only [keptLeaves_word, keptLeaves_append, keptLeaves_nil,
        squash_mark opening hLexed.2.1 "(" (by decide),
        squash_mark closing hLexed.2.2.2.1 ")" (by decide), keptLeaves_paths paths hLexed.2.2.1]
      exact List.append_nil _
  | .decl kind keyword name type init, hLexed, _, depth =>
      decl_kept kind keyword name type init hLexed depth
  | .simple phrase, hLexed, _, depth => simple_kept phrase hLexed depth
  | .ret keyword values, hLexed, _, depth => ret_kept keyword values hLexed depth
  | .branch token hKind, hLexed, _, depth =>
      branch_kept hKind (hLexed token List.mem_cons_self) depth
  | .comment token hKind, hLexed, _, _ => by
      simp only [StmtPhrase.tree, Parse.commentStmt, Stmt.lines, keptLines_line, keptLines_nil,
        Go.Code.text, kept_comment hKind (hLexed token List.mem_cons_self), StmtPhrase.leaves,
        keptLeaves_word, keptLeaves_nil]
  | .block body, hLexed, hPlain, depth =>
      (block_lines_kept depth hLexed (block_kept body hLexed hPlain)).1
  | .func keyword name opening params closing result body, hLexed, hPlain, depth => by
      have hBody : AllLexed body.tokens := by
        simp only [StmtPhrase.tokens, allLexed_cons, allLexed_append] at hLexed
        exact hLexed.2.2.2.2.2.2
      exact func_kept depth hLexed (block_kept body hBody hPlain)
  | .ifElse chain, hLexed, hPlain, depth => (chain_kept chain hLexed hPlain depth).1
  | .loop keyword header body, hLexed, hPlain, depth => by
      have hBody : AllLexed body.tokens := by
        simp only [StmtPhrase.tokens, allLexed_cons, allLexed_append] at hLexed
        exact hLexed.2.2
      have hBodyPlain : body.tree.isPlain = true := by
        cases header <;> simp only [StmtPhrase.tree, LoopPhrase.tree, Stmt.isPlain,
          Bool.and_eq_true] at hPlain <;> exact hPlain.2
      exact loop_kept depth hLexed (block_kept body hBody hBodyPlain)

/-- The lines in a block keep the leaves of its statements. -/
theorem block_kept : (block : BlockPhrase) → AllLexed block.tokens →
    block.tree.isPlain = true → BlockKept block
  | .mk opening items closing, hLexed, hPlain => by
      simp only [BlockPhrase.tokens, allLexed_cons, allLexed_append] at hLexed
      exact items_kept items hLexed.2.1 hPlain

/-- The lines of statements in a row keep their leaves. -/
theorem items_kept : (items : ItemsPhrase) → AllLexed items.tokens →
    Stmt.allPlain items.trees = true → (depth : Nat) →
      keptLines (Stmt.allLines items.trees depth) = keptLeaves items.leaves
  | .nil, _, _, _ => rfl
  | .semicolon mark rest, hLexed, hPlain, depth => by
      simp only [ItemsPhrase.tokens, allLexed_cons] at hLexed
      rw [ItemsPhrase.leaves, keptLeaves_word, squash_mark mark hLexed.1 ";" (by decide)]
      exact items_kept rest hLexed.2 hPlain depth
  | .cons stmt semicolon rest, hLexed, hPlain, depth => by
      simp only [ItemsPhrase.tokens, allLexed_append] at hLexed
      rw [ItemsPhrase.trees, Stmt.allPlain, Bool.and_eq_true] at hPlain
      rw [ItemsPhrase.leaves, keptLeaves_append, keptLeaves_append, ItemsPhrase.trees,
        keptLeaves_semicolon semicolon hLexed.2.1]
      rw [stmt.trailing_of_isPlain hPlain.1] at hPlain ⊢
      change keptLines (stmt.tree.lines depth ++ Stmt.allLines rest.trees depth) = _
      rw [keptLines_append, stmt_kept stmt hLexed.1 hPlain.1 depth,
        items_kept rest hLexed.2.2 hPlain.2 depth]
      rfl

/-- The lines of a chain of conditionals keep its leaves, from any of its links on. -/
theorem chain_kept : (chain : IfPhrase) → AllLexed chain.tokens → chain.tree.isPlain = true →
    (depth : Nat) → keptLines (chain.tree.lines depth) = keptLeaves chain.leaves
      ∧ keptLines (chain.tree.elseLines depth) =
        kept "\x7d" ++ (kept "else" ++ keptLeaves chain.leaves)
  | .plain keyword condition body, hLexed, hPlain, depth => by
      simp only [IfPhrase.tokens, allLexed_cons, allLexed_append] at hLexed
      rw [IfPhrase.tree, Stmt.isPlain, Bool.and_eq_true] at hPlain
      have hElse : keptLines (Stmt.missing.elseLines depth) = kept "\x7d" ++ [] := by
        simp only [Stmt.elseLines, keptLines_line, keptLines_nil]
        rfl
      have hChain := conditional_kept depth hLexed.1 hLexed.2.1 hLexed.2.2
        (block_kept body hLexed.2.2 hPlain.1) hElse
      simpa only [IfPhrase.leaves, IfPhrase.tree, keptLeaves_word, keptLeaves_append,
        List.append_nil] using hChain
  | .elseIf keyword condition body otherwise chain, hLexed, hPlain, depth => by
      simp only [IfPhrase.tokens, allLexed_cons, allLexed_append] at hLexed
      obtain ⟨hKeyword, hCondition, hBlock, hOtherwise, hNext⟩ := hLexed
      rw [IfPhrase.tree, Stmt.isPlain, Bool.and_eq_true] at hPlain
      have hChain := conditional_kept depth hKeyword hCondition hBlock
        (block_kept body hBlock hPlain.1) (chain_kept chain hNext hPlain.2 depth).2
      simpa only [IfPhrase.leaves, IfPhrase.tree, keptLeaves_word, keptLeaves_append,
        squash_mark otherwise hOtherwise "else" (by decide)] using hChain
  | .elseBlock keyword condition body otherwise alternative, hLexed, hPlain, depth => by
      simp only [IfPhrase.tokens, allLexed_cons, allLexed_append] at hLexed
      obtain ⟨hKeyword, hCondition, hBlock, hOtherwise, hAlternative⟩ := hLexed
      rw [IfPhrase.tree, Stmt.isPlain, Bool.and_eq_true] at hPlain
      have hElse := (block_lines_kept depth hAlternative
        (block_kept alternative hAlternative hPlain.2)).2
      have hChain := conditional_kept depth hKeyword hCondition hBlock
        (block_kept body hBlock hPlain.1) hElse
      simpa only [IfPhrase.leaves, IfPhrase.tree, keptLeaves_word, keptLeaves_append,
        squash_mark otherwise hOtherwise "else" (by decide)] using hChain

end

/-- The blank lines between the statements of a program say nothing. -/
theorem topLines_kept (statements : List Stmt) (previous : Option Stmt) (depth : Nat) :
    keptLines (Stmt.topLines previous statements depth) =
      keptLines (Stmt.allLines statements depth) := by
  induction statements generalizing previous with
  | nil => rfl
  | cons s rest ih =>
      rw [Stmt.topLines, Stmt.allLines, keptLines_append, keptLines_append, keptLines_append, ih]
      split
      · rw [keptLines_line]
        rfl
      · rfl

end Lower

end TryGo
