import TryGo.Proofs.Declare.Levels
import TryGo.Proofs.PassThrough.Text
import TryGo.Proofs.Step.Run

/-! What the printed parts of statements keep of their source: simple statements, comments, imports,
parameters and loop headers. -/
namespace TryGo.Lower

/-! ### Lines -/

/-- Nothing is kept of tabs. -/
theorem kept_tabs (count : Nat) : kept (Text.repeated "\t" count) = [] := by
  induction count with
  | zero => rfl
  | succ count ih =>
      rw [Text.repeated, kept_append, ih]
      rfl

/-- A line says what its code does, whatever its depth. -/
theorem kept_line (depth : Nat) (code : Go.Code) :
    kept (Go.Line.text ⟨depth, code⟩) = kept code.text := by
  rw [Go.Line.text]
  split
  next hEmpty => rw [eq_of_beq hEmpty]
  next => rw [kept_append, kept_tabs, List.nil_append]

def keptLines (lines : List Go.Line) : List Char := lines.flatMap fun line => kept line.text

@[simp] theorem keptLines_nil : keptLines [] = [] := rfl

@[simp] theorem keptLines_line (depth : Nat) (code : Go.Code) (lines : List Go.Line) :
    keptLines (⟨depth, code⟩ :: lines) = kept code.text ++ keptLines lines := by
  rw [keptLines, List.flatMap_cons, kept_line]
  rfl

@[simp] theorem keptLines_append (lines more : List Go.Line) :
    keptLines (lines ++ more) = keptLines lines ++ keptLines more := List.flatMap_append

/-- The ends of the lines are filler. -/
theorem kept_sourceText (lines : List Go.Line) : kept (Go.sourceText lines) = keptLines lines := by
  rw [Go.sourceText]
  induction lines with
  | nil => rfl
  | cons line lines ih =>
      have hLine : keptLines (line :: lines) = kept line.text ++ keptLines lines :=
        List.flatMap_cons
      rw [List.map_cons, Text.concat_cons, kept_append, kept_append, ih, hLine]
      exact congrArg (· ++ _) (List.append_nil (kept line.text))

/-! ### Simple statements -/

theorem not_delimited_of_assign {kind : TokenKind} (hKind : kind ∈ TokenKind.assignOperators) :
    kind ∉ delimitedKinds := by
  have hTable : ∀ kind ∈ TokenKind.assignOperators, kind ∉ delimitedKinds := by decide
  exact hTable kind hKind

/-- The line of a simple statement says what its tokens do. -/
theorem kept_simpleCode (phrase : SimplePhrase) (hLexed : AllLexed phrase.tokens) :
    kept (simpleCode phrase.tree).text = keptLeaves (words phrase.tokens) := by
  cases phrase with
  | define names op values =>
      simp only [SimplePhrase.tokens, allLexed_append, allLexed_cons] at hLexed
      simp only [SimplePhrase.tree, simpleCode, Go.Code.text, SimplePhrase.tokens, words_append,
        words_cons, keptLeaves_append, keptLeaves_word, kept_append, List.append_assoc,
        names.kept_go hLexed.1, values.kept_go hLexed.2.2,
        squash_mark op hLexed.2.1 ":=" (by decide)]
      rfl
  | assign targets op hOp values =>
      simp only [SimplePhrase.tokens, allLexed_append, allLexed_cons] at hLexed
      simp only [SimplePhrase.tree, simpleCode, Go.Code.text, SimplePhrase.tokens, words_append,
        words_cons, keptLeaves_append, keptLeaves_word, kept_append, List.append_assoc,
        targets.kept_go hLexed.1, values.kept_go hLexed.2.2,
        squash_plain (not_delimited_of_assign hOp)]
      rfl
  | incr target op hOp =>
      simp only [SimplePhrase.tokens, allLexed_append, allLexed_cons] at hLexed
      have hKind : op.kind ∉ delimitedKinds := by
        rcases hOp with hOp | hOp <;> rw [hOp] <;> decide
      simp only [SimplePhrase.tree, simpleCode, Go.Code.text, SimplePhrase.tokens, words_append,
        words_cons, words_nil, keptLeaves_append, keptLeaves_word, keptLeaves_nil, kept_append,
        List.append_nil, Expr.goAt_eq target.tree Precedence.call.level (by decide),
        kept_parenIf, target.kept_goText hLexed.1, squash_plain hKind]
  | expr value => exact value.kept_go hLexed

/-! ### Types, declarations and parameters -/

/-- A type that says nothing adds nothing either. -/
theorem kept_typeSuffix (type : Option String) : kept (typeSuffix type) = kept (type.getD "") := by
  rw [typeSuffix]
  cases hTyped : isTyped type with
  | true =>
      rw [if_pos rfl, kept_append]
      rfl
  | false =>
      cases type with
      | none => rfl
      | some text =>
          have hEmpty : text = "" := by simpa [isTyped] using hTyped
          rw [hEmpty]
          rfl

/-- The text of a type keeps its leaves. -/
theorem kept_optionalType (type : Option TypePhrase)
    (hLexed : AllLexed (tokensIf TypePhrase.tokens type)) :
    kept ((type.map fun type => type.type.text).getD "") =
      keptLeaves (leavesIf TypePhrase.leaves type) := by
  cases type with
  | none => rfl
  | some type => exact type.kept_text hLexed

/-- The text of a result keeps its leaves. -/
theorem kept_result (result : ResultPhrase) (hLexed : AllLexed result.tokens) :
    kept ((result.type?.map GoType.text).getD "") = keptLeaves result.leaves := by
  cases result with
  | none => rfl
  | single type => exact type.kept_text hLexed
  | tuple types =>
      have hTexts := types.kept_texts hLexed
      simp only [ResultPhrase.type?, Option.map_some, Option.getD_some, GoType.text, kept_append,
        ResultPhrase.leaves, hTexts]
      exact List.append_nil _

/-- The text of a value keeps its leaves. -/
theorem kept_init (init : Option InitPhrase) (hLexed : AllLexed (tokensIf InitPhrase.tokens init)) :
    kept (match init.map fun init => init.value.tree.go with
      | none => ""
      | some value => " = " ++ value) = keptLeaves (words (tokensIf InitPhrase.tokens init)) := by
  cases init with
  | none => rfl
  | some init =>
      simp only [tokensIf_some, InitPhrase.tokens, allLexed_cons] at hLexed
      simp only [Option.map_some, tokensIf_some, InitPhrase.tokens, words_cons, keptLeaves_word,
        kept_append, squash_mark init.op hLexed.1 "=" (by decide), init.value.kept_go hLexed.2]
      rfl

/-- The parameters of a function say what their leaves do. -/
theorem kept_param (param : ParamPhrase) (hLexed : AllLexed param.tokens) :
    kept (if isTyped param.tree.2 then param.tree.1.text ++ " " ++ param.tree.2.getD ""
      else param.tree.1.text) = keptLeaves param.leaves := by
  simp only [ParamPhrase.tokens, allLexed_cons] at hLexed
  have hSplit : kept (if isTyped param.tree.2 then
      param.tree.1.text ++ " " ++ param.tree.2.getD "" else param.tree.1.text) =
        kept param.tree.1.text ++ kept (typeSuffix param.tree.2) := by
    rw [typeSuffix]
    split <;> simp only [kept_append, kept_empty, List.append_nil, List.append_assoc]
  rw [hSplit, kept_typeSuffix, ParamPhrase.leaves, keptLeaves_word, squash_name,
    ← kept_optionalType param.type hLexed.2]
  rfl

/-- The texts of parameters keep their leaves. -/
theorem kept_params : (params : ParamsPhrase) → AllLexed params.tokens →
    kept (Text.commaSeparated (params.trees.map fun entry =>
      if isTyped entry.2 then entry.1.text ++ " " ++ entry.2.getD "" else entry.1.text)) =
        keptLeaves params.leaves
  | .last param, hLexed => kept_param param hLexed
  | .more param comma rest, hLexed => by
      simp only [ParamsPhrase.tokens, allLexed_append, allLexed_cons] at hLexed
      have hRest : rest.trees.map (fun entry =>
          if isTyped entry.2 then entry.1.text ++ " " ++ entry.2.getD "" else entry.1.text) ≠ [] := by
        cases rest <;> exact List.cons_ne_nil _ _
      rw [ParamsPhrase.trees, List.map_cons, kept_commaSeparated_cons _ hRest,
        kept_param param hLexed.1, kept_params rest hLexed.2.2, ParamsPhrase.leaves,
        keptLeaves_append, keptLeaves_word, squash_mark comma hLexed.2.1 "," (by decide)]

/-- So does the list between its brackets. -/
theorem kept_parameterList (params : Option ParamsPhrase)
    (hLexed : AllLexed (tokensIf ParamsPhrase.tokens params)) :
    kept (parameterList (((params.map ParamsPhrase.trees).getD []).map Prod.fst)
      (((params.map ParamsPhrase.trees).getD []).map Prod.snd)) =
        keptLeaves (leavesIf ParamsPhrase.leaves params) := by
  rw [parameterList, ← List.zip_of_prod rfl rfl]
  cases params with
  | none => rfl
  | some params => exact kept_params params hLexed

/-! ### Comments and imports -/

theorem isFiller_of_isSpace {c : Char} (hSpace : Text.isSpace c = true) : isFiller c = true := by
  rw [isFiller, hSpace]
  rfl

/-- Spaces in front are squashed anyway. -/
theorem squash_dropWhile (chars : List Char) :
    squash (chars.dropWhile Text.isSpace) = squash chars := by
  induction chars with
  | nil => rfl
  | cons c chars ih =>
      by_cases hSpace : Text.isSpace c = true
      · rw [List.dropWhile_cons, if_pos hSpace, ih, squash, squash, List.filter_cons,
          if_neg (by simp [isFiller_of_isSpace hSpace])]
      · rw [List.dropWhile_cons, if_neg hSpace]

/-- Spaces at the end are squashed anyway. -/
theorem squash_trimRight (chars : List Char) : squash (Text.trimRight chars) = squash chars := by
  have hReverse := squash_dropWhile chars.reverse
  rw [Text.trimRight, squash, List.filter_reverse]
  rw [squash, squash, List.filter_reverse] at hReverse
  rw [hReverse, List.reverse_reverse]
  rfl

/-- Trimming removes filler only. -/
theorem squash_trim (chars : List Char) : squash (Text.trim chars) = squash chars := by
  rw [Text.trim, squash_trimRight, squash_dropWhile]

/-- What stands between the marks of a comment, both of which may be there. -/
theorem kept_blockComment (inner : List Char) :
    kept (commentText (String.ofList (Text.trim (if ['*', '/'].isSuffixOf inner then
      inner.take (inner.length - 2) else inner))) true) =
        squash (closedComment ('/' :: '*' :: inner)) := by
  have hText (chars : List Char) : kept (commentText (String.ofList (Text.trim chars)) true) =
      squash ('/' :: '*' :: (chars ++ ['*', '/'])) := by
    rw [commentText, if_pos rfl, kept_append, kept_append]
    have hChars : kept (String.ofList (Text.trim chars)) = squash chars := by
      rw [kept, String.toList_ofList, squash_trim]
    have hSplit : '/' :: '*' :: (chars ++ ['*', '/']) = ['/', '*'] ++ chars ++ ['*', '/'] := by simp
    rw [hChars, hSplit, squash_append, squash_append]
    rfl
  rw [hText, closedComment]
  by_cases hClosed : ['*', '/'].isSuffixOf inner = true
  · obtain ⟨start, rfl⟩ := List.isSuffixOf_iff_suffix.mp hClosed
    have hTake : (start ++ ['*', '/']).take ((start ++ ['*', '/']).length - 2) = start := by
      rw [List.length_append]
      exact List.take_left
    rw [if_pos hClosed, hTake, List.drop_succ_cons, List.drop_succ_cons, List.drop_zero,
      if_pos hClosed]
  · rw [if_neg hClosed, List.drop_succ_cons, List.drop_succ_cons, List.drop_zero, if_neg hClosed]
    rfl

/-- The line of a comment says what its token does. -/
theorem kept_comment {token : Token} (hKind : token.kind.isComment = true) (hLexed : token.Lexed) :
    kept (commentText (Parse.commentContent token) (token.kind == .blockComment)) =
      squash token.spelled := by
  rcases TokenKind.cases_of_isComment hKind with hLine | hBlock
  · obtain ⟨inner, hInner⟩ := hLexed.line hLine
    rw [squash_plain (by rw [hLine]; decide)]
    have hContent : Parse.commentContent token = String.ofList inner := by
      unfold Parse.commentContent
      rw [hLine, ← hInner]
      simp [List.isPrefixOf]
    rw [hContent, hLine, kept, kept, ← hInner]
    simp [commentText]
  · obtain ⟨inner, hInner⟩ := hLexed.block hBlock
    have hSpelled : token.spelled = closedComment ('/' :: '*' :: inner) := by
      simp only [Token.spelled, hBlock, ← hInner]
      rfl
    have hContent : Parse.commentContent token = String.ofList (Text.trim
        (if ['*', '/'].isSuffixOf inner then inner.take (inner.length - 2) else inner)) := by
      unfold Parse.commentContent
      rw [hBlock, ← hInner]
      simp [List.isPrefixOf]
    rw [hContent, hBlock, hSpelled, ← kept_blockComment]
    rfl

def keptPaths (paths : List String) : List Char :=
  paths.flatMap fun path => kept ("\"" ++ path ++ "\"")

/-- An import says the same in either form. -/
theorem kept_importCode (depth : Nat) (paths : List String) :
    keptLines (importCode depth paths) = kept "import" ++ keptPaths paths := by
  have hGroup (paths : List String) :
      keptLines (paths.map fun path => ⟨depth + 1, .groupedPath path⟩) = keptPaths paths := by
    rw [keptPaths, keptLines, List.flatMap_map]
    exact congrArg (paths.flatMap ·) (funext fun path => kept_line (depth + 1) (.groupedPath path))
  unfold importCode
  split
  next path =>
    rw [keptLines_line, keptPaths, List.flatMap_cons, List.flatMap_nil, List.append_nil]
    simp only [Go.Code.text, kept_append, List.append_assoc]
    rfl
  next =>
    rw [keptLines_line, keptLines_append, hGroup, keptLines_line]
    exact congrArg (kept "import" ++ ·) (List.append_nil _)

theorem squash_path (path : Mark .string) :
    squash path.val.spelled = kept ("\"" ++ path.val.literal ++ "\"") := by
  rw [Token.spelled, path.property]
  simp [kept]

/-- Nothing is kept of comments in an import group. -/
theorem keptLeaves_groupComment (tokens : List Token) :
    keptLeaves (tokens.map Leaf.groupComment) = [] := by
  induction tokens with
  | nil => rfl
  | cons token tokens ih => exact ih

/-- A semicolon is filler. -/
theorem keptLeaves_semicolon (semicolon : Option (Mark .semicolon))
    (hLexed : AllLexed (tokensIf (fun mark => [mark.val]) semicolon)) :
    keptLeaves (leavesIf (fun mark => [.word mark.val]) semicolon) = [] := by
  cases semicolon with
  | none => rfl
  | some mark =>
      rw [leavesIf_some, keptLeaves_word,
        squash_mark mark (hLexed mark.val List.mem_cons_self) ";" (by decide)]
      rfl

/-- The leaves of an import group keep its paths. -/
theorem keptLeaves_paths : (paths : PathsPhrase) → AllLexed paths.tokens →
    keptLeaves paths.leaves = keptPaths paths.paths
  | .done comments, _ => keptLeaves_groupComment comments.val
  | .more comments path semicolon rest, hLexed => by
      simp only [PathsPhrase.tokens, allLexed_append, allLexed_cons] at hLexed
      rw [PathsPhrase.leaves, keptLeaves_append, keptLeaves_groupComment, keptLeaves_word,
        keptLeaves_append, keptLeaves_semicolon semicolon hLexed.2.2.1,
        keptLeaves_paths rest hLexed.2.2.2, squash_path]
      rfl

/-! ### Loop headers -/

/-- The text of a clause keeps its tokens. -/
theorem kept_clauseCodeText (clause : Option SimplePhrase)
    (hLexed : AllLexed (tokensIf SimplePhrase.tokens clause)) :
    kept (clauseCodeText ((clause.map SimplePhrase.tree).getD .missing)) =
      keptLeaves (words (tokensIf SimplePhrase.tokens clause)) := by
  cases clause with
  | none => rfl
  | some phrase =>
      have hPresent : phrase.tree.isMissing = false := by cases phrase <;> rfl
      simp only [Option.map_some, Option.getD_some, clauseCodeText, hPresent]
      exact kept_simpleCode phrase hLexed

/-- The text of a condition keeps its tokens. -/
theorem kept_condition (condition : Option ExprPhrase)
    (hLexed : AllLexed (tokensIf ExprPhrase.tokens condition)) :
    kept (if ((condition.map ExprPhrase.tree).getD .missing).isMissing then ""
      else ((condition.map ExprPhrase.tree).getD .missing).go) =
        keptLeaves (words (tokensIf ExprPhrase.tokens condition)) := by
  cases condition with
  | none => rfl
  | some phrase =>
      simp only [Option.map_some, Option.getD_some, phrase.isMissing_tree]
      exact phrase.kept_go hLexed

/-- A clause is missing from the tree only if its phrase is absent. -/
theorem isMissing_clauses {init update : Option SimplePhrase}
    (hMissing : (((init.map SimplePhrase.tree).getD .missing).isMissing
      && ((update.map SimplePhrase.tree).getD .missing).isMissing) = true) :
    init = none ∧ update = none := by
  have hPresent (phrase : SimplePhrase) : phrase.tree.isMissing = false := by
    cases phrase <;> rfl
  cases init <;> cases update <;> simp_all

/-- The header of a loop says what its parts do, since semicolons are filler. That holds with and
without the semicolons, so for every form of a header. -/
theorem kept_loopText (init : Option SimplePhrase) (condition : Option ExprPhrase)
    (update : Option SimplePhrase) (hInit : AllLexed (tokensIf SimplePhrase.tokens init))
    (hCondition : AllLexed (tokensIf ExprPhrase.tokens condition))
    (hUpdate : AllLexed (tokensIf SimplePhrase.tokens update)) :
    kept (loopText ((init.map SimplePhrase.tree).getD .missing)
      ((condition.map ExprPhrase.tree).getD .missing)
      ((update.map SimplePhrase.tree).getD .missing)) =
        kept "for" ++ (keptLeaves (words (tokensIf SimplePhrase.tokens init))
          ++ (keptLeaves (words (tokensIf ExprPhrase.tokens condition))
            ++ keptLeaves (words (tokensIf SimplePhrase.tokens update)))) := by
  have hText := kept_condition condition hCondition
  rw [loopText]
  split
  next hShort =>
    obtain ⟨rfl, rfl⟩ := isMissing_clauses hShort
    rw [← hText]
    split <;> simp
    rfl
  next =>
    rw [kept, String.toList_ofList, squash_trimRight, ← kept, ← hText,
      ← kept_clauseCodeText init hInit, ← kept_clauseCodeText update hUpdate]
    simp only [kept_append, List.append_assoc]
    rfl

end TryGo.Lower
