import TryGo.Proofs.Parse.Program
import TryGo.Proofs.Tree.Shape
import TryGo.Proofs.Written.Type

/-! Programs as token sequences. `Program.written` is what the tokens of a program say when it
is written in the canonical way: expressions as they are printed, every statement with a
semicolon behind it. Whatever tokens say that, parsing them gives the program again, up to
tokens. -/
namespace TryGo

def assignOperators : List String :=
  ["=", "+=", "-=", "*=", "/=", "%=", "&=", "|=", "^=", "<<=", ">>="]

def stepOperators : List String := ["++", "--"]

/-- What the tokens of a type text say, if there is one. -/
def typeWords : Option String → List Spelling
  | none => []
  | some text => spellings text.toList

/-- What the tokens of parameters say, with commas between them. -/
def paramWords : List (Expr × Option String) → List Spelling
  | [] => []
  | [(param, type)] => (.ident, param.text) :: typeWords type
  | (param, type) :: next :: params =>
      (.ident, param.text) :: (typeWords type ++ (.comma, ",") :: paramWords (next :: params))

mutual

/-- What the tokens of a statement say. What is no statement has none. -/
def Stmt.written : Stmt → List Spelling
  | .missing | .bare _ | .program _ _ => []
  | .package _ name => [(.kwPackage, "package"), (.ident, name)]
  | .imports _ [path] => [(.kwImport, "import"), (.string, path)]
  | .imports _ paths =>
      (.kwImport, "import") :: (.lparen, "(")
        :: (paths.map (fun path => (TokenKind.string, path)) ++ [(.rparen, ")")])
  | .decl _ kind name type value =>
      (kind.tokenKind, kind.keyword) :: (.ident, name.text)
        :: (typeWords type
          ++ (if value.isMissing then [] else (.assign, "=") :: value.written))
  | .assign _ targets op values =>
      Expr.writtenAll targets ++ (operatorKind op, op) :: Expr.writtenAll values
  | .define _ names values => Expr.writtenAll names ++ (.define, ":=") :: Expr.writtenAll values
  | .ret _ values => (.kwReturn, "return") :: Expr.writtenAll values
  | .expr _ value => value.written
  | .incr _ target op =>
      bracketIf (target.goLevel < Precedence.call.level) target.written ++ [(operatorKind op, op)]
  | .branch token => [(token.kind, token.kind.keyword?.getD "")]
  | .comment _ text multiline =>
      [(if multiline then .blockComment else .comment, commentText text multiline)]
  | .block _ statements => (.lbrace, "\x7b") :: (Stmt.writtenAll statements ++ [(.rbrace, "\x7d")])
  | .ifElse _ condition consequence alternative =>
      (.kwIf, "if") :: (condition.written ++ (consequence.written
        ++ (if alternative.isMissing then [] else (.kwElse, "else") :: alternative.written)))
  | .loop _ init condition update body =>
      (.kwFor, "for") :: ((if init.isMissing && update.isMissing then condition.written
        else init.written ++ (.semicolon, ";")
          :: (condition.written ++ (.semicolon, ";") :: update.written)) ++ body.written)
  | .func _ name params types result body =>
      (.kwFunc, "func") :: (.ident, name.text) :: (.lparen, "(")
        :: (paramWords (params.zip types) ++ (.rparen, ")") :: (typeWords result ++ body.written))
  | .catchClause _ name type body =>
      (.kwCatch, "catch")
        :: ((if name.isMissing then []
          else (.lparen, "(") :: (.ident, name.text) :: (typeWords type ++ [(.rparen, ")")]))
            ++ body.written)
  | .tryCatch _ body catches cleanup =>
      (.kwTry, "try") :: (body.written ++ (Stmt.writtenJoined catches
        ++ (if cleanup.isMissing then [] else (.kwFinally, "finally") :: cleanup.written)))
  | .throw _ value => (.kwThrow, "throw") :: value.written

def Stmt.writtenAll : List Stmt → List Spelling
  | [] => []
  | s :: rest => s.written ++ (.semicolon, ";") :: Stmt.writtenAll rest

/-- What the tokens of some statements say, with nothing between them. -/
def Stmt.writtenJoined : List Stmt → List Spelling
  | [] => []
  | s :: rest => s.written ++ Stmt.writtenJoined rest

end

def Program.written (program : Program) : List Spelling := Stmt.writtenAll program.statements

/-- Whether a text is that of a type of a documented form. -/
def IsTypeText (place : TypePlace) (text : String) : Prop :=
  ∃ type : GoType, type.Documented place ∧ type.text = text

mutual

/-- Whether a statement has every child that it must have, of the form that belongs there. The
text of a block comment is one that trimming leaves alone. -/
def Stmt.WellFormed : Stmt → Prop
  | .missing | .bare _ | .program _ _ | .catchClause _ _ _ _ => False
  | .package _ _ | .imports _ _ => True
  | .decl _ kind name type value =>
      name.isIdent = true ∧ (∀ text, type = some text → IsTypeText .inner text)
        ∧ (value.isMissing = true ∧ kind = .var ∨ value.WellFormed)
  | .assign _ targets op values =>
      op ∈ assignOperators ∧ targets ≠ [] ∧ Expr.AllWellFormed targets
        ∧ values ≠ [] ∧ Expr.AllWellFormed values
  | .define _ names values =>
      names ≠ [] ∧ (∀ name ∈ names, name.isIdent = true)
        ∧ values ≠ [] ∧ Expr.AllWellFormed values
  | .ret _ values => Expr.AllWellFormed values
  | .expr _ value => value.WellFormed
  | .incr _ target op => op ∈ stepOperators ∧ target.WellFormed
  | .branch token => token.kind = .kwBreak ∨ token.kind = .kwContinue
  | .comment _ text multiline => multiline = true → Text.trim text.toList = text.toList
  | .block _ statements => Stmt.AllWellFormed statements
  | .ifElse _ condition consequence alternative =>
      condition.WellFormed ∧ consequence.isBlock = true ∧ consequence.WellFormed
        ∧ (alternative.isMissing = true
          ∨ (alternative.isBlock || alternative.isConditional) = true ∧ alternative.WellFormed)
  | .loop _ init condition update body =>
      (init.isMissing = true ∨ init.isSimple = true ∧ init.WellFormed)
        ∧ (condition.isMissing = true ∨ condition.WellFormed)
        ∧ (update.isMissing = true ∨ update.isSimple = true ∧ update.WellFormed)
        ∧ body.isBlock = true ∧ body.WellFormed
  | .func _ name params types result body =>
      name.isIdent = true ∧ (∀ param ∈ params, param.isIdent = true)
        ∧ params.length = types.length
        ∧ (∀ text, some text ∈ types → IsTypeText .parameter text)
        ∧ (∀ text, result = some text → IsTypeText .result text)
        ∧ body.isBlock = true ∧ body.WellFormed
  | .tryCatch _ body catches cleanup =>
      body.isBlock = true ∧ body.WellFormed ∧ Stmt.AreCatches catches
        ∧ (cleanup.isMissing = true ∨ cleanup.isBlock = true ∧ cleanup.WellFormed)
  | .throw _ value => value.WellFormed

def Stmt.AllWellFormed : List Stmt → Prop
  | [] => True
  | s :: rest => s.WellFormed ∧ Stmt.AllWellFormed rest

/-- Whether a node is a well-formed catch clause. It binds a name, perhaps with a type, or
nothing. -/
def Stmt.IsCatch : Stmt → Prop
  | .catchClause _ name type body =>
      (name.isMissing = true ∧ type = none
        ∨ name.isIdent = true ∧ ∀ text, type = some text → IsTypeText .inner text)
        ∧ body.isBlock = true ∧ body.WellFormed
  | _ => False

def Stmt.AreCatches : List Stmt → Prop
  | [] => True
  | s :: rest => s.IsCatch ∧ Stmt.AreCatches rest

end

def Program.WellFormed (program : Program) : Prop := Stmt.AllWellFormed program.statements

/-! ### Phrases of types and parameters -/

/-- Tokens that say what a documented type text does are covered by a phrase with that text. -/
theorem IsTypeText.exists_phrase {place : TypePlace} {text : String} {tokens : List Token}
    (hType : IsTypeText place text) (hPlace : place ≠ .result)
    (hWords : tokens.map Token.spelling = spellings text.toList) :
    ∃ phrase : TypePhrase, phrase.tokens = tokens ∧ phrase.type.text = text
      ∧ (∀ next : TokenKind, next.ClosesType → phrase.Fits next)
      ∧ (place ≠ .parameter → phrase.isVariadic = false) := by
  obtain ⟨type, hForm, rfl⟩ := hType
  have hLexes := type.lexes place hForm [] (by simp)
  rw [List.append_nil, spellings_nil, List.append_nil] at hLexes
  obtain ⟨phrase, hStands, hSame⟩ :=
    (type.hasPhrase place hForm).single hForm hPlace (hWords.trans hLexes)
  exact ⟨phrase, hStands.covers, hStands.text, hStands.fits,
    fun hParameter => hSame.trans (hForm.isVariadic hParameter)⟩

/-- Whether an optional phrase covers some tokens, has an optional text, and ends where any type
does. -/
structure StandsOptional (place : TypePlace) (phrase : Option TypePhrase) (tokens : List Token)
    (type : Option String) : Prop where
  covers : tokensIf TypePhrase.tokens phrase = tokens
  text : (phrase.map fun phrase => phrase.type.text) = type
  fits : ∀ found, phrase = some found → ∀ next : TokenKind, next.ClosesType → found.Fits next
  plain : ∀ found, phrase = some found → place ≠ .parameter → found.isVariadic = false

/-- The words of a type that is left out are none, and those of any other are a phrase. -/
theorem exists_optionalType {place : TypePlace} {type : Option String} {tokens : List Token}
    (hType : ∀ text, type = some text → IsTypeText place text) (hPlace : place ≠ .result)
    (hWords : tokens.map Token.spelling = typeWords type) :
    ∃ phrase : Option TypePhrase, StandsOptional place phrase tokens type := by
  cases type with
  | none =>
      obtain rfl := List.map_eq_nil_iff.mp hWords
      exact ⟨none, rfl, rfl, forall_none, forall_none⟩
  | some text =>
      obtain ⟨phrase, hCovers, hText, hFits, hPlain⟩ :=
        (hType text rfl).exists_phrase hPlace hWords
      refine ⟨some phrase, hCovers, congrArg some hText, ?_, ?_⟩
      · rintro found hFound
        obtain rfl := Option.some.inj hFound
        exact hFits
      · rintro found hFound
        obtain rfl := Option.some.inj hFound
        exact hPlain

/-- A function result has a phrase in front of the body. -/
theorem exists_result {result : Option String} {tokens : List Token}
    (hResult : ∀ text, result = some text → IsTypeText .result text)
    (hWords : tokens.map Token.spelling = typeWords result) :
    ∃ phrase : ResultPhrase, phrase.tokens = tokens
      ∧ phrase.type?.map GoType.text = result ∧ phrase.Fits := by
  cases result with
  | none =>
      obtain rfl := List.map_eq_nil_iff.mp hWords
      exact ⟨.none, rfl, rfl, trivial⟩
  | some text =>
      obtain ⟨type, hForm, rfl⟩ := hResult text rfl
      have hLexes := type.lexes .result hForm [] (by simp)
      rw [List.append_nil, spellings_nil, List.append_nil] at hLexes
      rcases type.hasPhrase .result hForm tokens (hWords.trans hLexes) with
        ⟨phrase, hStands, hSame⟩ | ⟨types, rfl, phrase, hStand⟩
      · exact ⟨.single phrase, hStands.covers, congrArg some hStands.text,
          hSame.trans (hForm.isVariadic (by decide)),
          hStands.fits .lbrace ⟨by decide, by decide, by decide⟩⟩
      · refine ⟨.tuple phrase, hStand.covers, ?_, hStand.fits⟩
        rw [ResultPhrase.type?, Option.map_some, GoType.text, GoType.text, hStand.texts]

def ParamsFormed (params : List (Expr × Option String)) : Prop :=
  ∀ entry ∈ params, entry.1.isIdent = true
    ∧ ∀ text, entry.2 = some text → IsTypeText .parameter text

/-- A name is nothing but its text once its token is forgotten. -/
theorem Expr.erase_of_isIdent {e : Expr} (hIdent : e.isIdent = true) :
    e.erase = .ident .blank e.text := by
  cases e with
  | ident => rfl
  | _ => cases hIdent

def eraseParam (entry : Expr × Option String) : Expr × Option String := (entry.1.erase, entry.2)

theorem map_fst_eraseParam (entries : List (Expr × Option String)) :
    (entries.map eraseParam).map Prod.fst = (entries.map Prod.fst).map Expr.erase := by
  rw [List.map_map, List.map_map]
  rfl

theorem map_snd_eraseParam (entries : List (Expr × Option String)) :
    (entries.map eraseParam).map Prod.snd = entries.map Prod.snd := by
  rw [List.map_map]
  rfl

/-- The words of a parameter are its name and its type. -/
theorem exists_param {param : Expr} {type : Option String} {tokens : List Token}
    (hParam : param.isIdent = true) (hType : ∀ text, type = some text → IsTypeText .parameter text)
    (hWords : tokens.map Token.spelling = (.ident, param.text) :: typeWords type) :
    ∃ phrase : ParamPhrase, phrase.tokens = tokens
      ∧ eraseParam phrase.tree = eraseParam (param, type)
      ∧ ∀ next : TokenKind, next.ClosesType → phrase.Fits next := by
  obtain ⟨name, rest, rfl, hName, hRest⟩ := exists_mark hWords
  obtain ⟨phrase, hStands⟩ := exists_optionalType hType (by decide) hRest
  refine ⟨⟨name, phrase⟩, ?_, ?_, fun next hNext found hFound => hStands.fits found hFound next hNext⟩
  · rw [ParamPhrase.tokens, hStands.covers]
  · rw [eraseParam, eraseParam, Expr.erase_of_isIdent hParam, ParamPhrase.tree, hStands.text,
      hName]
    rfl

/-- Parameters are one at least, with commas between them. -/
theorem exists_params : (params : List (Expr × Option String)) → params ≠ [] →
    ParamsFormed params → (tokens : List Token) →
      tokens.map Token.spelling = paramWords params →
        ∃ phrase : ParamsPhrase, phrase.tokens = tokens
          ∧ phrase.trees.map eraseParam = params.map eraseParam ∧ phrase.Fits
  | [(param, type)], _, hFormed, tokens, hWords => by
      obtain ⟨hParam, hType⟩ := hFormed (param, type) List.mem_cons_self
      obtain ⟨phrase, hCovers, hTree, hFits⟩ := exists_param hParam hType hWords
      refine ⟨.last phrase, hCovers, ?_, hFits .rparen ⟨by decide, by decide, by decide⟩⟩
      rw [ParamsPhrase.trees, List.map_singleton, List.map_singleton, hTree]
  | (param, type) :: next :: params, _, hFormed, tokens, hWords => by
      obtain ⟨hParam, hType⟩ := hFormed (param, type) List.mem_cons_self
      rw [paramWords, ← List.cons_append] at hWords
      obtain ⟨first, rest, rfl, hFirst, hRest⟩ := exists_parts hWords
      obtain ⟨comma, rest, rfl, -, hRest⟩ := exists_mark hRest
      obtain ⟨phrase, hCovers, hTree, hFits⟩ := exists_param hParam hType hFirst
      obtain ⟨list, hListCovers, hListTrees, hListFits⟩ := exists_params (next :: params)
        (List.cons_ne_nil next params) (fun entry hMem => hFormed entry (List.mem_cons_of_mem _ hMem))
        rest hRest
      refine ⟨.more phrase comma list, ?_, ?_,
        hFits .comma ⟨by decide, by decide, by decide⟩, hListFits⟩
      · rw [ParamsPhrase.tokens, hCovers, hListCovers]
      · rw [ParamsPhrase.trees, List.map_cons, hTree, hListTrees]
        rfl

/-- Parameters between their parentheses have a phrase, and there may be none. -/
theorem exists_optionalParams {params : List (Expr × Option String)} (hFormed : ParamsFormed params)
    {tokens : List Token} (hWords : tokens.map Token.spelling = paramWords params) :
    ∃ phrase : Option ParamsPhrase, tokensIf ParamsPhrase.tokens phrase = tokens
      ∧ ((phrase.map ParamsPhrase.trees).getD []).map eraseParam = params.map eraseParam
      ∧ ∀ found, phrase = some found → found.Fits := by
  by_cases hNil : params = []
  · subst hNil
    obtain rfl := List.map_eq_nil_iff.mp hWords
    exact ⟨none, rfl, rfl, forall_none⟩
  · obtain ⟨phrase, hCovers, hTrees, hFits⟩ := exists_params params hNil hFormed tokens hWords
    refine ⟨some phrase, hCovers, hTrees, ?_⟩
    rintro found hFound
    obtain rfl := Option.some.inj hFound
    exact hFits

/-! ### Phrases of statements -/

def noComments : Comments := ⟨[], fun _ hMem => absurd hMem List.not_mem_nil⟩

@[simp] theorem val_noComments : noComments.val = [] := rfl

/-- Whether a phrase covers some tokens, stands for a statement, and ends before a semicolon with
nothing left for whoever lists the statements. -/
structure StmtPhrase.Stands (phrase : StmtPhrase) (tokens : List Token) (s : Stmt) : Prop where
  covers : phrase.tokens = tokens
  erased : phrase.tree.erase = s.erase
  fits : phrase.Fits .semicolon
  trailing : phrase.trailing = []

/-- Whatever tokens say what a statement is written as, a phrase covers them. -/
def Stmt.HasPhrase (s : Stmt) : Prop :=
  ∀ tokens : List Token, tokens.map Token.spelling = s.written →
    ∃ phrase : StmtPhrase, phrase.Stands tokens s

def Stmt.HavePhrase (statements : List Stmt) : Prop :=
  ∀ tokens : List Token, tokens.map Token.spelling = Stmt.writtenAll statements →
    ∃ items : ItemsPhrase, items.tokens = tokens
      ∧ items.trees.map Stmt.erase = statements.map Stmt.erase ∧ ∀ after, items.Fits after

theorem Stmt.isBlock_erase (s : Stmt) : s.erase.isBlock = s.isBlock := by
  cases s <;> rfl

theorem Stmt.isConditional_erase (s : Stmt) : s.erase.isConditional = s.isConditional := by
  cases s <;> rfl

theorem Stmt.isSimple_erase (s : Stmt) : s.erase.isSimple = s.isSimple := by
  cases s <;> rfl

section Inversion

variable {s : Stmt} {tokens : List Token}

/-- Only the phrase of a block stands for a block. -/
theorem Stmt.HasPhrase.block (hPhrase : s.HasPhrase) (hBlock : s.isBlock = true)
    (hWords : tokens.map Token.spelling = s.written) :
    ∃ phrase : BlockPhrase, phrase.tokens = tokens ∧ phrase.tree.erase = s.erase
      ∧ phrase.Fits := by
  obtain ⟨phrase, hStands⟩ := hPhrase tokens hWords
  have hKind : phrase.tree.isBlock = true := by
    rw [← Stmt.isBlock_erase, hStands.erased, Stmt.isBlock_erase, hBlock]
  cases phrase with
  | block body => exact ⟨body, hStands.covers, hStands.erased, hStands.fits⟩
  | simple phrase => cases phrase <;> cases hKind
  | ifElse chain => cases chain <;> cases hKind
  | loop keyword header body => cases header <;> cases hKind
  | _ => cases hKind

/-- Only the phrase of a conditional stands for one. -/
theorem Stmt.HasPhrase.chain (hPhrase : s.HasPhrase) (hConditional : s.isConditional = true)
    (hWords : tokens.map Token.spelling = s.written) :
    ∃ phrase : IfPhrase, phrase.tokens = tokens ∧ phrase.tree.erase = s.erase
      ∧ phrase.Fits .semicolon := by
  obtain ⟨phrase, hStands⟩ := hPhrase tokens hWords
  have hKind : phrase.tree.isConditional = true := by
    rw [← Stmt.isConditional_erase, hStands.erased, Stmt.isConditional_erase, hConditional]
  cases phrase with
  | ifElse chain => exact ⟨chain, hStands.covers, hStands.erased, hStands.fits⟩
  | simple phrase => cases phrase <;> cases hKind
  | block body => cases body; cases hKind
  | loop keyword header body => cases header <;> cases hKind
  | _ => cases hKind

/-- Only the phrase of a simple statement stands for one. -/
theorem Stmt.HasPhrase.simple (hPhrase : s.HasPhrase) (hSimple : s.isSimple = true)
    (hWords : tokens.map Token.spelling = s.written) :
    ∃ phrase : SimplePhrase, phrase.tokens = tokens ∧ phrase.tree.erase = s.erase
      ∧ phrase.Fits .semicolon := by
  obtain ⟨phrase, hStands⟩ := hPhrase tokens hWords
  have hKind : phrase.tree.isSimple = true := by
    rw [← Stmt.isSimple_erase, hStands.erased, Stmt.isSimple_erase, hSimple]
  cases phrase with
  | simple phrase => exact ⟨phrase, hStands.covers, hStands.erased, hStands.fits⟩
  | block body => cases body; cases hKind
  | ifElse chain => cases chain <;> cases hKind
  | loop keyword header body => cases header <;> cases hKind
  | _ => cases hKind

/-- A simple statement that ends before a semicolon also ends before a brace. -/
theorem SimplePhrase.Fits.lbrace {phrase : SimplePhrase} (hFits : phrase.Fits .semicolon) :
    phrase.Fits .lbrace := by
  cases phrase with
  | define names op values => exact ⟨hFits.1, hFits.2.1, hFits.2.2.1, by decide, by decide⟩
  | assign targets op hOp values => exact ⟨hFits.1, hFits.2.1, by decide, by decide⟩
  | incr target op hOp => exact hFits
  | expr value => exact ⟨hFits.1, by decide, by decide⟩

end Inversion

section Comments

/-- A space at the end goes first. -/
theorem Text.trimRight_append_space (text : List Char) :
    Text.trimRight (text ++ [' ']) = Text.trimRight text := by
  rw [Text.trimRight, List.reverse_append, List.reverse_singleton, List.singleton_append,
    List.dropWhile_cons, if_pos (by decide)]
  rfl

/-- Trimming removes a space that is put on either side. -/
theorem Text.trim_spaced (text : List Char) :
    Text.trim (' ' :: (text ++ [' '])) = Text.trim text := by
  have hLeft : ∀ chars : List Char, Text.trimRight ((chars ++ [' ']).dropWhile Text.isSpace) =
      Text.trimRight (chars.dropWhile Text.isSpace) := by
    intro chars
    induction chars with
    | nil => rfl
    | cons c chars ih =>
        by_cases hSpace : Text.isSpace c = true
        · rw [List.cons_append, List.dropWhile_cons, List.dropWhile_cons, if_pos hSpace,
            if_pos hSpace, ih]
        · rw [List.cons_append, List.dropWhile_cons, List.dropWhile_cons, if_neg hSpace,
            if_neg hSpace, ← List.cons_append, Text.trimRight_append_space]
  rw [Text.trim, List.dropWhile_cons, if_pos (by decide), hLeft]
  rfl

/-- A line comment is spelled with one space in front, which its content does not have. -/
theorem commentContent_line {token : Token} {text : String} (hKind : token.kind = .comment)
    (hLiteral : token.literal = commentText text false) : Parse.commentContent token = text := by
  have hChars : token.literal.toList = '/' :: '/' :: text.toList := by
    rw [hLiteral]
    simp [commentText]
  unfold Parse.commentContent
  rw [hKind, hChars]
  simp [List.isPrefixOf]

/-- The content of a group comment is spelled between spaces, which are cut off again. -/
theorem commentContent_block {token : Token} {text : String} (hKind : token.kind = .blockComment)
    (hLiteral : token.literal = commentText text true)
    (hTrimmed : Text.trim text.toList = text.toList) : Parse.commentContent token = text := by
  have hChars : token.literal.toList =
      '/' :: '*' :: (' ' :: (text.toList ++ [' ']) ++ ['*', '/']) := by
    rw [hLiteral]
    simp [commentText]
  have hSuffix : ['*', '/'].isSuffixOf (' ' :: (text.toList ++ [' ']) ++ ['*', '/']) = true := by
    rw [List.isSuffixOf_iff_suffix]
    exact List.suffix_append _ _
  have hTake : (' ' :: (text.toList ++ [' ']) ++ ['*', '/']).take
      ((' ' :: (text.toList ++ [' ']) ++ ['*', '/']).length - 2) =
        ' ' :: (text.toList ++ [' ']) := by
    rw [List.length_append]
    exact List.take_left
  unfold Parse.commentContent
  rw [hKind, hChars]
  simp only [beq_self_eq_true, if_true, List.isPrefixOf, Bool.and_self, List.drop_succ_cons,
    List.drop_zero, hSuffix, hTake, Text.trim_spaced, hTrimmed, String.ofList_toList]

/-- A comment that stands alone is spelled by its one token. -/
theorem hasPhrase_comment {token : Token} {text : String} {multiline : Bool}
    (hFormed : (Stmt.comment token text multiline).WellFormed) :
    (Stmt.comment token text multiline).HasPhrase := by
  intro tokens hWords
  cases multiline with
  | false =>
      obtain ⟨mark, rfl, hLiteral⟩ := exists_mark_only hWords
      have hKind : mark.val.kind = .comment := mark.property
      refine ⟨.comment mark.val (by rw [hKind]; rfl), rfl, ?_, trivial, rfl⟩
      rw [StmtPhrase.tree, Parse.commentStmt, Stmt.erase, Stmt.erase,
        commentContent_line hKind hLiteral, hKind]
      rfl
  | true =>
      obtain ⟨mark, rfl, hLiteral⟩ := exists_mark_only hWords
      have hKind : mark.val.kind = .blockComment := mark.property
      refine ⟨.comment mark.val (by rw [hKind]; rfl), rfl, ?_, trivial, rfl⟩
      rw [StmtPhrase.tree, Parse.commentStmt, Stmt.erase, Stmt.erase,
        commentContent_block hKind hLiteral (hFormed rfl), hKind]
      rfl

end Comments

section Phrases

variable {token : Token} {name value condition : Expr} {type result : Option String}
  {init update body consequence alternative cleanup : Stmt}

/-- A package clause is spelled by its keyword and its name. -/
theorem hasPhrase_package (name : String) : (Stmt.package token name).HasPhrase := by
  intro tokens hWords
  obtain ⟨keyword, rest, rfl, -, hRest⟩ := exists_mark hWords
  obtain ⟨mark, rfl, hName⟩ := exists_mark_only hRest
  refine ⟨.package keyword mark, rfl, ?_, trivial, rfl⟩
  rw [StmtPhrase.tree, Stmt.erase, Stmt.erase, hName]

/-- Paths without anything between them have a phrase. -/
theorem exists_paths : (paths : List String) → (tokens : List Token) →
    tokens.map Token.spelling = paths.map (fun path => (TokenKind.string, path)) →
      ∃ phrase : PathsPhrase, phrase.tokens = tokens ∧ phrase.paths = paths
  | [], tokens, hWords => by
      obtain rfl := List.map_eq_nil_iff.mp hWords
      exact ⟨.done noComments, rfl, rfl⟩
  | path :: paths, tokens, hWords => by
      obtain ⟨mark, rest, rfl, hPath, hRest⟩ := exists_mark hWords
      obtain ⟨phrase, hCovers, hPaths⟩ := exists_paths paths rest hRest
      refine ⟨.more noComments mark none phrase, ?_, ?_⟩
      · rw [PathsPhrase.tokens, hCovers]
        rfl
      · rw [PathsPhrase.paths, hPath, hPaths]

/-- Paths in brackets are spelled one behind the other. -/
theorem hasPhrase_importGroup {paths : List String}
    (hWritten : (Stmt.imports token paths).written = (.kwImport, "import") :: (.lparen, "(")
      :: (paths.map (fun path => (TokenKind.string, path)) ++ [(.rparen, ")")])) :
    (Stmt.imports token paths).HasPhrase := by
  intro tokens hWords
  rw [hWritten] at hWords
  obtain ⟨keyword, rest, rfl, -, hRest⟩ := exists_mark hWords
  obtain ⟨opening, rest, rfl, -, hRest⟩ := exists_mark hRest
  obtain ⟨inside, last, rfl, hInside, hLast⟩ := exists_parts hRest
  obtain ⟨closing, rfl, -⟩ := exists_mark_only hLast
  obtain ⟨phrase, hCovers, hPaths⟩ := exists_paths paths inside hInside
  refine ⟨.importGroup keyword opening phrase closing, ?_, ?_, trivial, rfl⟩
  · rw [StmtPhrase.tokens, hCovers]
  · rw [StmtPhrase.tree, hPaths]
    rfl

/-- One path is spelled without brackets, and any other number with them. -/
theorem hasPhrase_imports : (paths : List String) → (Stmt.imports token paths).HasPhrase
  | [path] => by
      intro tokens hWords
      obtain ⟨keyword, rest, rfl, -, hRest⟩ := exists_mark hWords
      obtain ⟨mark, rfl, hPath⟩ := exists_mark_only hRest
      refine ⟨.importOne keyword mark, rfl, ?_, trivial, rfl⟩
      rw [StmtPhrase.tree, Stmt.erase, Stmt.erase, hPath]
  | [] => hasPhrase_importGroup rfl
  | _ :: _ :: _ => hasPhrase_importGroup rfl

/-- The value of a declaration has a phrase, or it has none. -/
theorem exists_init {kind : DeclKind} {tokens : List Token}
    (hValue : value.isMissing = true ∧ kind = .var ∨ value.WellFormed)
    (hWords : tokens.map Token.spelling =
      if value.isMissing then [] else (.assign, "=") :: value.written) :
    ∃ phrase : Option InitPhrase, tokensIf InitPhrase.tokens phrase = tokens
      ∧ ((phrase.map fun init : InitPhrase => init.value.tree).getD Expr.missing).erase = value.erase
      ∧ (phrase = none → kind = .var)
      ∧ ∀ found, phrase = some found → found.value.Levelled TokenKind.level := by
  cases hMissing : value.isMissing with
  | true =>
      rw [hMissing, if_pos rfl] at hWords
      obtain rfl := List.map_eq_nil_iff.mp hWords
      cases value with
      | missing =>
          rcases hValue with ⟨-, hKind⟩ | hFormed
          · exact ⟨none, rfl, rfl, fun _ => hKind, forall_none⟩
          · exact hFormed.elim
      | _ => cases hMissing
  | false =>
      rw [hMissing, if_neg (by decide)] at hWords
      have hFormed : value.WellFormed := by
        rcases hValue with ⟨hTrue, -⟩ | hFormed
        · rw [hMissing] at hTrue
          cases hTrue
        · exact hFormed
      obtain ⟨op, rest, rfl, -, hRest⟩ := exists_mark hWords
      obtain ⟨phrase, hStands, -⟩ := value.hasPhrase hFormed rest hRest
      refine ⟨some ⟨op, phrase⟩, ?_, hStands.erased, nofun, ?_⟩
      · rw [tokensIf_some, InitPhrase.tokens, hStands.covers]
      · rintro found hFound
        obtain rfl := Option.some.inj hFound
        exact hStands.levelled

/-- A declaration is spelled with what it has of a type and a value. -/
theorem hasPhrase_decl {kind : DeclKind}
    (hFormed : (Stmt.decl token kind name type value).WellFormed) :
    (Stmt.decl token kind name type value).HasPhrase := by
  obtain ⟨hName, hType, hValue⟩ := hFormed
  intro tokens hWords
  obtain ⟨keyword, rest, rfl, -, hRest⟩ := exists_mark hWords
  obtain ⟨mark, rest, rfl, hMark, hRest⟩ := exists_mark hRest
  obtain ⟨first, second, rfl, hFirst, hSecond⟩ := exists_parts hRest
  obtain ⟨typePhrase, hStands⟩ := exists_optionalType hType (by decide) hFirst
  obtain ⟨initPhrase, hCovers, hErased, hNone, hLevelled⟩ := exists_init hValue hSecond
  refine ⟨.decl kind keyword mark typePhrase initPhrase, ?_, ?_, ?_, rfl⟩
  · rw [StmtPhrase.tokens, hStands.covers, hCovers]
  · rw [StmtPhrase.tree, Stmt.erase, Stmt.erase, hStands.text, hErased,
      Expr.erase_of_isIdent hName, hMark]
    rfl
  · cases initPhrase with
    | some init =>
        exact ⟨fun found hFound => ⟨hStands.plain found hFound (by decide),
          hStands.fits found hFound .assign ⟨by decide, by decide, by decide⟩⟩,
          hLevelled init rfl, by decide⟩
    | none =>
        cases typePhrase with
        | some found =>
            exact ⟨hNone rfl, hStands.plain found rfl (by decide),
              hStands.fits found rfl .semicolon ⟨by decide, by decide, by decide⟩, by decide⟩
        | none => exact ⟨hNone rfl, by decide, by decide⟩

/-- The words of expressions between commas are a phrase, unless there are none. -/
theorem exists_values {values : List Expr} {tokens : List Token}
    (hFormed : Expr.AllWellFormed values) (hValues : values ≠ [])
    (hWords : tokens.map Token.spelling = Expr.writtenAll values) :
    ∃ phrase : ExprsPhrase, phrase.tokens = tokens
      ∧ phrase.trees.map Expr.erase = values.map Expr.erase
      ∧ phrase.Levelled TokenKind.level := by
  obtain ⟨phrase, hStand⟩ := Expr.havePhrase values hFormed hValues tokens hWords
  refine ⟨phrase, hStand.covers, ?_, hStand.levelled⟩
  rw [← Expr.eraseAll_eq_map, ← Expr.eraseAll_eq_map, hStand.erased]

/-- An assignment is spelled by its targets, operator and values. -/
theorem hasPhrase_assign {targets values : List Expr} {op : String}
    (hFormed : (Stmt.assign token targets op values).WellFormed) :
    (Stmt.assign token targets op values).HasPhrase := by
  obtain ⟨hOp, hTargets, hTargetsFormed, hValues, hValuesFormed⟩ := hFormed
  intro tokens hWords
  obtain ⟨first, rest, rfl, hFirst, hRest⟩ := exists_parts hWords
  obtain ⟨mark, second, rfl, hLiteral, hSecond⟩ := exists_mark hRest
  obtain ⟨left, hLeftCovers, hLeftErased, hLeft⟩ := exists_values hTargetsFormed hTargets hFirst
  obtain ⟨right, hRightCovers, hRightErased, hRight⟩ :=
    exists_values hValuesFormed hValues hSecond
  have hKind : mark.val.kind ∈ TokenKind.assignOperators := by
    have hTable : ∀ op ∈ assignOperators, operatorKind op ∈ TokenKind.assignOperators := by decide
    rw [mark.property]
    exact hTable op hOp
  refine ⟨.simple (.assign left mark.val hKind right), ?_, ?_, ?_, rfl⟩
  · rw [StmtPhrase.tokens, SimplePhrase.tokens, hLeftCovers, hRightCovers]
  · rw [StmtPhrase.tree, SimplePhrase.tree, Stmt.erase, Stmt.erase, hLeftErased, hRightErased,
      hLiteral]
  · exact ⟨hLeft, hRight, by decide, by decide⟩

/-- Names are well-formed expressions. -/
theorem Expr.allWellFormed_of_isIdent : (names : List Expr) →
    (∀ name ∈ names, name.isIdent = true) → Expr.AllWellFormed names
  | [], _ => trivial
  | name :: names, hNames => by
      refine ⟨?_, Expr.allWellFormed_of_isIdent names fun other hMem =>
        hNames other (List.mem_cons_of_mem name hMem)⟩
      have hIdent := hNames name List.mem_cons_self
      cases name with
      | ident => trivial
      | _ => cases hIdent

theorem Expr.isIdent_erase (e : Expr) : e.erase.isIdent = e.isIdent := by
  cases e <;> rfl

/-- A definition is spelled by its names and values. -/
theorem hasPhrase_define {names values : List Expr}
    (hFormed : (Stmt.define token names values).WellFormed) :
    (Stmt.define token names values).HasPhrase := by
  obtain ⟨hNames, hIdents, hValues, hValuesFormed⟩ := hFormed
  intro tokens hWords
  obtain ⟨first, rest, rfl, hFirst, hRest⟩ := exists_parts hWords
  obtain ⟨mark, second, rfl, -, hSecond⟩ := exists_mark hRest
  obtain ⟨left, hLeftCovers, hLeftErased, hLeft⟩ :=
    exists_values (Expr.allWellFormed_of_isIdent names hIdents) hNames hFirst
  obtain ⟨right, hRightCovers, hRightErased, hRight⟩ :=
    exists_values hValuesFormed hValues hSecond
  have hLeftIdents : ∀ tree ∈ left.trees, tree.isIdent = true := by
    intro tree hMem
    have hErased : tree.erase ∈ names.map Expr.erase := by
      rw [← hLeftErased]
      exact List.mem_map_of_mem hMem
    obtain ⟨name, hName, hSame⟩ := List.mem_map.mp hErased
    rw [← Expr.isIdent_erase, ← hSame, Expr.isIdent_erase, hIdents name hName]
  refine ⟨.simple (.define left mark right), ?_, ?_, ?_, rfl⟩
  · rw [StmtPhrase.tokens, SimplePhrase.tokens, hLeftCovers, hRightCovers]
  · rw [StmtPhrase.tree, SimplePhrase.tree, Stmt.erase, Stmt.erase, hLeftErased, hRightErased]
  · exact ⟨hLeft, hLeftIdents, hRight, by decide, by decide⟩

theorem hasPhrase_incr {op : String} (hFormed : (Stmt.incr token value op).WellFormed) :
    (Stmt.incr token value op).HasPhrase := by
  obtain ⟨hOp, hTarget⟩ := hFormed
  intro tokens hWords
  obtain ⟨first, last, rfl, hFirst, hLast⟩ := exists_parts hWords
  obtain ⟨mark, rfl, hLiteral⟩ := exists_mark_only hLast
  obtain ⟨phrase, hStands, -⟩ := (value.hasPhrase hTarget).atLevel (by decide) hFirst
  have hKind : mark.val.kind = .inc ∨ mark.val.kind = .dec := by
    have hTable : ∀ op ∈ stepOperators, operatorKind op = .inc ∨ operatorKind op = .dec := by
      decide
    rw [mark.property]
    exact hTable op hOp
  refine ⟨.simple (.incr phrase mark.val hKind), ?_, ?_, hStands.levelled, rfl⟩
  · rw [StmtPhrase.tokens, SimplePhrase.tokens, hStands.covers]
  · rw [StmtPhrase.tree, SimplePhrase.tree, Stmt.erase, Stmt.erase, hStands.erased, hLiteral]

theorem hasPhrase_expr (hFormed : value.WellFormed) : (Stmt.expr token value).HasPhrase := by
  intro tokens hWords
  obtain ⟨phrase, hStands, -⟩ := value.hasPhrase hFormed tokens hWords
  refine ⟨.simple (.expr phrase), hStands.covers, ?_, ?_, rfl⟩
  · rw [StmtPhrase.tree, SimplePhrase.tree, Stmt.erase, Stmt.erase, hStands.erased]
  · exact ⟨hStands.levelled, by decide, by decide⟩

/-- A return without values is its keyword. -/
theorem hasPhrase_ret {values : List Expr} (hFormed : Expr.AllWellFormed values) :
    (Stmt.ret token values).HasPhrase := by
  intro tokens hWords
  obtain ⟨keyword, rest, rfl, -, hRest⟩ := exists_mark hWords
  by_cases hNil : values = []
  · subst hNil
    obtain rfl := List.map_eq_nil_iff.mp hRest
    have hBare : TokenKind.semicolon ∈ TokenKind.bareReturnFollowers := by decide
    exact ⟨.ret keyword none, rfl, rfl, hBare, rfl⟩
  · obtain ⟨phrase, hCovers, hErased, hLevelled⟩ := exists_values hFormed hNil hRest
    refine ⟨.ret keyword (some phrase), ?_, ?_, ⟨hLevelled, by decide, by decide⟩, rfl⟩
    · rw [StmtPhrase.tokens, tokensIf_some, hCovers]
    · rw [StmtPhrase.tree, Stmt.erase, Stmt.erase, ← hErased]
      rfl

theorem hasPhrase_throw (hFormed : value.WellFormed) : (Stmt.throw token value).HasPhrase := by
  intro tokens hWords
  obtain ⟨keyword, rest, rfl, -, hRest⟩ := exists_mark hWords
  obtain ⟨phrase, hStands, -⟩ := value.hasPhrase hFormed rest hRest
  refine ⟨.throw keyword phrase, ?_, ?_, ⟨hStands.levelled, by decide⟩, rfl⟩
  · rw [StmtPhrase.tokens, hStands.covers]
  · rw [StmtPhrase.tree, Stmt.erase, Stmt.erase, hStands.erased]

theorem hasPhrase_branch (hKind : token.kind = .kwBreak ∨ token.kind = .kwContinue) :
    (Stmt.branch token).HasPhrase := by
  intro tokens hWords
  obtain ⟨mark, rfl, -⟩ := exists_mark_only hWords
  refine ⟨.branch mark.val (by rw [mark.property]; exact hKind), rfl, ?_, trivial, rfl⟩
  rw [StmtPhrase.tree, Stmt.erase, Stmt.erase, mark.property]

/-- A block is spelled by its statements between braces. -/
theorem hasPhrase_block {statements : List Stmt} (hItems : Stmt.HavePhrase statements) :
    (Stmt.block token statements).HasPhrase := by
  intro tokens hWords
  obtain ⟨opening, rest, rfl, -, hRest⟩ := exists_mark hWords
  obtain ⟨inside, last, rfl, hInside, hLast⟩ := exists_parts hRest
  obtain ⟨closing, rfl, -⟩ := exists_mark_only hLast
  obtain ⟨items, hCovers, hErased, hFits⟩ := hItems inside hInside
  refine ⟨.block (.mk opening items closing), ?_, ?_, hFits .rbrace, rfl⟩
  · rw [StmtPhrase.tokens, BlockPhrase.tokens, hCovers]
  · rw [StmtPhrase.tree, BlockPhrase.tree, Stmt.erase, Stmt.erase, Stmt.eraseAll_eq_map,
      Stmt.eraseAll_eq_map, hErased]

/-- A chain of conditionals is spelled link by link. -/
theorem hasPhrase_ifElse (hCondition : condition.WellFormed)
    (hBlock : consequence.isBlock = true) (hConsequence : consequence.HasPhrase)
    (hAlternative : alternative.isMissing = true
      ∨ (alternative.isBlock || alternative.isConditional) = true ∧ alternative.HasPhrase) :
    (Stmt.ifElse token condition consequence alternative).HasPhrase := by
  intro tokens hWords
  obtain ⟨keyword, rest, rfl, -, hRest⟩ := exists_mark hWords
  obtain ⟨first, rest, rfl, hFirst, hRest⟩ := exists_parts hRest
  obtain ⟨second, third, rfl, hSecond, hThird⟩ := exists_parts hRest
  obtain ⟨test, hTest, -⟩ := condition.hasPhrase hCondition first hFirst
  obtain ⟨body, hBodyCovers, hBodyErased, hBodyFits⟩ := hConsequence.block hBlock hSecond
  by_cases hMissing : alternative.isMissing = true
  · rw [hMissing, if_pos rfl] at hThird
    obtain rfl := List.map_eq_nil_iff.mp hThird
    refine ⟨.ifElse (.plain keyword test body), ?_, ?_,
      ⟨hTest.levelled, hBodyFits, by decide⟩, rfl⟩
    · rw [StmtPhrase.tokens, IfPhrase.tokens, hTest.covers, hBodyCovers, List.append_nil]
    · rw [StmtPhrase.tree, IfPhrase.tree, Stmt.erase, Stmt.erase, hTest.erased, hBodyErased]
      cases alternative with
      | missing => rfl
      | _ => cases hMissing
  · rw [if_neg hMissing] at hThird
    obtain ⟨otherwise, last, rfl, -, hLast⟩ := exists_mark hThird
    obtain ⟨hForm, hPhrase⟩ := hAlternative.resolve_left hMissing
    rcases Bool.or_eq_true_iff.mp hForm with hIsBlock | hIsIf
    · obtain ⟨other, hCovers, hErased, hFits⟩ := hPhrase.block hIsBlock hLast
      refine ⟨.ifElse (.elseBlock keyword test body otherwise other), ?_, ?_,
        ⟨hTest.levelled, hBodyFits, hFits⟩, rfl⟩
      · rw [StmtPhrase.tokens, IfPhrase.tokens, hTest.covers, hBodyCovers, hCovers]
      · rw [StmtPhrase.tree, IfPhrase.tree, Stmt.erase, Stmt.erase, hTest.erased, hBodyErased,
          hErased]
    · obtain ⟨chain, hCovers, hErased, hFits⟩ := hPhrase.chain hIsIf hLast
      refine ⟨.ifElse (.elseIf keyword test body otherwise chain), ?_, ?_,
        ⟨hTest.levelled, hBodyFits, hFits⟩, rfl⟩
      · rw [StmtPhrase.tokens, IfPhrase.tokens, hTest.covers, hBodyCovers, hCovers]
      · rw [StmtPhrase.tree, IfPhrase.tree, Stmt.erase, Stmt.erase, hTest.erased, hBodyErased,
          hErased]

/-- A clause of a loop header has a phrase, or it is empty. -/
theorem exists_clause {s : Stmt} {tokens : List Token}
    (hClause : s.isMissing = true ∨ s.isSimple = true ∧ s.HasPhrase)
    (hWords : tokens.map Token.spelling = s.written) :
    ∃ phrase : Option SimplePhrase, tokensIf SimplePhrase.tokens phrase = tokens
      ∧ ((phrase.map SimplePhrase.tree).getD .missing).erase = s.erase
      ∧ ∀ found, phrase = some found → found.Fits .semicolon := by
  rcases hClause with hMissing | ⟨hSimple, hPhrase⟩
  · cases s with
    | missing =>
        obtain rfl := List.map_eq_nil_iff.mp hWords
        exact ⟨none, rfl, rfl, forall_none⟩
    | _ => cases hMissing
  · obtain ⟨phrase, hCovers, hErased, hFits⟩ := hPhrase.simple hSimple hWords
    refine ⟨some phrase, hCovers, hErased, ?_⟩
    rintro found hFound
    obtain rfl := Option.some.inj hFound
    exact hFits

/-- The words of a condition that is left out are none. -/
theorem exists_condition {tokens : List Token}
    (hCondition : condition.isMissing = true ∨ condition.WellFormed)
    (hWords : tokens.map Token.spelling = condition.written) :
    ∃ phrase : Option ExprPhrase, tokensIf ExprPhrase.tokens phrase = tokens
      ∧ ((phrase.map ExprPhrase.tree).getD .missing).erase = condition.erase
      ∧ ∀ found, phrase = some found → found.Levelled TokenKind.level := by
  rcases hCondition with hMissing | hFormed
  · cases condition with
    | missing =>
        obtain rfl := List.map_eq_nil_iff.mp hWords
        exact ⟨none, rfl, rfl, forall_none⟩
    | _ => cases hMissing
  · obtain ⟨phrase, hStands, -⟩ := condition.hasPhrase hFormed tokens hWords
    refine ⟨some phrase, hStands.covers, hStands.erased, ?_⟩
    rintro found hFound
    obtain rfl := Option.some.inj hFound
    exact hStands.levelled

/-- The header of a loop has a phrase. -/
theorem exists_header (token : Token) (body : Stmt) {tokens : List Token}
    (hInit : init.isMissing = true ∨ init.isSimple = true ∧ init.HasPhrase)
    (hCondition : condition.isMissing = true ∨ condition.WellFormed)
    (hUpdate : update.isMissing = true ∨ update.isSimple = true ∧ update.HasPhrase)
    (hWords : tokens.map Token.spelling =
      if init.isMissing && update.isMissing then condition.written
      else init.written ++ (.semicolon, ";")
        :: (condition.written ++ (.semicolon, ";") :: update.written)) :
    ∃ header : LoopPhrase, header.tokens = tokens ∧ header.Fits
      ∧ ∀ (keyword : Token) (found : Stmt), found.erase = body.erase →
          (header.tree keyword found).erase =
            (Stmt.loop token init condition update body).erase := by
  by_cases hShort : (init.isMissing && update.isMissing) = true
  · rw [if_pos hShort] at hWords
    obtain ⟨hNoInit, hNoUpdate⟩ := Bool.and_eq_true_iff.mp hShort
    obtain ⟨test, hCovers, hErased, hLevelled⟩ := exists_condition hCondition hWords
    have hBoth : init = .missing ∧ update = .missing := by
      constructor
      · cases init <;> first | rfl | cases hNoInit
      · cases update <;> first | rfl | cases hNoUpdate
    obtain ⟨rfl, rfl⟩ := hBoth
    cases test with
    | none =>
        refine ⟨.endless, hCovers, trivial, fun keyword found hFound => ?_⟩
        simp only [LoopPhrase.tree, Stmt.erase, hFound]
        rw [← hErased]
        rfl
    | some test =>
        refine ⟨.whileTrue test, hCovers, hLevelled test rfl, fun keyword found hFound => ?_⟩
        simp only [LoopPhrase.tree, Stmt.erase, hFound]
        rw [← hErased]
        rfl
  · rw [if_neg hShort] at hWords
    obtain ⟨first, rest, rfl, hFirst, hRest⟩ := exists_parts hWords
    obtain ⟨semicolon, rest, rfl, -, hRest⟩ := exists_mark hRest
    obtain ⟨second, rest, rfl, hSecond, hRest⟩ := exists_parts hRest
    obtain ⟨semicolon', third, rfl, -, hThird⟩ := exists_mark hRest
    obtain ⟨initPhrase, hInitCovers, hInitErased, hInitFits⟩ := exists_clause hInit hFirst
    obtain ⟨test, hTestCovers, hTestErased, hLevelled⟩ := exists_condition hCondition hSecond
    obtain ⟨updatePhrase, hUpdateCovers, hUpdateErased, hUpdateFits⟩ := exists_clause hUpdate hThird
    refine ⟨.clauses initPhrase semicolon test semicolon' updatePhrase, ?_,
      ⟨hInitFits, hLevelled, fun found hFound => (hUpdateFits found hFound).lbrace⟩,
      fun keyword found hFound => ?_⟩
    · rw [LoopPhrase.tokens, hInitCovers, hTestCovers, hUpdateCovers]
    · rw [LoopPhrase.tree, Stmt.erase, Stmt.erase, hInitErased, hTestErased, hUpdateErased, hFound]

/-- A header is spelled by what it has of its three clauses. -/
theorem hasPhrase_loop
    (hInit : init.isMissing = true ∨ init.isSimple = true ∧ init.HasPhrase)
    (hCondition : condition.isMissing = true ∨ condition.WellFormed)
    (hUpdate : update.isMissing = true ∨ update.isSimple = true ∧ update.HasPhrase)
    (hBlock : body.isBlock = true) (hBody : body.HasPhrase) :
    (Stmt.loop token init condition update body).HasPhrase := by
  intro tokens hWords
  obtain ⟨keyword, rest, rfl, -, hRest⟩ := exists_mark hWords
  obtain ⟨first, second, rfl, hFirst, hSecond⟩ := exists_parts hRest
  obtain ⟨block, hCovers, hErased, hFits⟩ := hBody.block hBlock hSecond
  obtain ⟨header, hHeaderCovers, hHeaderFits, hHeaderErased⟩ :=
    exists_header token body hInit hCondition hUpdate hFirst
  refine ⟨.loop keyword header block, ?_, hHeaderErased keyword.val block.tree hErased,
    ⟨hHeaderFits, hFits⟩, rfl⟩
  rw [StmtPhrase.tokens, hHeaderCovers, hCovers]

/-- A function is spelled by its name, parameters, result and body. -/
theorem hasPhrase_func {params : List Expr} {types : List (Option String)}
    (hName : name.isIdent = true) (hParams : ∀ param ∈ params, param.isIdent = true)
    (hLength : params.length = types.length)
    (hTypes : ∀ text, some text ∈ types → IsTypeText .parameter text)
    (hResult : ∀ text, result = some text → IsTypeText .result text)
    (hBlock : body.isBlock = true) (hBody : body.HasPhrase) :
    (Stmt.func token name params types result body).HasPhrase := by
  intro tokens hWords
  obtain ⟨keyword, rest, rfl, -, hRest⟩ := exists_mark hWords
  obtain ⟨mark, rest, rfl, hMark, hRest⟩ := exists_mark hRest
  obtain ⟨opening, rest, rfl, -, hRest⟩ := exists_mark hRest
  obtain ⟨first, rest, rfl, hFirst, hRest⟩ := exists_parts hRest
  obtain ⟨closing, rest, rfl, -, hRest⟩ := exists_mark hRest
  obtain ⟨second, third, rfl, hSecond, hThird⟩ := exists_parts hRest
  have hFormed : ParamsFormed (params.zip types) := by
    rintro ⟨param, type⟩ hMem
    obtain ⟨hParam, hType⟩ := List.of_mem_zip hMem
    refine ⟨hParams param hParam, ?_⟩
    rintro text rfl
    exact hTypes text hType
  obtain ⟨list, hListCovers, hTrees, hListFits⟩ := exists_optionalParams hFormed hFirst
  obtain ⟨returned, hReturnedCovers, hReturned, hReturnedFits⟩ := exists_result hResult hSecond
  obtain ⟨block, hCovers, hErased, hFits⟩ := hBody.block hBlock hThird
  refine ⟨.func keyword mark opening list closing returned block, ?_, ?_,
    ⟨hListFits, hReturnedFits, hFits⟩, rfl⟩
  · rw [StmtPhrase.tokens, hListCovers, hReturnedCovers, hCovers]
  · have hFirsts := congrArg (List.map Prod.fst) hTrees
    have hSeconds := congrArg (List.map Prod.snd) hTrees
    rw [map_fst_eraseParam, map_fst_eraseParam, List.map_fst_zip (Nat.le_of_eq hLength)] at hFirsts
    rw [map_snd_eraseParam, map_snd_eraseParam,
      List.map_snd_zip (Nat.le_of_eq hLength.symm)] at hSeconds
    rw [StmtPhrase.tree, Stmt.erase, Stmt.erase, hFirsts, hSeconds, hReturned, hErased,
      Expr.erase_of_isIdent hName, hMark]
    rfl

/-- Whatever tokens say what catch clauses are written as, a phrase covers them. -/
def Stmt.HaveClauses (catches : List Stmt) : Prop :=
  ∀ tokens : List Token, tokens.map Token.spelling = Stmt.writtenJoined catches →
    ∃ clauses : CatchesPhrase, clauses.tokens = tokens
      ∧ clauses.trees.map Stmt.erase = catches.map Stmt.erase ∧ clauses.Fits

/-- A try is spelled by its block, its clauses and what it has of a finally. -/
theorem hasPhrase_tryCatch {catches : List Stmt} (hBlock : body.isBlock = true)
    (hBody : body.HasPhrase) (hCatches : Stmt.HaveClauses catches)
    (hCleanup : cleanup.isMissing = true ∨ cleanup.isBlock = true ∧ cleanup.HasPhrase) :
    (Stmt.tryCatch token body catches cleanup).HasPhrase := by
  intro tokens hWords
  obtain ⟨keyword, rest, rfl, -, hRest⟩ := exists_mark hWords
  obtain ⟨first, rest, rfl, hFirst, hRest⟩ := exists_parts hRest
  obtain ⟨second, third, rfl, hSecond, hThird⟩ := exists_parts hRest
  obtain ⟨block, hCovers, hErased, hFits⟩ := hBody.block hBlock hFirst
  obtain ⟨clauses, hClausesCover, hClausesErased, hClausesFit⟩ := hCatches second hSecond
  by_cases hMissing : cleanup.isMissing = true
  · rw [hMissing, if_pos rfl] at hThird
    obtain rfl := List.map_eq_nil_iff.mp hThird
    refine ⟨.tryCatch keyword block clauses noComments, ?_, ?_,
      ⟨hFits, hClausesFit, by decide, by decide, by decide⟩, rfl⟩
    · rw [StmtPhrase.tokens, hCovers, hClausesCover, val_noComments]
    · cases cleanup with
      | missing =>
          simp only [StmtPhrase.tree, Stmt.erase, hErased, Stmt.eraseAll_eq_map, hClausesErased]
      | _ => cases hMissing
  · rw [if_neg hMissing] at hThird
    obtain ⟨lastly, last, rfl, -, hLast⟩ := exists_mark hThird
    obtain ⟨hIsBlock, hPhrase⟩ := hCleanup.resolve_left hMissing
    obtain ⟨other, hOtherCovers, hOtherErased, hOtherFits⟩ := hPhrase.block hIsBlock hLast
    refine ⟨.tryFinally keyword block clauses noComments lastly other, ?_, ?_,
      ⟨hFits, hClausesFit, hOtherFits⟩, rfl⟩
    · rw [StmtPhrase.tokens, hCovers, hClausesCover, hOtherCovers, val_noComments, List.nil_append]
    · rw [StmtPhrase.tree, Stmt.erase, Stmt.erase, hErased, Stmt.eraseAll_eq_map,
        Stmt.eraseAll_eq_map, hClausesErased, hOtherErased]

/-- Whether a catch clause may be put in front of others. -/
def Stmt.HasClause (s : Stmt) : Prop :=
  ∀ rest : List Stmt, Stmt.HaveClauses rest → Stmt.HaveClauses (s :: rest)

/-- A clause is spelled with what it binds, or with nothing in front of its block. -/
theorem hasClause (hBinding : name.isMissing = true ∧ type = none
      ∨ name.isIdent = true ∧ ∀ text, type = some text → IsTypeText .inner text)
    (hBlock : body.isBlock = true) (hBody : body.HasPhrase) :
    (Stmt.catchClause token name type body).HasClause := by
  intro rest hRest tokens hWords
  obtain ⟨clause, others, rfl, hClause, hOthers⟩ := exists_parts hWords
  obtain ⟨keyword, parts, rfl, -, hParts⟩ := exists_mark hClause
  obtain ⟨first, second, rfl, hFirst, hSecond⟩ := exists_parts hParts
  obtain ⟨block, hCovers, hErased, hFits⟩ := hBody.block hBlock hSecond
  obtain ⟨clauses, hClausesCover, hClausesErased, hClausesFit⟩ := hRest others hOthers
  rcases hBinding with ⟨hMissing, rfl⟩ | ⟨hIdent, hType⟩
  · rw [hMissing, if_pos rfl] at hFirst
    obtain rfl := List.map_eq_nil_iff.mp hFirst
    refine ⟨.cons noComments keyword none block clauses, ?_, ?_, forall_none, hFits, hClausesFit⟩
    · simp only [CatchesPhrase.tokens, hCovers, hClausesCover, tokensIf_none, val_noComments,
        List.nil_append, List.cons_append]
    · rw [CatchesPhrase.trees, List.map_cons, List.map_cons, Stmt.erase, Stmt.erase, hErased,
        hClausesErased]
      cases name with
      | missing => rfl
      | _ => cases hMissing
  · have hPresent : name.isMissing = false := by
      cases name with
      | ident => rfl
      | _ => cases hIdent
    rw [hPresent, if_neg (by decide)] at hFirst
    obtain ⟨opening, inside, rfl, -, hInside⟩ := exists_mark hFirst
    obtain ⟨mark, inside, rfl, hMark, hInside⟩ := exists_mark hInside
    obtain ⟨middle, last, rfl, hMiddle, hLast⟩ := exists_parts hInside
    obtain ⟨closing, rfl, -⟩ := exists_mark_only hLast
    obtain ⟨phrase, hStands⟩ := exists_optionalType hType (by decide) hMiddle
    refine ⟨.cons noComments keyword (some ⟨opening, mark, phrase, closing⟩) block clauses,
      ?_, ?_, ?_, hFits, hClausesFit⟩
    · simp only [CatchesPhrase.tokens, hCovers, hClausesCover, tokensIf_some, BindingPhrase.tokens,
        hStands.covers, val_noComments, List.nil_append, List.cons_append, List.append_assoc]
    · rw [CatchesPhrase.trees, List.map_cons, List.map_cons, Stmt.erase, Stmt.erase, hErased,
        hClausesErased, hStands.text, Expr.erase_of_isIdent hIdent, hMark]
      rfl
    · rintro binding hFound
      obtain rfl := Option.some.inj hFound
      exact fun found hType => hStands.fits found hType .rparen ⟨by decide, by decide, by decide⟩

theorem havePhrase_stmts {s : Stmt} {rest : List Stmt} (hFirst : s.HasPhrase)
    (hRest : Stmt.HavePhrase rest) : Stmt.HavePhrase (s :: rest) := by
  intro tokens hWords
  obtain ⟨first, others, rfl, hFirstWords, hOthers⟩ := exists_parts hWords
  obtain ⟨semicolon, others, rfl, -, hOthers⟩ := exists_mark hOthers
  obtain ⟨phrase, hStands⟩ := hFirst first hFirstWords
  obtain ⟨items, hCovers, hErased, hFits⟩ := hRest others hOthers
  refine ⟨.cons phrase (some semicolon) items, ?_, ?_, fun after => ⟨hStands.fits, hFits after⟩⟩
  · rw [ItemsPhrase.tokens, hStands.covers, hCovers]
    rfl
  · rw [ItemsPhrase.trees, hStands.trailing, List.map_cons, List.map_cons, hStands.erased,
      List.map_nil, List.nil_append, hErased]

end Phrases

mutual

/-- Every well-formed statement has phrases. -/
theorem Stmt.hasPhrase : (s : Stmt) → s.WellFormed → s.HasPhrase
  | .missing, hFormed | .bare _, hFormed | .program _ _, hFormed | .catchClause _ _ _ _, hFormed =>
      hFormed.elim
  | .package _ name, _ => hasPhrase_package name
  | .imports _ paths, _ => hasPhrase_imports paths
  | .decl _ _ _ _ _, hFormed => hasPhrase_decl hFormed
  | .assign _ _ _ _, hFormed => hasPhrase_assign hFormed
  | .define _ _ _, hFormed => hasPhrase_define hFormed
  | .ret _ _, hFormed => hasPhrase_ret hFormed
  | .expr _ _, hFormed => hasPhrase_expr hFormed
  | .incr _ _ _, hFormed => hasPhrase_incr hFormed
  | .branch _, hFormed => hasPhrase_branch hFormed
  | .comment _ _ _, hFormed => hasPhrase_comment hFormed
  | .throw _ _, hFormed => hasPhrase_throw hFormed
  | .block _ statements, hFormed => hasPhrase_block (Stmt.havePhrase statements hFormed)
  | .ifElse _ _ consequence alternative, hFormed => by
      obtain ⟨hCondition, hBlock, hConsequence, hAlternative⟩ := hFormed
      exact hasPhrase_ifElse hCondition hBlock (consequence.hasPhrase hConsequence)
        (hAlternative.imp_right fun hOther => ⟨hOther.1, alternative.hasPhrase hOther.2⟩)
  | .loop _ init _ update body, hFormed => by
      obtain ⟨hInit, hCondition, hUpdate, hBlock, hBody⟩ := hFormed
      exact hasPhrase_loop (hInit.imp_right fun hSimple => ⟨hSimple.1, init.hasPhrase hSimple.2⟩)
        hCondition (hUpdate.imp_right fun hSimple => ⟨hSimple.1, update.hasPhrase hSimple.2⟩)
        hBlock (body.hasPhrase hBody)
  | .func _ _ _ _ _ body, hFormed => by
      obtain ⟨hName, hParams, hLength, hTypes, hResult, hBlock, hBody⟩ := hFormed
      exact hasPhrase_func hName hParams hLength hTypes hResult hBlock (body.hasPhrase hBody)
  | .tryCatch _ body catches cleanup, hFormed => by
      obtain ⟨hBlock, hBody, hCatches, hCleanup⟩ := hFormed
      exact hasPhrase_tryCatch hBlock (body.hasPhrase hBody) (Stmt.haveClauses catches hCatches)
        (hCleanup.imp_right fun hOther => ⟨hOther.1, cleanup.hasPhrase hOther.2⟩)

/-- Well-formed statements are spelled one behind the other. -/
theorem Stmt.havePhrase : (statements : List Stmt) → Stmt.AllWellFormed statements →
    Stmt.HavePhrase statements
  | [], _ => by
      intro tokens hWords
      obtain rfl := List.map_eq_nil_iff.mp hWords
      exact ⟨.nil, rfl, rfl, fun _ => trivial⟩
  | s :: rest, hFormed =>
      havePhrase_stmts (s.hasPhrase hFormed.1) (Stmt.havePhrase rest hFormed.2)

/-- A well-formed clause is spelled by a clause. -/
theorem Stmt.isCatch_hasClause : (s : Stmt) → s.IsCatch → s.HasClause
  | s, hFormed => by
      cases s with
      | catchClause _ _ _ body =>
          rw [Stmt.IsCatch] at hFormed
          exact hasClause hFormed.1 hFormed.2.1 (body.hasPhrase hFormed.2.2)
      | _ => simp only [Stmt.IsCatch] at hFormed

/-- Well-formed clauses are spelled one behind the other. -/
theorem Stmt.haveClauses : (catches : List Stmt) → Stmt.AreCatches catches →
    Stmt.HaveClauses catches
  | [], _ => by
      intro tokens hWords
      obtain rfl := List.map_eq_nil_iff.mp hWords
      exact ⟨.nil, rfl, rfl, trivial⟩
  | s :: rest, hFormed =>
      s.isCatch_hasClause hFormed.1 rest (Stmt.haveClauses rest hFormed.2)

end

/-! ### Reading back -/

/-- Every well-formed program that is written as tokens is read back, and nothing is
reported. -/
theorem readFrom_written (program : Program) (hFormed : program.WellFormed) (tokens : List Token)
    (hWords : tokens.map Token.spelling = program.written) (endPos : Position) :
    ∃ read, Parse.readFrom ⟨tokens, endPos⟩ = ⟨.ok read, []⟩ ∧ read.erase = program.erase := by
  obtain ⟨items, rfl, hErased, hFits⟩ := Stmt.havePhrase program.statements hFormed tokens hWords
  refine ⟨_, Parse.readFrom_run items (hFits .eof) endPos, ?_⟩
  rw [Program.erase, Program.erase, hErased]

/-- A program with a try inside a loop, clauses of both kinds, and a chain of conditionals. -/
def nestedProgram : Program :=
  ⟨.blank, [
    .package .blank "main",
    .imports .blank ["errors", "os"],
    .func .blank (.ident .blank "load") [.ident .blank "a", .ident .blank "b"]
      [none, some "...string"] (some "(map[string]*T, error)") (.block .blank [
        .loop .blank (.define .blank [.ident .blank "i"] [.int ⟨.int, "0x1F", .start⟩ 31])
          (.binary .blank (.ident .blank "i") "<" (.unary .blank "-" (.unary .blank "-"
            (.ident .blank "n"))))
          (.incr .blank (.ident .blank "i") "++") (.block .blank [
            .tryCatch .blank (.block .blank [.throw .blank (.str .blank "late" false)])
              [.catchClause .blank (.ident .blank "e") (some "*os.PathError") (.block .blank
                [.branch ⟨.kwContinue, "continue", .start⟩]),
                .catchClause .blank .missing none (.block .blank [])]
              (.block .blank [.comment .blank "done" true])]),
        .ifElse .blank (.bool .blank true) (.block .blank [.ret .blank []])
          (.ifElse .blank (.ident .blank "ok") (.block .blank [])
            (.block .blank [.ret .blank [.nil .blank, .call .blank (.ident .blank "f") []]]))])]⟩

/-- A program with every sort of block in another is read back. -/
theorem readFrom_written_nested :
    nestedProgram.WellFormed ∧ ∃ read,
      Parse.readFrom ⟨nestedProgram.written.map fun word => ⟨word.1, word.2, .start⟩, .start⟩ =
        ⟨.ok read, []⟩ ∧ read.erase = nestedProgram.erase := by
  have hVariadic : IsTypeText .parameter "...string" :=
    ⟨.variadic (.named "string"), by simp only [GoType.Documented]; decide, rfl⟩
  have hError : IsTypeText .inner "*os.PathError" :=
    ⟨.pointer (.qualified "os" "PathError"), by simp only [GoType.Documented]; decide, rfl⟩
  have hResult : IsTypeText .result "(map[string]*T, error)" :=
    ⟨.tuple [.map (.named "string") (.pointer (.named "T")), .named "error"],
      by simp only [GoType.Documented, GoType.AllDocumented]; decide, rfl⟩
  have hFormed : nestedProgram.WellFormed := by
    simp [nestedProgram, Program.WellFormed, Stmt.AllWellFormed, Stmt.WellFormed, Stmt.AreCatches,
      Stmt.IsCatch, Expr.WellFormed, Expr.AllWellFormed, Stmt.isBlock, Stmt.isConditional,
      Stmt.isSimple, Stmt.isMissing, Expr.isMissing, Expr.isIdent, hVariadic, hError, hResult,
      stepOperators, unaryOperators]
    exact ⟨⟨31, by decide, rfl⟩, by decide, by decide⟩
  refine ⟨hFormed, readFrom_written nestedProgram hFormed _ ?_ _⟩
  rw [List.map_map]
  exact List.map_id _

end TryGo
