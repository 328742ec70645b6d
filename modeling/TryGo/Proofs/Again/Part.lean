import TryGo.Proofs.PassThrough.Lines
import TryGo.Proofs.Again.Type

/-! The parts of statements as they are printed: simple statements, declarations, parameters and
loop headers. Each part has a printed phrase. The text of the part is divided into the tokens of
that phrase, and the phrase may stand wherever the part did. -/
namespace TryGo

/-- A line that ends breaks off any word. -/
theorem breaks_newline (rest : List Char) : Breaks ('\n' :: rest) :=
  ⟨rfl, by decide, by decide, nofun⟩

theorem breaks_semicolon (rest : List Char) : Breaks (';' :: rest) :=
  ⟨rfl, by decide, by decide, nofun⟩

/-- A reserved word with a space behind it is divided off. -/
theorem spellings_keyword_space (word : String) (kind : TokenKind) (rest : List Char)
    (hWord : isWord word.toList = true) (hKind : TokenKind.ofWord word = kind) :
    spellings (word.toList ++ ' ' :: rest) = (kind, word) :: spellings rest := by
  rw [spellings_keyword word kind rest hWord hKind rfl, spellings_blank (by decide)]

/-- An operator that assigns is divided off from the space behind it. -/
theorem spellings_assign {op : Token} (hLexed : op.Lexed)
    (hOp : op.kind ∈ TokenKind.assignOperators) (rest : List Char) :
    spellings (op.literal.toList ++ ' ' :: rest) = op.spelling :: spellings rest := by
  have hTable : ∀ kind ∈ TokenKind.assignOperators, ∃ text ∈ assignOperators,
      kind.fixed? = some text ∧ operatorKind text = kind := by decide
  obtain ⟨text, hMem, hFixed, hKind⟩ := hTable op.kind hOp
  have hPlain : text.toList.head?.map isBlank = some false
      ∧ Lexeme.scan (text.toList ++ ' ' :: rest) =
        Lexeme.plain (operatorKind text) text.toList := by
    simp only [assignOperators, List.mem_cons, List.not_mem_nil, or_false] at hMem
    rcases hMem with rfl | rfl | rfl | rfl | rfl | rfl | rfl | rfl | rfl | rfl | rfl <;>
      exact ⟨rfl, rfl⟩
  rw [Token.spelling, hLexed.fixed text hFixed, ← hKind,
    spellings_plain text.toList _ hPlain.1 hPlain.2, String.ofList_toList,
    spellings_blank (by decide)]

/-- A type with a space in front of it is divided into the words of the type. -/
theorem spellings_typeSuffix {text : String} {words : List Spelling} {rest : List Char}
    (hTyped : isTyped (some text) = true)
    (hWords : spellings (text.toList ++ rest) = words ++ spellings rest) :
    spellings ((typeSuffix (some text)).toList ++ rest) = words ++ spellings rest := by
  have hText : (typeSuffix (some text)).toList ++ rest = ' ' :: (text.toList ++ rest) := by
    simp [typeSuffix, hTyped]
  rw [hText, spellings_blank (by decide), hWords]

/-- A type with a space in front of it continues no name. -/
theorem not_isWordChar_typeSuffix (type : Option String) {rest : List Char}
    (hRest : ∀ c, rest.head? = some c → isWordChar c = false) :
    ∀ c, ((typeSuffix type).toList ++ rest).head? = some c → isWordChar c = false := by
  intro c hHead
  rw [typeSuffix] at hHead
  split at hHead
  · obtain rfl : ' ' = c := by simpa using hHead
    rfl
  · exact hRest c hHead

/-- A type that is read has some text, so it is written. -/
theorem TypePhrase.isTyped_text (phrase : TypePhrase) (hLexed : AllLexed phrase.tokens) :
    isTyped (some phrase.type.text) = true := by
  rw [isTyped, bne_iff_ne]
  intro hEmpty
  cases phrase with
  | named name =>
      obtain ⟨c, tail, hChars, -⟩ :=
        exists_head_of_isName (isName_mark name (hLexed name.val List.mem_cons_self))
      rw [TypePhrase.type, GoType.text] at hEmpty
      rw [hEmpty] at hChars
      cases hChars
  | _ => simp [TypePhrase.type, GoType.text] at hEmpty

/-! ### Simple statements -/

namespace SimplePhrase

def printed : SimplePhrase → SimplePhrase
  | .define names op values => .define names.printed op values.printed
  | .assign targets op hOp values => .assign targets.printed op hOp values.printed
  | .incr target op hOp =>
      .incr (target.printed.groupIf (target.tree.goLevel < Precedence.call.level)) op hOp
  | .expr value => .expr value.printed

/-- A simple statement is lowered the same once it has been printed. -/
theorem simpleCode_printed (phrase : SimplePhrase) :
    Lower.simpleCode phrase.printed.tree = Lower.simpleCode phrase.tree := by
  cases phrase <;>
    simp only [printed, tree, Lower.simpleCode, ExprPhrase.tree_printed, ExprsPhrase.trees_printed,
      ExprPhrase.tree_groupIf]

variable {phrase : SimplePhrase} {next : TokenKind} {rest : List Char}

theorem fits_printed (hLexed : AllLexed phrase.tokens) (hFits : phrase.Fits next) :
    phrase.printed.Fits next := by
  cases phrase with
  | define names op values =>
      simp only [tokens, allLexed_append, allLexed_cons] at hLexed
      obtain ⟨-, hNames, -, hLevel, hComma⟩ := hFits
      refine ⟨names.levelled_printed hLexed.1, ?_, values.levelled_printed hLexed.2.2, hLevel,
        hComma⟩
      rw [names.trees_printed]
      exact hNames
  | assign targets op hOp values =>
      simp only [tokens, allLexed_append, allLexed_cons] at hLexed
      exact ⟨targets.levelled_printed hLexed.1, values.levelled_printed hLexed.2.2, hFits.2.2⟩
  | incr target op hOp =>
      simp only [tokens, allLexed_append] at hLexed
      exact ExprPhrase.levelled_groupIf _ (target.levelled_printed hLexed.1)
  | expr value => exact ⟨value.levelled_printed hLexed, hFits.2⟩

/-- The text of a simple statement is divided into the tokens of its printed phrase. -/
theorem spellings_code (hSound : AllSound phrase.tokens) (hBreaks : Breaks rest) :
    spellings ((Lower.simpleCode phrase.tree).text.toList ++ rest) =
      phrase.printed.tokens.map Token.spelling ++ spellings rest := by
  cases phrase with
  | define names op values =>
      simp only [tokens, allSound_append, allSound_cons] at hSound
      have hText : (Lower.simpleCode (SimplePhrase.define names op values).tree).text.toList
          ++ rest = (Text.commaSeparated (names.trees.map Expr.go)).toList ++ ' '
            :: ([':', '='] ++ ' '
              :: ((Text.commaSeparated (values.trees.map Expr.go)).toList ++ rest)) := by
        simp [tree, Lower.simpleCode, Go.Code.text]
      rw [hText, names.spellings_go hSound.1 (breaks_ender (by decide) _),
        spellings_blank (by decide), spellings_plain [':', '='] .define rfl rfl,
        spellings_blank (by decide), values.spellings_go hSound.2.2 hBreaks, printed, tokens,
        List.map_append, List.map_cons, op.spelling_eq hSound.2.1.lexed rfl, List.append_assoc]
      rfl
  | assign targets op hOp values =>
      simp only [tokens, allSound_append, allSound_cons] at hSound
      have hText : (Lower.simpleCode (SimplePhrase.assign targets op hOp values).tree).text.toList
          ++ rest = (Text.commaSeparated (targets.trees.map Expr.go)).toList ++ ' '
            :: (op.literal.toList ++ ' '
              :: ((Text.commaSeparated (values.trees.map Expr.go)).toList ++ rest)) := by
        simp [tree, Lower.simpleCode, Go.Code.text]
      rw [hText, targets.spellings_go hSound.1 (breaks_ender (by decide) _),
        spellings_blank (by decide), spellings_assign hSound.2.1.lexed hOp,
        values.spellings_go hSound.2.2 hBreaks, printed, tokens, List.map_append, List.map_cons,
        List.append_assoc]
      rfl
  | incr target op hOp =>
      simp only [tokens, allSound_append, allSound_cons] at hSound
      obtain ⟨hParts, hWord⟩ : Parts (op.literal.toList ++ rest)
          ∧ spellings (op.literal.toList ++ rest) = op.spelling :: spellings rest := by
        rcases hOp with hKind | hKind <;>
          rw [Token.spelling, hSound.2.1.lexed.literal_eq hKind rfl, hKind]
        · exact ⟨⟨rfl, fun hPoint => absurd hPoint (by decide)⟩,
            spellings_plain ['+', '+'] .inc rfl rfl⟩
        · exact ⟨⟨rfl, fun hPoint => absurd hPoint (by decide)⟩,
            spellings_plain ['-', '-'] .dec rfl rfl⟩
      have hText : (Lower.simpleCode (SimplePhrase.incr target op hOp).tree).text.toList ++ rest =
          (target.tree.goAt Precedence.call.level).toList ++ (op.literal.toList ++ rest) := by
        simp [tree, Lower.simpleCode, Go.Code.text]
      rw [hText, target.spellings_target hSound.1 hParts, hWord, printed, tokens, List.map_append,
        List.map_singleton, List.append_assoc]
      rfl
  | expr value => exact value.spellings_go hSound hBreaks

/-- Expressions between commas end with no space. -/
theorem endsSolid_exprs : (values : ExprsPhrase) → AllSound values.tokens →
    EndsSolid (Text.commaSeparated (values.trees.map Expr.go)).toList
  | .last e, hSound => by
      rw [ExprsPhrase.trees, List.map_singleton, Expr.go_eq]
      exact e.tree.endsSolid_goText (e.wellFormed_tree hSound.lexed) (e.lexical_of_sound hSound)
  | .more e comma rest, hSound => by
      simp only [ExprsPhrase.tokens, allSound_append, allSound_cons] at hSound
      have hRest := endsSolid_exprs rest hSound.2.2
      have hText : Text.commaSeparated ((ExprsPhrase.more e comma rest).trees.map Expr.go) =
          e.tree.go ++ ", " ++ Text.commaSeparated (rest.trees.map Expr.go) := by
        cases rest <;> exact Text.joinWith_cons_cons ", " _ _ _
      rw [hText, String.toList_append]
      exact hRest.append _

/-- The text of a simple statement ends in no white space. -/
theorem endsSolid_code (hSound : AllSound phrase.tokens) :
    EndsSolid (Lower.simpleCode phrase.tree).text.toList := by
  cases phrase with
  | define names op values =>
      simp only [tokens, allSound_append, allSound_cons] at hSound
      simp only [tree, Lower.simpleCode, Go.Code.text, String.toList_append]
      exact (endsSolid_exprs values hSound.2.2).append _
  | assign targets op hOp values =>
      simp only [tokens, allSound_append, allSound_cons] at hSound
      simp only [tree, Lower.simpleCode, Go.Code.text, String.toList_append]
      exact (endsSolid_exprs values hSound.2.2).append _
  | incr target op hOp =>
      simp only [tokens, allSound_append, allSound_cons] at hSound
      simp only [tree, Lower.simpleCode, Go.Code.text, String.toList_append]
      refine EndsSolid.append ?_ _
      rcases hOp with hKind | hKind <;> rw [hSound.2.1.lexed.literal_eq hKind rfl]
      · exact ⟨['+'], '+', rfl, by decide⟩
      · exact ⟨['-'], '-', rfl, by decide⟩
  | expr value => exact endsSolid_exprs (.last value) hSound

end SimplePhrase

/-! ### Declarations -/

def InitPhrase.printed (init : InitPhrase) : InitPhrase := { init with value := init.value.printed }

def InitPhrase.code : Option InitPhrase → String
  | none => ""
  | some init => " = " ++ init.value.tree.go

/-- A declaration is written with one blank between its parts. -/
theorem text_decl (kind : DeclKind) (keyword : Mark kind.tokenKind) (name : Mark .ident)
    (type : Option TypePhrase) (init : Option InitPhrase) :
    (Lower.simpleCode (StmtPhrase.decl kind keyword name type init).tree).text =
      kind.keyword ++ " " ++ name.val.literal ++ typeSuffix (type.map fun type => type.type.text)
        ++ InitPhrase.code init := by
  cases init with
  | none => rfl
  | some init =>
      simp only [StmtPhrase.tree, Lower.simpleCode, Go.Code.text, Option.map_some, Option.getD_some,
        init.value.isMissing_tree, InitPhrase.code]
      rfl

section Declarations

variable {rest : List Char}

/-- The value of a declaration is spelled behind its sign. -/
theorem spellings_init (init : Option InitPhrase)
    (hSound : AllSound (tokensIf InitPhrase.tokens init)) (hBreaks : Breaks rest) :
    spellings ((InitPhrase.code init).toList ++ rest) =
      (tokensIf InitPhrase.tokens (init.map InitPhrase.printed)).map Token.spelling
        ++ spellings rest := by
  cases init with
  | none => rfl
  | some init =>
      simp only [tokensIf_some, InitPhrase.tokens, allSound_cons] at hSound
      have hText : (InitPhrase.code (some init)).toList ++ rest =
          ' ' :: (['='] ++ ' ' :: (init.value.tree.go.toList ++ rest)) := by
        simp [InitPhrase.code]
      rw [hText, spellings_blank (by decide), spellings_plain ['='] .assign rfl rfl,
        spellings_blank (by decide), init.value.spellings_go hSound.2 hBreaks, Option.map_some,
        tokensIf_some, InitPhrase.tokens, InitPhrase.printed, List.map_cons,
        init.op.spelling_eq hSound.1.lexed rfl]
      rfl

/-- What stands behind the type of a declaration does not go on with it. -/
theorem not_isWordChar_init (init : Option InitPhrase) (hBreaks : Breaks rest) :
    ∀ c, ((InitPhrase.code init).toList ++ rest).head? = some c → isWordChar c = false := by
  intro c hHead
  cases init with
  | none => exact Lexeme.isWordChar_head hBreaks c hHead
  | some init =>
      obtain rfl : ' ' = c := by simpa [InitPhrase.code] using hHead
      rfl

/-- An optional type is divided into the tokens of its printed phrase. -/
theorem spellings_optionalType (type : Option TypePhrase)
    (hLexed : AllLexed (tokensIf TypePhrase.tokens type))
    (hSizes : SizesStand (leavesIf TypePhrase.leaves type))
    (hRest : ∀ c, rest.head? = some c → isWordChar c = false) :
    spellings ((typeSuffix (type.map fun type => type.type.text)).toList ++ rest) =
      (tokensIf TypePhrase.tokens (type.map TypePhrase.printed)).map Token.spelling
        ++ spellings rest := by
  cases type with
  | none => rfl
  | some type =>
      exact spellings_typeSuffix (type.isTyped_text hLexed)
        (type.spellings_text hLexed hSizes hRest)

/-- The text of a declaration is divided into the tokens of its printed phrase. -/
theorem spellings_decl (kind : DeclKind) (keyword : Mark kind.tokenKind) (name : Mark .ident)
    (type : Option TypePhrase) (init : Option InitPhrase)
    (hSound : AllSound (StmtPhrase.decl kind keyword name type init).tokens)
    (hSizes : SizesStand (StmtPhrase.decl kind keyword name type init).leaves)
    (hBreaks : Breaks rest) :
    spellings ((Lower.simpleCode (StmtPhrase.decl kind keyword name type init).tree).text.toList
        ++ rest) =
      keyword.val.spelling :: name.val.spelling
        :: ((tokensIf TypePhrase.tokens (type.map TypePhrase.printed)
          ++ tokensIf InitPhrase.tokens (init.map InitPhrase.printed)).map Token.spelling
            ++ spellings rest) := by
  simp only [StmtPhrase.tokens, allSound_cons, allSound_append] at hSound
  simp only [StmtPhrase.leaves, sizesStand_word, sizesStand_append] at hSizes
  obtain ⟨hKeyword, hName, hType, hInit⟩ := hSound
  have hText : (Lower.simpleCode (StmtPhrase.decl kind keyword name type init).tree).text.toList
      ++ rest = kind.keyword.toList ++ ' ' :: (name.val.literal.toList
        ++ ((typeSuffix (type.map fun type => type.type.text)).toList
          ++ ((InitPhrase.code init).toList ++ rest))) := by
    rw [text_decl]
    simp
  have hFixed : keyword.val.spelling = (kind.tokenKind, kind.keyword) :=
    keyword.spelling_eq hKeyword.lexed (by cases kind <;> rfl)
  have hRest := not_isWordChar_init init hBreaks
  rw [hText, spellings_keyword_space kind.keyword kind.tokenKind _ (by cases kind <;> rfl)
      (by cases kind <;> rfl),
    spellings_name (isName_mark name hName.lexed) (not_isWordChar_typeSuffix _ hRest),
    spellings_optionalType type hType.lexed hSizes.1 hRest, spellings_init init hInit hBreaks,
    hFixed, name.spelling_ident, List.map_append, List.append_assoc]

end Declarations

/-! ### Functions -/

def ParamPhrase.printed (param : ParamPhrase) : ParamPhrase :=
  { param with type := param.type.map TypePhrase.printed }

def ParamsPhrase.printed : ParamsPhrase → ParamsPhrase
  | .last param => .last param.printed
  | .more param comma rest => .more param.printed comma rest.printed

def ResultPhrase.printed : ResultPhrase → ResultPhrase
  | .none => .none
  | .single type => .single type.printed
  | .tuple types => .tuple types.printed

/-- An optional type has the same text once it has been printed. -/
theorem map_text_printed (type : Option TypePhrase) :
    ((type.map TypePhrase.printed).map fun type => type.type.text) =
      type.map fun type => type.type.text := by
  cases type with
  | none => rfl
  | some type => exact congrArg some type.text_printed

/-- A parameter is read the same once it has been printed. -/
theorem ParamPhrase.tree_printed (param : ParamPhrase) : param.printed.tree = param.tree := by
  rw [ParamPhrase.tree, ParamPhrase.printed, map_text_printed, ParamPhrase.tree]

theorem ParamsPhrase.trees_printed : (params : ParamsPhrase) → params.printed.trees = params.trees
  | .last param => by
      rw [ParamsPhrase.printed, ParamsPhrase.trees, ParamsPhrase.trees, param.tree_printed]
  | .more param _ rest => by
      rw [ParamsPhrase.printed, ParamsPhrase.trees, ParamsPhrase.trees, param.tree_printed,
        rest.trees_printed]

/-- A result has the same text once it has been printed. -/
theorem ResultPhrase.type?_printed (result : ResultPhrase) :
    result.printed.type?.map GoType.text = result.type?.map GoType.text := by
  cases result with
  | none => rfl
  | single type => exact congrArg some type.text_printed
  | tuple types =>
      simp only [ResultPhrase.printed, ResultPhrase.type?, Option.map_some, GoType.text,
        types.texts_printed]

theorem ParamPhrase.fits_printed {param : ParamPhrase} {next : TokenKind}
    (hFits : param.Fits next) : param.printed.Fits next := by
  intro found hFound
  obtain ⟨type, hType, rfl⟩ := Option.map_eq_some_iff.mp hFound
  exact type.fits_printed (hFits type hType)

theorem ParamsPhrase.fits_printed : (params : ParamsPhrase) → params.Fits → params.printed.Fits
  | .last _, hFits => ParamPhrase.fits_printed hFits
  | .more _ _ rest, hFits => ⟨ParamPhrase.fits_printed hFits.1, rest.fits_printed hFits.2⟩

theorem ResultPhrase.fits_printed {result : ResultPhrase} (hFits : result.Fits) :
    result.printed.Fits := by
  cases result with
  | none => trivial
  | single type =>
      exact ⟨type.isVariadic_printed.trans hFits.1, type.fits_printed hFits.2⟩
  | tuple types => exact types.fits_printed hFits

section Functions

variable {rest : List Char}

/-- A parameter as it stands in a signature. -/
def paramText (entry : Expr × Option String) : String :=
  if isTyped entry.2 then entry.1.text ++ " " ++ entry.2.getD "" else entry.1.text

theorem paramText_eq (entry : Expr × Option String) :
    paramText entry = entry.1.text ++ typeSuffix entry.2 := by
  rw [paramText, typeSuffix]
  split
  · rw [String.append_assoc]
  · rw [String.append_empty]

/-- The text of a parameter is spelled by its name and its type. -/
theorem ParamPhrase.spellings_text (param : ParamPhrase) (hLexed : AllLexed param.tokens)
    (hSizes : SizesStand param.leaves)
    (hRest : ∀ c, rest.head? = some c → isWordChar c = false) :
    spellings ((paramText param.tree).toList ++ rest) =
      param.printed.tokens.map Token.spelling ++ spellings rest := by
  simp only [ParamPhrase.tokens, allLexed_cons] at hLexed
  simp only [ParamPhrase.leaves, sizesStand_word] at hSizes
  have hText : (paramText param.tree).toList ++ rest = param.name.val.literal.toList
      ++ ((typeSuffix (param.type.map fun type => type.type.text)).toList ++ rest) := by
    rw [paramText_eq, String.toList_append, List.append_assoc]
    rfl
  rw [hText, spellings_name (isName_mark param.name hLexed.1) (not_isWordChar_typeSuffix _ hRest),
    spellings_optionalType param.type hLexed.2 hSizes hRest, ParamPhrase.printed,
    ParamPhrase.tokens, List.map_cons, param.name.spelling_ident]
  rfl

/-- The texts of parameters are spelled up to the closing bracket. -/
theorem ParamsPhrase.spellings_texts : (params : ParamsPhrase) → AllLexed params.tokens →
    SizesStand params.leaves →
      spellings ((Text.commaSeparated (params.trees.map paramText)).toList ++ ')' :: rest) =
        params.printed.tokens.map Token.spelling ++ spellings (')' :: rest)
  | .last param, hLexed, hSizes =>
      param.spellings_text hLexed hSizes (not_isWordChar_head (by decide))
  | .more param comma others, hLexed, hSizes => by
      simp only [ParamsPhrase.tokens, allLexed_append, allLexed_cons] at hLexed
      simp only [ParamsPhrase.leaves, sizesStand_append, sizesStand_word] at hSizes
      have hJoined :
          Text.commaSeparated ((ParamsPhrase.more param comma others).trees.map paramText) =
            paramText param.tree ++ ", " ++ Text.commaSeparated (others.trees.map paramText) := by
        cases others <;> exact Text.joinWith_cons_cons ", " _ _ _
      have hText : (Text.commaSeparated
          ((ParamsPhrase.more param comma others).trees.map paramText)).toList ++ ')' :: rest =
            (paramText param.tree).toList ++ ',' :: ' '
              :: ((Text.commaSeparated (others.trees.map paramText)).toList ++ ')' :: rest) := by
        rw [hJoined]
        simp
      rw [hText, param.spellings_text hLexed.1 hSizes.1 (not_isWordChar_head (by decide)),
        spellings_delimiter .comma (by decide), spellings_blank (by decide),
        others.spellings_texts hLexed.2.2 hSizes.2, ParamsPhrase.printed, ParamsPhrase.tokens,
        List.map_append, List.map_cons, comma.spelling_eq hLexed.2.1 rfl, List.append_assoc]
      rfl

/-- The parameters of a signature are divided into the tokens of their printed phrases. -/
theorem spellings_parameterList (params : Option ParamsPhrase)
    (hLexed : AllLexed (tokensIf ParamsPhrase.tokens params))
    (hSizes : SizesStand (leavesIf ParamsPhrase.leaves params)) :
    spellings ((parameterList (((params.map ParamsPhrase.trees).getD []).map Prod.fst)
        (((params.map ParamsPhrase.trees).getD []).map Prod.snd)).toList ++ ')' :: rest) =
      (tokensIf ParamsPhrase.tokens (params.map ParamsPhrase.printed)).map Token.spelling
        ++ spellings (')' :: rest) := by
  rw [parameterList, ← List.zip_of_prod rfl rfl]
  cases params with
  | none => rfl
  | some params => exact params.spellings_texts hLexed hSizes

/-- The text of a result is spelled behind a blank, or not at all. -/
theorem spellings_result (result : ResultPhrase) (hLexed : AllLexed result.tokens)
    (hSizes : SizesStand result.leaves)
    (hRest : ∀ c, rest.head? = some c → isWordChar c = false) :
    spellings ((typeSuffix (result.type?.map GoType.text)).toList ++ rest) =
      result.printed.tokens.map Token.spelling ++ spellings rest := by
  cases result with
  | none => rfl
  | single type => exact spellings_optionalType (some type) hLexed hSizes hRest
  | tuple types =>
      have hTyped : isTyped (some (GoType.tuple types.types).text) = true := by
        simp [isTyped, GoType.text]
      exact spellings_typeSuffix hTyped (types.spellings_text hLexed hSizes hRest)

/-- The signature of a function is divided into the tokens of its printed phrase. -/
theorem spellings_signature (name : Mark .ident) (opening : Mark .lparen)
    (params : Option ParamsPhrase) (closing : Mark .rparen) (result : ResultPhrase)
    (hName : name.val.Lexed) (hOpening : opening.val.Lexed)
    (hParams : AllLexed (tokensIf ParamsPhrase.tokens params)) (hClosing : closing.val.Lexed)
    (hResult : AllLexed result.tokens) (hSizes : SizesStand (leavesIf ParamsPhrase.leaves params))
    (hResultSizes : SizesStand result.leaves)
    (hRest : ∀ c, rest.head? = some c → isWordChar c = false) :
    spellings ((signatureText (.ident name.val name.val.literal)
        (((params.map ParamsPhrase.trees).getD []).map Prod.fst)
        (((params.map ParamsPhrase.trees).getD []).map Prod.snd)
        (result.type?.map GoType.text)).toList ++ rest) =
      name.val.spelling :: opening.val.spelling
        :: ((tokensIf ParamsPhrase.tokens (params.map ParamsPhrase.printed)).map Token.spelling
          ++ closing.val.spelling :: (result.printed.tokens.map Token.spelling
            ++ spellings rest)) := by
  have hText : (signatureText (.ident name.val name.val.literal)
      (((params.map ParamsPhrase.trees).getD []).map Prod.fst)
      (((params.map ParamsPhrase.trees).getD []).map Prod.snd)
      (result.type?.map GoType.text)).toList ++ rest = name.val.literal.toList ++ '('
        :: ((parameterList (((params.map ParamsPhrase.trees).getD []).map Prod.fst)
          (((params.map ParamsPhrase.trees).getD []).map Prod.snd)).toList ++ ')'
            :: ((typeSuffix (result.type?.map GoType.text)).toList ++ rest)) := by
    simp [signatureText, Expr.text]
  rw [hText, spellings_name (isName_mark name hName) (not_isWordChar_head (by decide)),
    spellings_delimiter .lparen (by decide), spellings_parameterList params hParams hSizes,
    spellings_delimiter .rparen (by decide), spellings_result result hResult hResultSizes hRest,
    name.spelling_ident, opening.spelling_eq hOpening rfl, closing.spelling_eq hClosing rfl]

end Functions

/-! ### Loop headers -/

/-- The header of a loop as it is printed. Without the statements on both sides it has no
semicolons either. -/
def LoopPhrase.printed : LoopPhrase → LoopPhrase
  | .endless => .endless
  | .whileTrue condition => .whileTrue condition.printed
  | .clauses none _ none _ none => .endless
  | .clauses none _ (some condition) _ none => .whileTrue condition.printed
  | .clauses init first condition second update =>
      .clauses (init.map SimplePhrase.printed) first (condition.map ExprPhrase.printed) second
        (update.map SimplePhrase.printed)

namespace LoopPhrase

def code : LoopPhrase → String
  | .endless => loopText .missing .missing .missing
  | .whileTrue condition => loopText .missing condition.tree .missing
  | .clauses init _ condition _ update =>
      loopText ((init.map SimplePhrase.tree).getD .missing)
        ((condition.map ExprPhrase.tree).getD .missing)
        ((update.map SimplePhrase.tree).getD .missing)

/-- Every loop is written as one line for its header around the lines of its body. -/
theorem lines_tree (header : LoopPhrase) (keyword : Token) (body : Stmt) (depth : Nat) :
    (header.tree keyword body).lines depth =
      ⟨depth, .forOpen header.code⟩ :: (body.bodyLines (depth + 1) ++ [⟨depth, .close⟩]) := by
  cases header <;> rfl

/-- Two of the clauses are statements and may be absent. -/
theorem clauseCodeText_tree (clause : Option SimplePhrase) :
    clauseCodeText ((clause.map SimplePhrase.tree).getD .missing) =
      (clause.map fun phrase => (Lower.simpleCode phrase.tree).text).getD "" := by
  cases clause with
  | none => rfl
  | some phrase => cases phrase <;> rfl

/-- A condition that is left out is written as nothing. -/
theorem conditionCode_tree (condition : Option ExprPhrase) :
    (if ((condition.map ExprPhrase.tree).getD .missing).isMissing then ""
      else ((condition.map ExprPhrase.tree).getD .missing).go) =
        (condition.map fun phrase => phrase.tree.go).getD "" := by
  cases condition with
  | none => rfl
  | some phrase =>
      rw [Option.map_some, Option.getD_some, phrase.isMissing_tree]
      rfl

/-- The text of a header with semicolons. Where there is no update, the last of them ends it. -/
theorem code_clauses (init : Option SimplePhrase) (first : Mark .semicolon)
    (condition : Option ExprPhrase) (second : Mark .semicolon) (update : Option SimplePhrase)
    (hSome : init ≠ none ∨ update ≠ none)
    (hSound : AllSound (tokensIf SimplePhrase.tokens update)) :
    (LoopPhrase.clauses init first condition second update).code.toList =
      ("for " ++ (init.map fun phrase => (Lower.simpleCode phrase.tree).text).getD "" ++ "; "
        ++ (condition.map fun phrase => phrase.tree.go).getD "" ++ ";").toList
        ++ ((update.map fun phrase =>
          " " ++ (Lower.simpleCode phrase.tree).text).getD "").toList := by
  have hPresent : (((init.map SimplePhrase.tree).getD .missing).isMissing
      && ((update.map SimplePhrase.tree).getD .missing).isMissing) = false := by
    cases init with
    | some phrase => cases phrase <;> rfl
    | none =>
        cases update with
        | some phrase => cases phrase <;> rfl
        | none => simp at hSome
  rw [code, loopText, hPresent, if_neg Bool.false_ne_true, clauseCodeText_tree, clauseCodeText_tree,
    conditionCode_tree, String.toList_ofList]
  cases update with
  | none =>
      have hSplit (text : String) : (text ++ "; " ++ "").toList = (text ++ ";").toList ++ [' '] := by
        simp
      rw [Option.map_none, Option.getD_none, hSplit, Text.trimRight_append_space]
      refine (trimRight_of_solid ?_).trans (List.append_nil _).symm
      rw [String.toList_append]
      exact EndsSolid.append ⟨[], ';', rfl, by decide⟩ _
  | some phrase =>
      rw [Option.map_some, Option.getD_some, trimRight_of_solid]
      · simp
      · rw [String.toList_append]
        exact (SimplePhrase.endsSolid_code hSound).append _

theorem fits_printed {header : LoopPhrase} (hLexed : AllLexed header.tokens)
    (hFits : header.Fits) : header.printed.Fits := by
  have hClauses {init : Option SimplePhrase} {next : TokenKind}
      (hLexed : AllLexed (tokensIf SimplePhrase.tokens init))
      (hInit : ∀ phrase, init = some phrase → phrase.Fits next) :
      ∀ phrase, init.map SimplePhrase.printed = some phrase → phrase.Fits next := by
    intro found hFound
    obtain ⟨phrase, rfl, rfl⟩ := Option.map_eq_some_iff.mp hFound
    exact SimplePhrase.fits_printed hLexed (hInit phrase rfl)
  have hCondition {condition : Option ExprPhrase}
      (hLexed : AllLexed (tokensIf ExprPhrase.tokens condition)) :
      ∀ phrase, condition.map ExprPhrase.printed = some phrase →
        phrase.Levelled TokenKind.level := by
    intro found hFound
    obtain ⟨phrase, rfl, rfl⟩ := Option.map_eq_some_iff.mp hFound
    exact phrase.levelled_printed hLexed
  cases header with
  | endless => trivial
  | whileTrue condition => exact condition.levelled_printed hLexed
  | clauses init first condition second update =>
      simp only [tokens, allLexed_append, allLexed_cons] at hLexed
      have hFull : (LoopPhrase.clauses (init.map SimplePhrase.printed) first
          (condition.map ExprPhrase.printed) second (update.map SimplePhrase.printed)).Fits :=
        ⟨hClauses hLexed.1 hFits.1, hCondition hLexed.2.2.1, hClauses hLexed.2.2.2.2 hFits.2.2⟩
      cases init with
      | some phrase => exact hFull
      | none =>
          cases update with
          | some phrase => cases condition <;> exact hFull
          | none =>
              cases condition with
              | none => trivial
              | some phrase => exact phrase.levelled_printed hLexed.2.2.1

/-- Printing does not change the text of a header. -/
theorem code_printed (header : LoopPhrase) : header.printed.code = header.code := by
  have hMissing (clause : Option SimplePhrase) :
      (((clause.map SimplePhrase.printed).map SimplePhrase.tree).getD .missing).isMissing =
        ((clause.map SimplePhrase.tree).getD .missing).isMissing := by
    cases clause with
    | none => rfl
    | some phrase => cases phrase <;> rfl
  have hClause (clause : Option SimplePhrase) :
      clauseCodeText (((clause.map SimplePhrase.printed).map SimplePhrase.tree).getD .missing) =
        clauseCodeText ((clause.map SimplePhrase.tree).getD .missing) := by
    rw [clauseCodeText_tree, clauseCodeText_tree]
    cases clause with
    | none => rfl
    | some phrase => simp only [Option.map_some, phrase.simpleCode_printed]
  have hCondition (condition : Option ExprPhrase) :
      (condition.map ExprPhrase.printed).map ExprPhrase.tree = condition.map ExprPhrase.tree := by
    cases condition with
    | none => rfl
    | some phrase => exact congrArg some phrase.tree_printed
  cases header with
  | endless => rfl
  | whileTrue condition => rw [printed, code, code, condition.tree_printed]
  | clauses init first condition second update =>
      have hFull : (LoopPhrase.clauses (init.map SimplePhrase.printed) first
          (condition.map ExprPhrase.printed) second (update.map SimplePhrase.printed)).code =
            (LoopPhrase.clauses init first condition second update).code := by
        rw [code, code, loopText, loopText, hMissing, hMissing, hClause, hClause,
          hCondition]
      cases init with
      | some phrase => exact hFull
      | none =>
          cases update with
          | some phrase => cases condition <;> exact hFull
          | none =>
              cases condition with
              | none => rfl
              | some phrase => exact hFull

section Text

variable {rest : List Char}

/-- A clause that is left out spells nothing. -/
theorem spellings_clause (clause : Option SimplePhrase)
    (hSound : AllSound (tokensIf SimplePhrase.tokens clause)) (hBreaks : Breaks rest) :
    spellings (((clause.map fun phrase => (Lower.simpleCode phrase.tree).text).getD "").toList
        ++ rest) =
      (tokensIf SimplePhrase.tokens (clause.map SimplePhrase.printed)).map Token.spelling
        ++ spellings rest := by
  cases clause with
  | none => rfl
  | some phrase => exact SimplePhrase.spellings_code hSound hBreaks

/-- A condition that is left out spells nothing. -/
theorem spellings_condition (condition : Option ExprPhrase)
    (hSound : AllSound (tokensIf ExprPhrase.tokens condition)) (hBreaks : Breaks rest) :
    spellings (((condition.map fun phrase => phrase.tree.go).getD "").toList ++ rest) =
      (tokensIf ExprPhrase.tokens (condition.map ExprPhrase.printed)).map Token.spelling
        ++ spellings rest := by
  cases condition with
  | none => rfl
  | some phrase => exact phrase.spellings_go hSound hBreaks

/-- A header with semicolons is divided into its tokens. -/
theorem spellings_clauses (init : Option SimplePhrase) (first : Mark .semicolon)
    (condition : Option ExprPhrase) (second : Mark .semicolon) (update : Option SimplePhrase)
    (rest : List Char) (hSome : init ≠ none ∨ update ≠ none)
    (hSound : AllSound (LoopPhrase.clauses init first condition second update).tokens) :
    spellings ((LoopPhrase.clauses init first condition second update).code.toList
        ++ ' ' :: rest) =
      (.kwFor, "for") :: ((LoopPhrase.clauses (init.map SimplePhrase.printed) first
        (condition.map ExprPhrase.printed) second (update.map SimplePhrase.printed)).tokens.map
          Token.spelling ++ spellings rest) := by
  simp only [tokens, allSound_append, allSound_cons] at hSound
  obtain ⟨hInit, hFirst, hCondition, hSecond, hUpdate⟩ := hSound
  have hText : (LoopPhrase.clauses init first condition second update).code.toList ++ ' ' :: rest =
      "for".toList ++ ' '
        :: (((init.map fun phrase => (Lower.simpleCode phrase.tree).text).getD "").toList
          ++ ';' :: ' ' :: (((condition.map fun phrase => phrase.tree.go).getD "").toList ++ ';'
            :: (((update.map fun phrase =>
                " " ++ (Lower.simpleCode phrase.tree).text).getD "").toList ++ ' ' :: rest))) := by
    rw [code_clauses init first condition second update hSome hUpdate]
    simp
  have hLast : spellings (((update.map fun phrase =>
      " " ++ (Lower.simpleCode phrase.tree).text).getD "").toList ++ ' ' :: rest) =
        (tokensIf SimplePhrase.tokens (update.map SimplePhrase.printed)).map Token.spelling
          ++ spellings rest := by
    rw [← spellings_blank (c := ' ') (by decide) rest]
    cases update with
    | none => rfl
    | some phrase =>
        have hText : (" " ++ (Lower.simpleCode phrase.tree).text).toList ++ ' ' :: rest =
            ' ' :: ((Lower.simpleCode phrase.tree).text.toList ++ ' ' :: rest) := by simp
        rw [Option.map_some, Option.getD_some, hText, spellings_blank (by decide)]
        exact spellings_clause (some phrase) hUpdate (breaks_ender (by decide) rest)
  rw [hText, spellings_keyword_space "for" .kwFor _ rfl rfl,
    spellings_clause init hInit (breaks_semicolon _), spellings_delimiter .semicolon (by decide),
    spellings_blank (by decide), spellings_condition condition hCondition (breaks_semicolon _),
    spellings_delimiter .semicolon (by decide), hLast, tokens, List.map_append, List.map_cons,
    List.map_append, List.map_cons, first.spelling_eq hFirst.lexed rfl,
    second.spelling_eq hSecond.lexed rfl]
  simp

/-- The header of a loop is divided into the tokens of its printed phrase. -/
theorem spellings_code (header : LoopPhrase) (hSound : AllSound header.tokens) :
    spellings (header.code.toList ++ ' ' :: rest) =
      (.kwFor, "for") :: (header.printed.tokens.map Token.spelling ++ spellings rest) := by
  have hEndless : spellings (LoopPhrase.endless.code.toList ++ ' ' :: rest) =
      (.kwFor, "for") :: spellings rest := spellings_keyword_space "for" .kwFor rest rfl rfl
  have hWhile (condition : ExprPhrase) (hSound : AllSound condition.tokens) :
      spellings ((LoopPhrase.whileTrue condition).code.toList ++ ' ' :: rest) =
        (.kwFor, "for") :: (condition.printed.tokens.map Token.spelling ++ spellings rest) := by
    have hText : (LoopPhrase.whileTrue condition).code.toList ++ ' ' :: rest =
        "for".toList ++ ' ' :: (condition.tree.go.toList ++ ' ' :: rest) := by
      simp [code, loopText, Stmt.isMissing, condition.isMissing_tree]
    rw [hText, spellings_keyword_space "for" .kwFor _ rfl rfl,
      condition.spellings_go hSound (breaks_ender (by decide) rest), spellings_blank (by decide)]
  cases header with
  | endless => exact hEndless
  | whileTrue condition => exact hWhile condition hSound
  | clauses init first condition second update =>
      have hFull := spellings_clauses init first condition second update rest
      cases init with
      | some phrase => exact hFull (Or.inl (Option.some_ne_none phrase)) hSound
      | none =>
          cases update with
          | some phrase =>
              cases condition <;> exact hFull (Or.inr (Option.some_ne_none phrase)) hSound
          | none =>
              cases condition with
              | none => exact hEndless
              | some phrase =>
                  simp only [tokens, allSound_append, allSound_cons] at hSound
                  exact hWhile phrase hSound.2.2.1

end Text

end LoopPhrase

end TryGo
