import TryGo.Proofs.Go.Expr
import TryGo.Proofs.Phrase.Leaf
import TryGo.Proofs.Token.Literal

/-! What the printed form of an expression or a type keeps of its source. Printing may move white
space, parentheses and semicolons, so texts are compared without them. Nothing else is
lost, added or moved. -/
namespace TryGo

/-- The characters that printing may add and remove. -/
def isFiller (c : Char) : Bool := Text.isSpace c || c == '(' || c == ')' || c == ';'

def squash (chars : List Char) : List Char := chars.filter fun c => !isFiller c

@[simp] theorem squash_nil : squash [] = [] := rfl

@[simp] theorem squash_append (chars more : List Char) :
    squash (chars ++ more) = squash chars ++ squash more := List.filter_append chars more

/-- What a text says without its filler. -/
def kept (text : String) : List Char := squash text.toList

@[simp] theorem kept_empty : kept "" = [] := rfl

@[simp] theorem kept_append (text more : String) : kept (text ++ more) = kept text ++ kept more := by
  rw [kept, String.toList_append, squash_append]
  rfl

/-- Brackets are not kept. -/
theorem kept_parenIf (wanted : Bool) (text : String) : kept (parenIf wanted text) = kept text := by
  cases wanted with
  | false => rfl
  | true =>
      rw [parenIf, if_pos rfl, kept_append, kept_append]
      exact List.append_nil (kept text)

/-- A joined text says what its parts do, with commas between them. -/
theorem kept_commaSeparated_cons (text : String) {texts : List String} (hTexts : texts ≠ []) :
    kept (Text.commaSeparated (text :: texts)) =
      kept text ++ (kept "," ++ kept (Text.commaSeparated texts)) := by
  cases texts with
  | nil => exact absurd rfl hTexts
  | cons next texts =>
      simp only [Text.commaSeparated, Text.joinWith_cons_cons, kept_append, List.append_assoc]
      rfl

def keptLeaves (leaves : List Leaf) : List Char := squash (leaves.flatMap Leaf.spelled)

@[simp] theorem keptLeaves_nil : keptLeaves [] = [] := rfl

@[simp] theorem keptLeaves_word (token : Token) (leaves : List Leaf) :
    keptLeaves (.word token :: leaves) = squash token.spelled ++ keptLeaves leaves := by
  rw [keptLeaves, List.flatMap_cons, squash_append]
  rfl

@[simp] theorem keptLeaves_size (token : Token) (leaves : List Leaf) :
    keptLeaves (.size token :: leaves) = kept token.literal ++ keptLeaves leaves := by
  rw [keptLeaves, List.flatMap_cons, squash_append]
  rfl

@[simp] theorem keptLeaves_append (leaves more : List Leaf) :
    keptLeaves (leaves ++ more) = keptLeaves leaves ++ keptLeaves more := by
  rw [keptLeaves, List.flatMap_append, squash_append]
  rfl

/-- The kinds whose literals lack their delimiters. -/
def delimitedKinds : List TokenKind := [.string, .char, .rawString, .blockComment]

/-- A token of any other kind says its literal. -/
theorem squash_plain {token : Token} (hKind : token.kind ∉ delimitedKinds) :
    squash token.spelled = kept token.literal := by
  have hSpelled : token.spelled = token.literal.toList := by
    unfold Token.spelled
    split <;> simp_all [delimitedKinds]
  rw [hSpelled]
  rfl

/-- A name is kept as it is spelled. -/
theorem squash_name (mark : Mark .ident) : squash mark.val.spelled = kept mark.val.literal :=
  squash_plain (by rw [mark.property]; decide)

/-- A token of a kind with one spelling says that. -/
theorem squash_mark {kind : TokenKind} (mark : Mark kind) (hLexed : mark.val.Lexed) (text : String)
    (hFixed : kind.fixed? = some text) : squash mark.val.spelled = kept text := by
  have hKind : mark.val.kind ∉ delimitedKinds := by
    have hNone : ∀ kind ∈ delimitedKinds, kind.fixed? = none := by decide
    intro hMem
    rw [mark.property] at hMem
    rw [hNone kind hMem] at hFixed
    cases hFixed
  rw [squash_plain hKind, hLexed.literal_eq mark.property hFixed]

/-! ### Expressions -/

/-- The text of an operand is kept as its token is spelled. -/
theorem kept_operand {token : Token} {value : Expr} (hValue : operand? token = some value)
    (hLexed : token.Lexed) : kept value.goText = squash token.spelled := by
  unfold operand? at hValue
  split at hValue
  next hKind =>
    obtain rfl := Option.some.inj hValue
    exact (squash_plain (by rw [hKind]; decide)).symm
  next hKind =>
    obtain ⟨_, _, rfl⟩ := Option.map_eq_some_iff.mp hValue
    exact (squash_plain (by rw [hKind]; decide)).symm
  next hKind =>
    obtain ⟨_, _, rfl⟩ := Option.map_eq_some_iff.mp hValue
    exact (squash_plain (by rw [hKind]; decide)).symm
  next hKind =>
    obtain rfl := Option.some.inj hValue
    simp [Token.spelled, hKind, Expr.goText, stringText, kept]
  next hKind =>
    obtain rfl := Option.some.inj hValue
    simp [Token.spelled, hKind, Expr.goText, stringText, kept, backtick]
  next hKind =>
    obtain rfl := Option.some.inj hValue
    simp [Token.spelled, hKind, Expr.goText, charText, kept]
  next hKind =>
    obtain rfl := Option.some.inj hValue
    exact (squash_mark ⟨token, hKind⟩ hLexed "true" (by decide)).symm
  next hKind =>
    obtain rfl := Option.some.inj hValue
    exact (squash_mark ⟨token, hKind⟩ hLexed "false" (by decide)).symm
  next hKind =>
    obtain rfl := Option.some.inj hValue
    exact (squash_mark ⟨token, hKind⟩ hLexed "nil" (by decide)).symm
  next => cases hValue

theorem TokenKind.not_delimited_of_isUnary {kind : TokenKind} (hUnary : kind.isUnary = true) :
    kind ∉ delimitedKinds := by
  have hTable : ∀ kind ∈ unaryKinds, kind ∉ delimitedKinds := by decide
  exact hTable kind (mem_unaryKinds hUnary)

theorem TokenKind.not_delimited_of_isBinary {kind : TokenKind} (hBinary : kind.isBinary = true) :
    kind ∉ delimitedKinds := by
  have hTable : ∀ kind ∈ binaryKinds, kind ∉ delimitedKinds := by decide
  exact hTable kind (mem_binaryKinds hBinary)

mutual

/-- The printed form of an expression says what its tokens do. -/
theorem ExprPhrase.kept_goText : (phrase : ExprPhrase) → AllLexed phrase.tokens →
    kept phrase.tree.goText = keptLeaves (words phrase.tokens)
  | .atom token value hValue, hLexed => by
      have hOperand := kept_operand hValue (hLexed token List.mem_cons_self)
      simp only [ExprPhrase.tree, ExprPhrase.tokens, words_cons, words_nil, keptLeaves_word,
        keptLeaves_nil, List.append_nil, hOperand]
  | .group opening inner closing, hLexed => by
      simp only [ExprPhrase.tokens, allLexed_cons, allLexed_append] at hLexed
      simp only [ExprPhrase.tree, ExprPhrase.tokens, words_cons, words_append, words_nil,
        keptLeaves_word, keptLeaves_append, keptLeaves_nil,
        squash_mark opening hLexed.1 "(" (by decide),
        squash_mark closing hLexed.2.2.1 ")" (by decide), inner.kept_goText hLexed.2.1]
      exact (List.append_nil _).symm
  | .unary op hOp operand, hLexed => by
      simp only [ExprPhrase.tokens, allLexed_cons] at hLexed
      simp only [ExprPhrase.tree, Expr.goText, ExprPhrase.tokens, words_cons, keptLeaves_word,
        kept_append, kept_parenIf, squash_plain (TokenKind.not_delimited_of_isUnary hOp),
        operand.kept_goText hLexed.2]
  | .binary left op hOp right, hLexed => by
      simp only [ExprPhrase.tokens, allLexed_cons, allLexed_append] at hLexed
      simp only [ExprPhrase.tree, Expr.goText, ExprPhrase.tokens, words_cons, words_append,
        keptLeaves_word, keptLeaves_append, kept_append, kept_parenIf, List.append_assoc,
        squash_plain (TokenKind.not_delimited_of_isBinary hOp), left.kept_goText hLexed.1,
        right.kept_goText hLexed.2.2]
      rfl
  | .callEmpty callee opening closing, hLexed => by
      simp only [ExprPhrase.tokens, allLexed_cons, allLexed_append] at hLexed
      simp only [ExprPhrase.tree, Expr.goText, ExprPhrase.tokens, words_cons, words_append,
        words_nil, keptLeaves_word, keptLeaves_append, keptLeaves_nil, kept_append, kept_parenIf,
        List.append_assoc, squash_mark opening hLexed.2.1 "(" (by decide),
        squash_mark closing hLexed.2.2.1 ")" (by decide), callee.kept_goText hLexed.1]
      rfl
  | .call callee opening args closing, hLexed => by
      simp only [ExprPhrase.tokens, allLexed_cons, allLexed_append] at hLexed
      simp only [ExprPhrase.tree, Expr.goText, ExprPhrase.tokens, words_cons, words_append,
        words_nil, keptLeaves_word, keptLeaves_append, keptLeaves_nil, kept_append, kept_parenIf,
        List.append_assoc, squash_mark opening hLexed.2.1 "(" (by decide),
        squash_mark closing hLexed.2.2.2.1 ")" (by decide), callee.kept_goText hLexed.1,
        args.kept_goTexts hLexed.2.2.1, List.append_nil]
  | .select left dot field, hLexed => by
      simp only [ExprPhrase.tokens, allLexed_cons, allLexed_append] at hLexed
      simp only [ExprPhrase.tree, Expr.goText, Expr.text, ExprPhrase.tokens, words_cons,
        words_append, words_nil, keptLeaves_word, keptLeaves_append, keptLeaves_nil, kept_append,
        kept_parenIf, List.append_assoc, squash_mark dot hLexed.2.1 "." (by decide),
        squash_name field, left.kept_goText hLexed.1, List.append_nil]
  | .index left opening position closing, hLexed => by
      simp only [ExprPhrase.tokens, allLexed_cons, allLexed_append] at hLexed
      simp only [ExprPhrase.tree, Expr.goText, ExprPhrase.tokens, words_cons, words_append,
        words_nil, keptLeaves_word, keptLeaves_append, keptLeaves_nil, kept_append, kept_parenIf,
        List.append_assoc, squash_mark opening hLexed.2.1 "[" (by decide),
        squash_mark closing hLexed.2.2.2.1 "]" (by decide), left.kept_goText hLexed.1,
        position.kept_goText hLexed.2.2.1, List.append_nil]

/-- Expressions between commas keep their tokens. -/
theorem ExprsPhrase.kept_goTexts : (phrase : ExprsPhrase) → AllLexed phrase.tokens →
    kept (Text.commaSeparated (Expr.goTexts phrase.trees)) = keptLeaves (words phrase.tokens)
  | .last e, hLexed => e.kept_goText hLexed
  | .more e comma rest, hLexed => by
      simp only [ExprsPhrase.tokens, allLexed_cons, allLexed_append] at hLexed
      have hRest : Expr.goTexts rest.trees ≠ [] := by cases rest <;> exact List.cons_ne_nil _ _
      simp only [ExprsPhrase.trees, Expr.goTexts, kept_commaSeparated_cons _ hRest,
        ExprsPhrase.tokens, words_append, words_cons, keptLeaves_append, keptLeaves_word,
        squash_mark comma hLexed.2.1 "," (by decide), e.kept_goText hLexed.1,
        rest.kept_goTexts hLexed.2.2]

end

theorem Expr.goTexts_eq_map (es : List Expr) : Expr.goTexts es = es.map Expr.go := by
  induction es with
  | nil => rfl
  | cons e es ih => rw [Expr.goTexts, List.map_cons, Expr.go_eq, ih]

theorem ExprPhrase.kept_go (phrase : ExprPhrase) (hLexed : AllLexed phrase.tokens) :
    kept phrase.tree.go = keptLeaves (words phrase.tokens) := by
  rw [Expr.go_eq, phrase.kept_goText hLexed]

theorem ExprsPhrase.kept_go (phrase : ExprsPhrase) (hLexed : AllLexed phrase.tokens) :
    kept (Text.commaSeparated (phrase.trees.map Expr.go)) = keptLeaves (words phrase.tokens) := by
  rw [← Expr.goTexts_eq_map, phrase.kept_goTexts hLexed]

/-! ### Types -/

mutual

/-- The text of a type says what its leaves do. -/
theorem TypePhrase.kept_text : (phrase : TypePhrase) → AllLexed phrase.tokens →
    kept phrase.type.text = keptLeaves phrase.leaves
  | .named name, _ => by
      simp only [TypePhrase.type, GoType.text, TypePhrase.leaves, keptLeaves_word, keptLeaves_nil,
        squash_name name, List.append_nil]
  | .qualified package dot name, hLexed => by
      simp only [TypePhrase.tokens, allLexed_cons] at hLexed
      simp only [TypePhrase.type, GoType.text, TypePhrase.leaves, words_cons, words_nil,
        keptLeaves_word, keptLeaves_nil, kept_append, List.append_assoc, List.append_nil,
        squash_name package, squash_name name, squash_mark dot hLexed.2.1 "." (by decide)]
  | .pointer star elem, hLexed => by
      simp only [TypePhrase.tokens, allLexed_cons] at hLexed
      simp only [TypePhrase.type, GoType.text, TypePhrase.leaves, keptLeaves_word, kept_append,
        squash_mark star hLexed.1 "*" (by decide), elem.kept_text hLexed.2]
  | .variadic dots elem, hLexed => by
      simp only [TypePhrase.tokens, allLexed_cons] at hLexed
      simp only [TypePhrase.type, GoType.text, TypePhrase.leaves, keptLeaves_word, kept_append,
        squash_mark dots hLexed.1 "..." (by decide), elem.kept_text hLexed.2]
  | .slice opening closing elem, hLexed => by
      simp only [TypePhrase.tokens, allLexed_cons] at hLexed
      simp only [TypePhrase.type, GoType.text, TypePhrase.leaves, keptLeaves_word, kept_append,
        squash_mark opening hLexed.1 "[" (by decide), squash_mark closing hLexed.2.1 "]" (by decide),
        elem.kept_text hLexed.2.2]
      rfl
  | .array opening size _ closing elem, hLexed => by
      simp only [TypePhrase.tokens, allLexed_cons] at hLexed
      simp only [TypePhrase.type, GoType.text, TypePhrase.leaves, keptLeaves_word, keptLeaves_size,
        kept_append, List.append_assoc, squash_mark opening hLexed.1 "[" (by decide),
        squash_mark closing hLexed.2.2.1 "]" (by decide), elem.kept_text hLexed.2.2.2]
  | .map keyword opening key closing value, hLexed => by
      simp only [TypePhrase.tokens, allLexed_cons, allLexed_append] at hLexed
      simp only [TypePhrase.type, GoType.text, TypePhrase.leaves, keptLeaves_word,
        keptLeaves_append, kept_append, List.append_assoc,
        squash_mark keyword hLexed.1 "map" (by decide),
        squash_mark opening hLexed.2.1 "[" (by decide),
        squash_mark closing hLexed.2.2.2.1 "]" (by decide), key.kept_text hLexed.2.2.1,
        value.kept_text hLexed.2.2.2.2]
      rfl
  | .chan keyword elem, hLexed => by
      simp only [TypePhrase.tokens, allLexed_cons] at hLexed
      simp only [TypePhrase.type, GoType.text, TypePhrase.leaves, keptLeaves_word, kept_append,
        squash_mark keyword hLexed.1 "chan" (by decide), elem.kept_text hLexed.2]
      rfl
  | .receiveChan arrow keyword elem, hLexed => by
      simp only [TypePhrase.tokens, allLexed_cons] at hLexed
      simp only [TypePhrase.type, GoType.text, TypePhrase.leaves, keptLeaves_word, kept_append,
        squash_mark arrow hLexed.1 "<-" (by decide),
        squash_mark keyword hLexed.2.1 "chan" (by decide), elem.kept_text hLexed.2.2]
      rfl
  | .interface keyword opening closing, hLexed => by
      simp only [TypePhrase.tokens, allLexed_cons] at hLexed
      simp only [TypePhrase.type, GoType.text, TypePhrase.leaves, words_cons, words_nil,
        keptLeaves_word, keptLeaves_nil, squash_mark keyword hLexed.1 "interface" (by decide),
        squash_mark opening hLexed.2.1 "\x7b" (by decide),
        squash_mark closing hLexed.2.2.1 "\x7d" (by decide)]
      rfl
  | .struct keyword opening closing, hLexed => by
      simp only [TypePhrase.tokens, allLexed_cons] at hLexed
      simp only [TypePhrase.type, GoType.text, TypePhrase.leaves, words_cons, words_nil,
        keptLeaves_word, keptLeaves_nil, squash_mark keyword hLexed.1 "struct" (by decide),
        squash_mark opening hLexed.2.1 "\x7b" (by decide),
        squash_mark closing hLexed.2.2.1 "\x7d" (by decide)]
      rfl
  | .func keyword params, hLexed => by
      simp only [TypePhrase.tokens, allLexed_cons] at hLexed
      simp only [TypePhrase.type, GoType.text, TypePhrase.leaves, keptLeaves_word, kept_append,
        List.append_assoc, squash_mark keyword hLexed.1 "func" (by decide),
        params.kept_texts hLexed.2]
      exact congrArg (kept "func" ++ ·) (List.append_nil _)
  | .funcTo keyword params result, hLexed => by
      simp only [TypePhrase.tokens, allLexed_cons, allLexed_append] at hLexed
      simp only [TypePhrase.type, GoType.text, TypePhrase.leaves, keptLeaves_word,
        keptLeaves_append, kept_append, List.append_assoc,
        squash_mark keyword hLexed.1 "func" (by decide), params.kept_texts hLexed.2.1,
        result.kept_text hLexed.2.2]
      rfl
  | .funcToTuple keyword params results, hLexed => by
      simp only [TypePhrase.tokens, allLexed_cons, allLexed_append] at hLexed
      simp only [TypePhrase.type, GoType.text, TypePhrase.leaves, keptLeaves_word,
        keptLeaves_append, kept_append, List.append_assoc,
        squash_mark keyword hLexed.1 "func" (by decide), params.kept_texts hLexed.2.1,
        results.kept_texts hLexed.2.2]
      exact congrArg (fun rest => kept "func" ++ (keptLeaves params.leaves ++ rest))
        (List.append_nil _)

/-- Results between commas keep their leaves. -/
theorem TuplePhrase.kept_texts : (phrase : TuplePhrase) → AllLexed phrase.tokens →
    kept (Text.commaSeparated (GoType.texts phrase.types)) = keptLeaves phrase.leaves
  | .empty opening closing, hLexed => by
      simp only [TuplePhrase.tokens, allLexed_cons] at hLexed
      simp only [TuplePhrase.leaves, words_cons, words_nil, keptLeaves_word, keptLeaves_nil,
        squash_mark opening hLexed.1 "(" (by decide),
        squash_mark closing hLexed.2.1 ")" (by decide)]
      rfl
  | .full opening types closing, hLexed => by
      simp only [TuplePhrase.tokens, allLexed_cons, allLexed_append] at hLexed
      simp only [TuplePhrase.types, TuplePhrase.leaves, keptLeaves_word, keptLeaves_append,
        keptLeaves_nil, squash_mark opening hLexed.1 "(" (by decide),
        squash_mark closing hLexed.2.2.1 ")" (by decide), types.kept_texts hLexed.2.1]
      exact (List.append_nil _).symm

theorem TypesPhrase.kept_texts : (phrase : TypesPhrase) → AllLexed phrase.tokens →
    kept (Text.commaSeparated (GoType.texts phrase.types)) = keptLeaves phrase.leaves
  | .last type, hLexed => type.kept_text hLexed
  | .more type comma rest, hLexed => by
      simp only [TypesPhrase.tokens, allLexed_cons, allLexed_append] at hLexed
      have hRest : GoType.texts rest.types ≠ [] := by cases rest <;> exact List.cons_ne_nil _ _
      simp only [TypesPhrase.types, GoType.texts, kept_commaSeparated_cons _ hRest,
        TypesPhrase.leaves, keptLeaves_append, keptLeaves_word,
        squash_mark comma hLexed.2.1 "," (by decide), type.kept_text hLexed.1,
        rest.kept_texts hLexed.2.2]

end

end TryGo
