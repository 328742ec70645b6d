import TryGo.Proofs.Phrase.Stmt

/-! The leaves of a phrase: its tokens in order, each with the part that it plays. How a token
is spelled in a source depends on its kind, and on its part in two places only. The size of
an array is spelled by its bare literal, and a comment inside an import group has no
place in the output. -/
namespace TryGo

/-- A block comment with both of its marks. One that the end of the source cut off lacks the
closing one. -/
def closedComment (chars : List Char) : List Char :=
  if ['*', '/'].isSuffixOf (chars.drop 2) then chars else chars ++ ['*', '/']

/-- A token as it is spelled in a source, with the delimiters that its literal lacks. -/
def Token.spelled (token : Token) : List Char :=
  match token.kind with
  | .string => '"' :: (token.literal.toList ++ ['"'])
  | .char => '\'' :: (token.literal.toList ++ ['\''])
  | .rawString => backtick :: (token.literal.toList ++ [backtick])
  | .blockComment => closedComment token.literal.toList
  | _ => token.literal.toList

/-- A token with the part that it plays. -/
inductive Leaf where
  | word (token : Token)
  | size (token : Token)
  | groupComment (token : Token)

namespace Leaf

def token : Leaf → Token
  | .word token | .size token | .groupComment token => token

/-- What a leaf contributes to the text of a source. -/
def spelled : Leaf → List Char
  | .word token => token.spelled
  | .size token => token.literal.toList
  | .groupComment _ => []

end Leaf

/-- Tokens that play no special part. -/
def words (tokens : List Token) : List Leaf := tokens.map .word

@[simp] theorem words_nil : words [] = [] := rfl

@[simp] theorem words_cons (token : Token) (tokens : List Token) :
    words (token :: tokens) = .word token :: words tokens := rfl

@[simp] theorem words_append (tokens more : List Token) :
    words (tokens ++ more) = words tokens ++ words more := List.map_append

@[simp] theorem map_token_words (tokens : List Token) : (words tokens).map Leaf.token = tokens := by
  rw [words, List.map_map]
  exact List.map_id tokens

def leavesIf {α : Type} (leaves : α → List Leaf) : Option α → List Leaf
  | none => []
  | some part => leaves part

@[simp] theorem leavesIf_none {α : Type} (leaves : α → List Leaf) : leavesIf leaves none = [] := rfl

@[simp] theorem leavesIf_some {α : Type} (leaves : α → List Leaf) (part : α) :
    leavesIf leaves (some part) = leaves part := rfl

/-- The leaves of an optional part are its tokens if those of the part are. -/
theorem map_token_leavesIf {α : Type} {leaves : α → List Leaf} {tokens : α → List Token}
    (hLeaves : ∀ part, (leaves part).map Leaf.token = tokens part) (part : Option α) :
    (leavesIf leaves part).map Leaf.token = tokensIf tokens part := by
  cases part with
  | none => rfl
  | some part => exact hLeaves part

mutual

def TypePhrase.leaves : TypePhrase → List Leaf
  | .named name => [.word name.val]
  | .qualified package dot name => words [package.val, dot.val, name.val]
  | .pointer star elem => .word star.val :: elem.leaves
  | .variadic dots elem => .word dots.val :: elem.leaves
  | .slice opening closing elem => .word opening.val :: .word closing.val :: elem.leaves
  | .array opening size _ closing elem =>
      .word opening.val :: .size size :: .word closing.val :: elem.leaves
  | .map keyword opening key closing value =>
      .word keyword.val :: .word opening.val
        :: (key.leaves ++ .word closing.val :: value.leaves)
  | .chan keyword elem => .word keyword.val :: elem.leaves
  | .receiveChan arrow keyword elem => .word arrow.val :: .word keyword.val :: elem.leaves
  | .interface keyword opening closing => words [keyword.val, opening.val, closing.val]
  | .struct keyword opening closing => words [keyword.val, opening.val, closing.val]
  | .func keyword params => .word keyword.val :: params.leaves
  | .funcTo keyword params result => .word keyword.val :: (params.leaves ++ result.leaves)
  | .funcToTuple keyword params results => .word keyword.val :: (params.leaves ++ results.leaves)

def TuplePhrase.leaves : TuplePhrase → List Leaf
  | .empty opening closing => words [opening.val, closing.val]
  | .full opening types closing => .word opening.val :: (types.leaves ++ [.word closing.val])

def TypesPhrase.leaves : TypesPhrase → List Leaf
  | .last type => type.leaves
  | .more type comma rest => type.leaves ++ .word comma.val :: rest.leaves

end

mutual

theorem TypePhrase.map_token_leaves :
    (phrase : TypePhrase) → phrase.leaves.map Leaf.token = phrase.tokens
  | .named _ | .qualified _ _ _ | .interface _ _ _ | .struct _ _ _ => rfl
  | .pointer _ elem | .variadic _ elem | .slice _ _ elem | .array _ _ _ _ elem | .chan _ elem
  | .receiveChan _ _ elem => by
      simp only [TypePhrase.leaves, TypePhrase.tokens, List.map_cons, Leaf.token,
        elem.map_token_leaves]
  | .map _ _ key _ value => by
      simp only [TypePhrase.leaves, TypePhrase.tokens, List.map_cons, List.map_append, Leaf.token,
        key.map_token_leaves, value.map_token_leaves]
  | .func _ params => by
      simp only [TypePhrase.leaves, TypePhrase.tokens, List.map_cons, Leaf.token,
        params.map_token_leaves]
  | .funcTo _ params result => by
      simp only [TypePhrase.leaves, TypePhrase.tokens, List.map_cons, List.map_append, Leaf.token,
        params.map_token_leaves, result.map_token_leaves]
  | .funcToTuple _ params results => by
      simp only [TypePhrase.leaves, TypePhrase.tokens, List.map_cons, List.map_append, Leaf.token,
        params.map_token_leaves, results.map_token_leaves]

theorem TuplePhrase.map_token_leaves :
    (phrase : TuplePhrase) → phrase.leaves.map Leaf.token = phrase.tokens
  | .empty _ _ => rfl
  | .full _ types _ => by
      simp only [TuplePhrase.leaves, TuplePhrase.tokens, List.map_cons, List.map_append,
        List.map_nil, Leaf.token, types.map_token_leaves]

theorem TypesPhrase.map_token_leaves :
    (phrase : TypesPhrase) → phrase.leaves.map Leaf.token = phrase.tokens
  | .last type => type.map_token_leaves
  | .more type _ rest => by
      simp only [TypesPhrase.leaves, TypesPhrase.tokens, List.map_cons, List.map_append, Leaf.token,
        type.map_token_leaves, rest.map_token_leaves]

end

/-! ### Parts of statements -/

def ParamPhrase.leaves (param : ParamPhrase) : List Leaf :=
  .word param.name.val :: leavesIf TypePhrase.leaves param.type

def ParamsPhrase.leaves : ParamsPhrase → List Leaf
  | .last param => param.leaves
  | .more param comma rest => param.leaves ++ .word comma.val :: rest.leaves

def ResultPhrase.leaves : ResultPhrase → List Leaf
  | .none => []
  | .single type => type.leaves
  | .tuple types => types.leaves

def PathsPhrase.leaves : PathsPhrase → List Leaf
  | .done comments => comments.val.map .groupComment
  | .more comments path semicolon rest =>
      comments.val.map .groupComment ++ .word path.val
        :: (leavesIf (fun mark => [.word mark.val]) semicolon ++ rest.leaves)

def BindingPhrase.leaves (binding : BindingPhrase) : List Leaf :=
  .word binding.opening.val :: .word binding.name.val
    :: (leavesIf TypePhrase.leaves binding.type ++ [.word binding.closing.val])

/-- The leaves of a parameter are its tokens. -/
theorem ParamPhrase.map_token_leaves (param : ParamPhrase) :
    param.leaves.map Leaf.token = param.tokens := by
  rw [ParamPhrase.leaves, ParamPhrase.tokens, List.map_cons,
    map_token_leavesIf TypePhrase.map_token_leaves]
  rfl

theorem ParamsPhrase.map_token_leaves :
    (params : ParamsPhrase) → params.leaves.map Leaf.token = params.tokens
  | .last param => param.map_token_leaves
  | .more param _ rest => by
      simp only [ParamsPhrase.leaves, ParamsPhrase.tokens, List.map_append, List.map_cons,
        Leaf.token, param.map_token_leaves, rest.map_token_leaves]

theorem ResultPhrase.map_token_leaves (result : ResultPhrase) :
    result.leaves.map Leaf.token = result.tokens := by
  cases result with
  | none => rfl
  | single type => exact type.map_token_leaves
  | tuple types => exact types.map_token_leaves

theorem map_token_groupComment (tokens : List Token) :
    (tokens.map Leaf.groupComment).map Leaf.token = tokens := by
  rw [List.map_map]
  exact List.map_id tokens

/-- The leaves of an import group are its tokens. -/
theorem PathsPhrase.map_token_leaves :
    (paths : PathsPhrase) → paths.leaves.map Leaf.token = paths.tokens
  | .done comments => map_token_groupComment comments.val
  | .more comments _ semicolon rest => by
      simp only [PathsPhrase.leaves, PathsPhrase.tokens, List.map_append, List.map_cons, Leaf.token,
        map_token_groupComment, rest.map_token_leaves]
      cases semicolon <;> rfl

theorem BindingPhrase.map_token_leaves (binding : BindingPhrase) :
    binding.leaves.map Leaf.token = binding.tokens := by
  simp only [BindingPhrase.leaves, BindingPhrase.tokens, List.map_cons, List.map_append,
    List.map_nil, Leaf.token, map_token_leavesIf TypePhrase.map_token_leaves]

/-! ### Statements -/

mutual

def StmtPhrase.leaves : StmtPhrase → List Leaf
  | .package keyword name => words [keyword.val, name.val]
  | .importOne keyword path => words [keyword.val, path.val]
  | .importGroup keyword opening paths closing =>
      .word keyword.val :: .word opening.val :: (paths.leaves ++ [.word closing.val])
  | .decl _ keyword name type init =>
      .word keyword.val :: .word name.val
        :: (leavesIf TypePhrase.leaves type ++ words (tokensIf InitPhrase.tokens init))
  | .simple phrase => words phrase.tokens
  | .ret keyword values => .word keyword.val :: words (tokensIf ExprsPhrase.tokens values)
  | .throw keyword value => .word keyword.val :: words value.tokens
  | .branch token _ => [.word token]
  | .comment token _ => [.word token]
  | .block body => body.leaves
  | .func keyword name opening params closing result body =>
      .word keyword.val :: .word name.val :: .word opening.val
        :: (leavesIf ParamsPhrase.leaves params ++ .word closing.val
          :: (result.leaves ++ body.leaves))
  | .ifElse chain => chain.leaves
  | .loop keyword header body => .word keyword.val :: (words header.tokens ++ body.leaves)
  | .tryCatch keyword body catches comments =>
      .word keyword.val :: (body.leaves ++ (catches.leaves ++ words comments.val))
  | .tryFinally keyword body catches comments lastly cleanup =>
      .word keyword.val :: (body.leaves
        ++ (catches.leaves ++ (words comments.val ++ .word lastly.val :: cleanup.leaves)))

def BlockPhrase.leaves : BlockPhrase → List Leaf
  | .mk opening items closing => .word opening.val :: (items.leaves ++ [.word closing.val])

def ItemsPhrase.leaves : ItemsPhrase → List Leaf
  | .nil => []
  | .semicolon mark rest => .word mark.val :: rest.leaves
  | .cons stmt semicolon rest =>
      stmt.leaves ++ (leavesIf (fun mark => [.word mark.val]) semicolon ++ rest.leaves)

def IfPhrase.leaves : IfPhrase → List Leaf
  | .plain keyword condition body => .word keyword.val :: (words condition.tokens ++ body.leaves)
  | .elseIf keyword condition body otherwise chain =>
      .word keyword.val
        :: (words condition.tokens ++ (body.leaves ++ .word otherwise.val :: chain.leaves))
  | .elseBlock keyword condition body otherwise alternative =>
      .word keyword.val
        :: (words condition.tokens ++ (body.leaves ++ .word otherwise.val :: alternative.leaves))

def CatchesPhrase.leaves : CatchesPhrase → List Leaf
  | .nil => []
  | .cons comments keyword binding body rest =>
      words comments.val ++ .word keyword.val
        :: (leavesIf BindingPhrase.leaves binding ++ (body.leaves ++ rest.leaves))

end

theorem map_token_semicolon (semicolon : Option (Mark .semicolon)) :
    (leavesIf (fun mark => [.word mark.val]) semicolon).map Leaf.token =
      tokensIf (fun mark => [mark.val]) semicolon :=
  map_token_leavesIf (fun _ => rfl) semicolon

mutual

/-- The leaves of a statement are its tokens in order. -/
theorem StmtPhrase.map_token_leaves :
    (phrase : StmtPhrase) → phrase.leaves.map Leaf.token = phrase.tokens
  | .package _ _ | .importOne _ _ | .branch _ _ | .comment _ _ => rfl
  | .importGroup _ _ paths _ => by
      simp only [StmtPhrase.leaves, StmtPhrase.tokens, List.map_cons, List.map_append, List.map_nil,
        Leaf.token, paths.map_token_leaves]
  | .decl _ _ _ _ _ => by
      simp only [StmtPhrase.leaves, StmtPhrase.tokens, List.map_cons, List.map_append, Leaf.token,
        map_token_words, map_token_leavesIf TypePhrase.map_token_leaves]
  | .simple _ => map_token_words _
  | .ret _ _ | .throw _ _ => by
      simp only [StmtPhrase.leaves, StmtPhrase.tokens, List.map_cons, Leaf.token, map_token_words]
  | .block body => body.map_token_leaves
  | .func _ _ _ _ _ result body => by
      simp only [StmtPhrase.leaves, StmtPhrase.tokens, List.map_cons, List.map_append, Leaf.token,
        map_token_leavesIf ParamsPhrase.map_token_leaves, result.map_token_leaves,
        body.map_token_leaves]
  | .ifElse chain => chain.map_token_leaves
  | .loop _ _ body => by
      simp only [StmtPhrase.leaves, StmtPhrase.tokens, List.map_cons, List.map_append, Leaf.token,
        map_token_words, body.map_token_leaves]
  | .tryCatch _ body catches _ => by
      simp only [StmtPhrase.leaves, StmtPhrase.tokens, List.map_cons, List.map_append, Leaf.token,
        map_token_words, body.map_token_leaves, catches.map_token_leaves]
  | .tryFinally _ body catches _ _ cleanup => by
      simp only [StmtPhrase.leaves, StmtPhrase.tokens, List.map_cons, List.map_append, Leaf.token,
        map_token_words, body.map_token_leaves, catches.map_token_leaves, cleanup.map_token_leaves]

/-- The leaves of a block are its tokens. -/
theorem BlockPhrase.map_token_leaves :
    (phrase : BlockPhrase) → phrase.leaves.map Leaf.token = phrase.tokens
  | .mk _ items _ => by
      simp only [BlockPhrase.leaves, BlockPhrase.tokens, List.map_cons, List.map_append,
        List.map_nil, Leaf.token, items.map_token_leaves]

theorem ItemsPhrase.map_token_leaves :
    (phrase : ItemsPhrase) → phrase.leaves.map Leaf.token = phrase.tokens
  | .nil => rfl
  | .semicolon _ rest => by
      simp only [ItemsPhrase.leaves, ItemsPhrase.tokens, List.map_cons, Leaf.token,
        rest.map_token_leaves]
  | .cons stmt semicolon rest => by
      simp only [ItemsPhrase.leaves, ItemsPhrase.tokens, List.map_append, map_token_semicolon,
        stmt.map_token_leaves, rest.map_token_leaves]

theorem IfPhrase.map_token_leaves :
    (phrase : IfPhrase) → phrase.leaves.map Leaf.token = phrase.tokens
  | .plain _ _ body => by
      simp only [IfPhrase.leaves, IfPhrase.tokens, List.map_cons, List.map_append, Leaf.token,
        map_token_words, body.map_token_leaves]
  | .elseIf _ _ body _ chain => by
      simp only [IfPhrase.leaves, IfPhrase.tokens, List.map_cons, List.map_append, Leaf.token,
        map_token_words, body.map_token_leaves, chain.map_token_leaves]
  | .elseBlock _ _ body _ alternative => by
      simp only [IfPhrase.leaves, IfPhrase.tokens, List.map_cons, List.map_append, Leaf.token,
        map_token_words, body.map_token_leaves, alternative.map_token_leaves]

theorem CatchesPhrase.map_token_leaves :
    (phrase : CatchesPhrase) → phrase.leaves.map Leaf.token = phrase.tokens
  | .nil => rfl
  | .cons _ _ _ body rest => by
      simp only [CatchesPhrase.leaves, CatchesPhrase.tokens, List.map_cons, List.map_append,
        Leaf.token, map_token_words, map_token_leavesIf BindingPhrase.map_token_leaves,
        body.map_token_leaves, rest.map_token_leaves]

end

end TryGo
