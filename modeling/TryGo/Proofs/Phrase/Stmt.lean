import TryGo.Parse.Stmt
import TryGo.Proofs.Phrase.Type

/-! Statement phrases: the tokens of statements and blocks together with their grammatical
structure, semicolons and the comments that no tree keeps included.

Nothing ends a statement but that it cannot be continued, so a phrase is read as written only
before certain kinds. `Fits` says which. -/
namespace TryGo

def tokensIf {α : Type} (tokens : α → List Token) : Option α → List Token
  | none => []
  | some part => tokens part

@[simp] theorem tokensIf_none {α : Type} (tokens : α → List Token) : tokensIf tokens none = [] :=
  rfl

@[simp] theorem tokensIf_some {α : Type} (tokens : α → List Token) (part : α) :
    tokensIf tokens (some part) = tokens part := rfl

/-- The kind that follows if some tokens stand before a token of the given kind. -/
def kindBefore (after : TokenKind) : List Token → TokenKind
  | [] => after
  | token :: _ => token.kind

/-- The next kind is that of the first tokens, or of what comes behind them. -/
theorem nextKind_append (tokens more : List Token) :
    nextKind (tokens ++ more) = kindBefore (nextKind more) tokens := by
  cases tokens <;> rfl

def leading (tokens : List Token) : Token := tokens.headD Token.blank

theorem TokenKind.cases_of_isComment {kind : TokenKind} (hKind : kind.isComment = true) :
    kind = .comment ∨ kind = .blockComment := by
  cases kind <;> first | decide | exact absurd hKind (by decide)

abbrev Comments := { tokens : List Token // ∀ token ∈ tokens, token.kind.isComment = true }

/-- Comments in front hide no other kind. -/
theorem Comments.nextKind_ne {kind : TokenKind} (hKind : kind.isComment = false)
    (comments : Comments) {more : List Token} (hMore : nextKind more ≠ kind) :
    nextKind (comments.val ++ more) ≠ kind := by
  obtain ⟨tokens, hComments⟩ := comments
  cases tokens with
  | nil => exact hMore
  | cons token rest =>
      intro hEq
      have hComment := hComments token List.mem_cons_self
      rw [show token.kind = kind from hEq, hKind] at hComment
      exact Bool.false_ne_true hComment

/-- The phrases of statements that start with expressions. -/
inductive SimplePhrase where
  | define (names : ExprsPhrase) (op : Mark .define) (values : ExprsPhrase)
  | assign (targets : ExprsPhrase) (op : Token) (hOp : op.kind ∈ TokenKind.assignOperators)
      (values : ExprsPhrase)
  | incr (target : ExprPhrase) (op : Token) (hOp : op.kind = .inc ∨ op.kind = .dec)
  | expr (value : ExprPhrase)

namespace SimplePhrase

def tokens : SimplePhrase → List Token
  | .define names op values => names.tokens ++ op.val :: values.tokens
  | .assign targets op _ values => targets.tokens ++ op :: values.tokens
  | .incr target op _ => target.tokens ++ [op]
  | .expr value => value.tokens

def tree (phrase : SimplePhrase) : Stmt :=
  match phrase with
  | .define names _ values => .define (leading phrase.tokens) names.trees values.trees
  | .assign targets op _ values =>
      .assign (leading phrase.tokens) targets.trees op.literal values.trees
  | .incr target op _ => .incr (leading phrase.tokens) target.tree op.literal
  | .expr value => .expr (leading phrase.tokens) value.tree

/-- The kinds that make an expression the start of another statement. -/
def continuations : List TokenKind := [.comma, .define, .inc, .dec] ++ TokenKind.assignOperators

def Fits (next : TokenKind) : SimplePhrase → Prop
  | .define names _ values =>
      names.Levelled TokenKind.level ∧ (∀ name ∈ names.trees, name.isIdent = true)
        ∧ values.Levelled TokenKind.level ∧ next.level ≤ Precedence.lowest.level ∧ next ≠ .comma
  | .assign targets _ _ values =>
      targets.Levelled TokenKind.level ∧ values.Levelled TokenKind.level
        ∧ next.level ≤ Precedence.lowest.level ∧ next ≠ .comma
  | .incr target _ _ => target.Levelled TokenKind.level
  | .expr value =>
      value.Levelled TokenKind.level ∧ next.level ≤ Precedence.lowest.level
        ∧ next ∉ continuations

end SimplePhrase

/-- A parameter. Without a type it shares that of the next one. -/
structure ParamPhrase where
  name : Mark .ident
  type : Option TypePhrase

namespace ParamPhrase

def tokens (param : ParamPhrase) : List Token :=
  param.name.val :: tokensIf TypePhrase.tokens param.type

/-- The name of a parameter and the text of its type. -/
def tree (param : ParamPhrase) : Expr × Option String :=
  (.ident param.name.val param.name.val.literal, param.type.map fun type => type.type.text)

def Fits (next : TokenKind) (param : ParamPhrase) : Prop :=
  ∀ type, param.type = some type → type.Fits next

theorem tree_eq (param : ParamPhrase) :
    (Expr.ident param.name.val param.name.val.literal,
      (param.type.map TypePhrase.type).map GoType.text) = param.tree := by
  obtain ⟨name, type⟩ := param
  cases type <;> rfl

end ParamPhrase

inductive ParamsPhrase where
  | last (param : ParamPhrase)
  | more (param : ParamPhrase) (comma : Mark .comma) (rest : ParamsPhrase)

namespace ParamsPhrase

def tokens : ParamsPhrase → List Token
  | .last param => param.tokens
  | .more param comma rest => param.tokens ++ comma.val :: rest.tokens

def trees : ParamsPhrase → List (Expr × Option String)
  | .last param => [param.tree]
  | .more param _ rest => param.tree :: rest.trees

def Fits : ParamsPhrase → Prop
  | .last param => param.Fits .rparen
  | .more param _ rest => param.Fits .comma ∧ rest.Fits

end ParamsPhrase

inductive ResultPhrase where
  | none
  | single (type : TypePhrase)
  | tuple (types : TuplePhrase)

namespace ResultPhrase

def tokens : ResultPhrase → List Token
  | .none => []
  | .single type => type.tokens
  | .tuple types => types.tokens

def type? : ResultPhrase → Option GoType
  | .none => Option.none
  | .single type => some type.type
  | .tuple types => some (.tuple types.types)

/-- A result is followed by the body of its function. -/
def Fits : ResultPhrase → Prop
  | .none => True
  | .single type => type.isVariadic = false ∧ type.Fits .lbrace
  | .tuple types => types.Fits

end ResultPhrase

/-- The paths of an import group with the comments between them. -/
inductive PathsPhrase where
  | done (comments : Comments)
  | more (comments : Comments) (path : Mark .string) (semicolon : Option (Mark .semicolon))
      (rest : PathsPhrase)

namespace PathsPhrase

def tokens : PathsPhrase → List Token
  | .done comments => comments.val
  | .more comments path semicolon rest =>
      comments.val ++ path.val :: (tokensIf (fun mark => [mark.val]) semicolon ++ rest.tokens)

def paths : PathsPhrase → List String
  | .done _ => []
  | .more _ path _ rest => path.val.literal :: rest.paths

end PathsPhrase

/-- What stands between the keyword of a loop and its body. -/
inductive LoopPhrase where
  | endless
  | whileTrue (condition : ExprPhrase)
  | clauses (init : Option SimplePhrase) (first : Mark .semicolon) (condition : Option ExprPhrase)
      (second : Mark .semicolon) (update : Option SimplePhrase)

namespace LoopPhrase

def tokens : LoopPhrase → List Token
  | .endless => []
  | .whileTrue condition => condition.tokens
  | .clauses init first condition second update =>
      tokensIf SimplePhrase.tokens init ++ first.val
        :: (tokensIf ExprPhrase.tokens condition ++ second.val
          :: tokensIf SimplePhrase.tokens update)

/-- The loop with a given keyword and body. -/
def tree (keyword : Token) (body : Stmt) : LoopPhrase → Stmt
  | .endless => .loop keyword .missing .missing .missing body
  | .whileTrue condition => .loop keyword .missing condition.tree .missing body
  | .clauses init _ condition _ update =>
      .loop keyword ((init.map SimplePhrase.tree).getD .missing)
        ((condition.map ExprPhrase.tree).getD .missing)
        ((update.map SimplePhrase.tree).getD .missing) body

def Fits : LoopPhrase → Prop
  | .endless => True
  | .whileTrue condition => condition.Levelled TokenKind.level
  | .clauses init _ condition _ update =>
      (∀ phrase, init = some phrase → phrase.Fits .semicolon)
        ∧ (∀ phrase, condition = some phrase → phrase.Levelled TokenKind.level)
        ∧ (∀ phrase, update = some phrase → phrase.Fits .lbrace)

end LoopPhrase

/-- What a catch clause binds, with its parentheses. -/
structure BindingPhrase where
  opening : Mark .lparen
  name : Mark .ident
  type : Option TypePhrase
  closing : Mark .rparen

namespace BindingPhrase

def tokens (binding : BindingPhrase) : List Token :=
  binding.opening.val :: binding.name.val
    :: (tokensIf TypePhrase.tokens binding.type ++ [binding.closing.val])

def Fits (binding : BindingPhrase) : Prop :=
  ∀ type, binding.type = some type → type.Fits .rparen

end BindingPhrase

def DeclKind.tokenKind : DeclKind → TokenKind
  | .var => .kwVar
  | .const => .kwConst

/-- The value of a declaration with its assignment mark. -/
structure InitPhrase where
  op : Mark .assign
  value : ExprPhrase

def InitPhrase.tokens (init : InitPhrase) : List Token := init.op.val :: init.value.tokens

mutual

/-- The phrases of statements. -/
inductive StmtPhrase where
  | package (keyword : Mark .kwPackage) (name : Mark .ident)
  | importOne (keyword : Mark .kwImport) (path : Mark .string)
  | importGroup (keyword : Mark .kwImport) (opening : Mark .lparen) (paths : PathsPhrase)
      (closing : Mark .rparen)
  | decl (kind : DeclKind) (keyword : Mark kind.tokenKind) (name : Mark .ident)
      (type : Option TypePhrase) (init : Option InitPhrase)
  | simple (phrase : SimplePhrase)
  | ret (keyword : Mark .kwReturn) (values : Option ExprsPhrase)
  | throw (keyword : Mark .kwThrow) (value : ExprPhrase)
  | branch (token : Token) (hKind : token.kind = .kwBreak ∨ token.kind = .kwContinue)
  | comment (token : Token) (hKind : token.kind.isComment = true)
  | block (body : BlockPhrase)
  | func (keyword : Mark .kwFunc) (name : Mark .ident) (opening : Mark .lparen)
      (params : Option ParamsPhrase) (closing : Mark .rparen) (result : ResultPhrase)
      (body : BlockPhrase)
  | ifElse (chain : IfPhrase)
  | loop (keyword : Mark .kwFor) (header : LoopPhrase) (body : BlockPhrase)
  | tryCatch (keyword : Mark .kwTry) (body : BlockPhrase) (catches : CatchesPhrase)
      (comments : Comments)
  | tryFinally (keyword : Mark .kwTry) (body : BlockPhrase) (catches : CatchesPhrase)
      (comments : Comments) (lastly : Mark .kwFinally) (cleanup : BlockPhrase)

inductive BlockPhrase where
  | mk (opening : Mark .lbrace) (items : ItemsPhrase) (closing : Mark .rbrace)

/-- Statements, each with the semicolon behind it, if there is one, and lone semicolons. -/
inductive ItemsPhrase where
  | nil
  | semicolon (mark : Mark .semicolon) (rest : ItemsPhrase)
  | cons (stmt : StmtPhrase) (semicolon : Option (Mark .semicolon)) (rest : ItemsPhrase)

/-- A conditional with everything that hangs on it. -/
inductive IfPhrase where
  | plain (keyword : Mark .kwIf) (condition : ExprPhrase) (body : BlockPhrase)
  | elseIf (keyword : Mark .kwIf) (condition : ExprPhrase) (body : BlockPhrase)
      (otherwise : Mark .kwElse) (chain : IfPhrase)
  | elseBlock (keyword : Mark .kwIf) (condition : ExprPhrase) (body : BlockPhrase)
      (otherwise : Mark .kwElse) (alternative : BlockPhrase)

/-- Catch clauses, each with the comments in front of it. -/
inductive CatchesPhrase where
  | nil
  | cons (comments : Comments) (keyword : Mark .kwCatch) (binding : Option BindingPhrase)
      (body : BlockPhrase) (rest : CatchesPhrase)

end

mutual

def StmtPhrase.tokens : StmtPhrase → List Token
  | .package keyword name => [keyword.val, name.val]
  | .importOne keyword path => [keyword.val, path.val]
  | .importGroup keyword opening paths closing =>
      keyword.val :: opening.val :: (paths.tokens ++ [closing.val])
  | .decl _ keyword name type init =>
      keyword.val :: name.val
        :: (tokensIf TypePhrase.tokens type ++ tokensIf InitPhrase.tokens init)
  | .simple phrase => phrase.tokens
  | .ret keyword values => keyword.val :: tokensIf ExprsPhrase.tokens values
  | .throw keyword value => keyword.val :: value.tokens
  | .branch token _ => [token]
  | .comment token _ => [token]
  | .block body => body.tokens
  | .func keyword name opening params closing result body =>
      keyword.val :: name.val :: opening.val
        :: (tokensIf ParamsPhrase.tokens params ++ closing.val :: (result.tokens ++ body.tokens))
  | .ifElse chain => chain.tokens
  | .loop keyword header body => keyword.val :: (header.tokens ++ body.tokens)
  | .tryCatch keyword body catches comments =>
      keyword.val :: (body.tokens ++ (catches.tokens ++ comments.val))
  | .tryFinally keyword body catches comments lastly cleanup =>
      keyword.val :: (body.tokens
        ++ (catches.tokens ++ (comments.val ++ lastly.val :: cleanup.tokens)))

def BlockPhrase.tokens : BlockPhrase → List Token
  | .mk opening items closing => opening.val :: (items.tokens ++ [closing.val])

def ItemsPhrase.tokens : ItemsPhrase → List Token
  | .nil => []
  | .semicolon mark rest => mark.val :: rest.tokens
  | .cons stmt semicolon rest =>
      stmt.tokens ++ (tokensIf (fun mark => [mark.val]) semicolon ++ rest.tokens)

def IfPhrase.tokens : IfPhrase → List Token
  | .plain keyword condition body => keyword.val :: (condition.tokens ++ body.tokens)
  | .elseIf keyword condition body otherwise chain =>
      keyword.val :: (condition.tokens ++ (body.tokens ++ otherwise.val :: chain.tokens))
  | .elseBlock keyword condition body otherwise alternative =>
      keyword.val :: (condition.tokens ++ (body.tokens ++ otherwise.val :: alternative.tokens))

def CatchesPhrase.tokens : CatchesPhrase → List Token
  | .nil => []
  | .cons comments keyword binding body rest =>
      comments.val ++ keyword.val
        :: (tokensIf BindingPhrase.tokens binding ++ (body.tokens ++ rest.tokens))

end

/-- The comments that a statement leaves behind it. -/
def StmtPhrase.trailing : StmtPhrase → List Token
  | .tryCatch _ _ _ comments => comments.val
  | _ => []

mutual

def StmtPhrase.tree : StmtPhrase → Stmt
  | .package keyword name => .package keyword.val name.val.literal
  | .importOne keyword path => .imports keyword.val [path.val.literal]
  | .importGroup keyword _ paths _ => .imports keyword.val paths.paths
  | .decl kind keyword name type init =>
      .decl keyword.val kind (.ident name.val name.val.literal)
        (type.map fun type => type.type.text)
        ((init.map fun init => init.value.tree).getD .missing)
  | .simple phrase => phrase.tree
  | .ret keyword values => .ret keyword.val ((values.map ExprsPhrase.trees).getD [])
  | .throw keyword value => .throw keyword.val value.tree
  | .branch token _ => .branch token
  | .comment token _ => Parse.commentStmt token
  | .block body => body.tree
  | .func keyword name _ params _ result body =>
      .func keyword.val (.ident name.val name.val.literal)
        (((params.map ParamsPhrase.trees).getD []).map Prod.fst)
        (((params.map ParamsPhrase.trees).getD []).map Prod.snd)
        (result.type?.map GoType.text) body.tree
  | .ifElse chain => chain.tree
  | .loop keyword header body => header.tree keyword.val body.tree
  | .tryCatch keyword body catches _ => .tryCatch keyword.val body.tree catches.trees .missing
  | .tryFinally keyword body catches _ _ cleanup =>
      .tryCatch keyword.val body.tree catches.trees cleanup.tree

def BlockPhrase.tree : BlockPhrase → Stmt
  | .mk opening items _ => .block opening.val items.trees

/-- The statements of a list. Comments that a statement leaves behind it follow it. -/
def ItemsPhrase.trees : ItemsPhrase → List Stmt
  | .nil => []
  | .semicolon _ rest => rest.trees
  | .cons stmt _ rest => stmt.tree :: (stmt.trailing.map Parse.commentStmt ++ rest.trees)

def IfPhrase.tree : IfPhrase → Stmt
  | .plain keyword condition body => .ifElse keyword.val condition.tree body.tree .missing
  | .elseIf keyword condition body _ chain =>
      .ifElse keyword.val condition.tree body.tree chain.tree
  | .elseBlock keyword condition body _ alternative =>
      .ifElse keyword.val condition.tree body.tree alternative.tree

def CatchesPhrase.trees : CatchesPhrase → List Stmt
  | .nil => []
  | .cons _ keyword none body rest =>
      .catchClause keyword.val .missing none body.tree :: rest.trees
  | .cons _ keyword (some binding) body rest =>
      .catchClause keyword.val (.ident binding.name.val binding.name.val.literal)
        (binding.type.map fun type => type.type.text) body.tree :: rest.trees

end

mutual

/-- Whether a statement ends where its phrase does if a token of the given kind follows. -/
def StmtPhrase.Fits (next : TokenKind) : StmtPhrase → Prop
  | .package _ _ | .importOne _ _ | .importGroup _ _ _ _ | .branch _ _ | .comment _ _ => True
  | .decl _ _ _ type (some init) =>
      (∀ phrase, type = some phrase → phrase.isVariadic = false ∧ phrase.Fits .assign)
        ∧ init.value.Levelled TokenKind.level ∧ next.level ≤ Precedence.lowest.level
  | .decl kind _ _ (some type) none =>
      kind = .var ∧ type.isVariadic = false ∧ type.Fits next ∧ next ≠ .assign
  | .decl kind _ _ none none => kind = .var ∧ next ∉ TokenKind.typeStarts ∧ next ≠ .assign
  | .simple phrase => phrase.Fits next
  | .ret _ none => next ∈ TokenKind.bareReturnFollowers
  | .ret _ (some values) =>
      values.Levelled TokenKind.level ∧ next.level ≤ Precedence.lowest.level ∧ next ≠ .comma
  | .throw _ value => value.Levelled TokenKind.level ∧ next.level ≤ Precedence.lowest.level
  | .block body => body.Fits
  | .func _ _ _ params _ result body =>
      (∀ phrase, params = some phrase → phrase.Fits) ∧ result.Fits ∧ body.Fits
  | .ifElse chain => chain.Fits next
  | .loop _ header body => header.Fits ∧ body.Fits
  | .tryCatch _ body catches _ =>
      body.Fits ∧ catches.Fits ∧ next.isComment = false ∧ next ≠ .kwCatch ∧ next ≠ .kwFinally
  | .tryFinally _ body catches _ _ cleanup => body.Fits ∧ catches.Fits ∧ cleanup.Fits

def BlockPhrase.Fits : BlockPhrase → Prop
  | .mk _ items _ => items.Fits .rbrace

/-- Whether every statement of a list fits what follows it, where the list stands before a
token of the given kind. -/
def ItemsPhrase.Fits (after : TokenKind) : ItemsPhrase → Prop
  | .nil => True
  | .semicolon _ rest => rest.Fits after
  | .cons stmt (some _) rest => stmt.Fits .semicolon ∧ rest.Fits after
  | .cons stmt none rest =>
      stmt.Fits (kindBefore after rest.tokens) ∧ kindBefore after rest.tokens ≠ .semicolon
        ∧ rest.Fits after

def IfPhrase.Fits (next : TokenKind) : IfPhrase → Prop
  | .plain _ condition body => condition.Levelled TokenKind.level ∧ body.Fits ∧ next ≠ .kwElse
  | .elseIf _ condition body _ chain =>
      condition.Levelled TokenKind.level ∧ body.Fits ∧ chain.Fits next
  | .elseBlock _ condition body _ alternative =>
      condition.Levelled TokenKind.level ∧ body.Fits ∧ alternative.Fits

def CatchesPhrase.Fits : CatchesPhrase → Prop
  | .nil => True
  | .cons _ _ binding body rest =>
      (∀ phrase, binding = some phrase → phrase.Fits) ∧ body.Fits ∧ rest.Fits

end

namespace TokenKind

def stmtStarts : List TokenKind :=
  [.kwPackage, .kwImport, .kwVar, .kwConst, .kwFunc, .kwReturn, .kwIf, .kwFor, .comment,
   .blockComment, .kwTry, .kwThrow, .kwBreak, .kwContinue, .lbrace] ++ exprStarts

/-- What starts an expression starts a statement. -/
theorem mem_stmtStarts_of_exprStarts {kind : TokenKind} (hKind : kind ∈ exprStarts) :
    kind ∈ stmtStarts := List.mem_append_right _ hKind

end TokenKind

theorem SimplePhrase.tokens_ne_nil (phrase : SimplePhrase) : phrase.tokens ≠ [] := by
  cases phrase with
  | define | assign | incr => simp [SimplePhrase.tokens]
  | expr value => exact value.tokens_ne_nil

/-- A simple statement starts as an expression does. -/
theorem SimplePhrase.nextKind_mem (phrase : SimplePhrase) (more : List Token) :
    nextKind (phrase.tokens ++ more) ∈ TokenKind.exprStarts := by
  cases phrase with
  | define names op values =>
      rw [SimplePhrase.tokens, List.append_assoc]
      exact names.nextKind_mem _
  | assign targets op hOp values =>
      rw [SimplePhrase.tokens, List.append_assoc]
      exact targets.nextKind_mem _
  | incr target op hOp =>
      rw [SimplePhrase.tokens, List.append_assoc]
      exact target.nextKind_mem _
  | expr value => exact value.nextKind_mem more

theorem BlockPhrase.nextKind_tokens (phrase : BlockPhrase) (more : List Token) :
    nextKind (phrase.tokens ++ more) = .lbrace := by
  cases phrase with
  | mk opening items closing => exact opening.property

theorem IfPhrase.nextKind_tokens (phrase : IfPhrase) (more : List Token) :
    nextKind (phrase.tokens ++ more) = .kwIf := by
  cases phrase with
  | plain keyword | elseIf keyword | elseBlock keyword => exact keyword.property

/-- A statement phrase starts with a token that can start a statement. -/
theorem StmtPhrase.nextKind_mem (phrase : StmtPhrase) (more : List Token) :
    nextKind (phrase.tokens ++ more) ∈ TokenKind.stmtStarts := by
  cases phrase with
  | simple phrase =>
      exact TokenKind.mem_stmtStarts_of_exprStarts (phrase.nextKind_mem more)
  | branch token hKind =>
      rw [StmtPhrase.tokens, List.singleton_append, nextKind_cons]
      rcases hKind with hKind | hKind <;> rw [hKind] <;> decide
  | comment token hKind =>
      rw [StmtPhrase.tokens, List.singleton_append, nextKind_cons]
      revert hKind
      cases token.kind <;> decide
  | block body =>
      rw [StmtPhrase.tokens, body.nextKind_tokens]
      decide
  | ifElse chain =>
      rw [StmtPhrase.tokens, chain.nextKind_tokens]
      decide
  | decl kind keyword =>
      rw [StmtPhrase.tokens, List.cons_append, nextKind_cons, keyword.property]
      cases kind <;> decide
  | package keyword | importOne keyword | importGroup keyword | ret keyword | throw keyword
  | func keyword | loop keyword | tryCatch keyword | tryFinally keyword =>
      rw [StmtPhrase.tokens, List.cons_append, nextKind_cons, keyword.property]
      decide

theorem StmtPhrase.tokens_ne_nil (phrase : StmtPhrase) : phrase.tokens ≠ [] := by
  intro hNil
  have hStart := phrase.nextKind_mem []
  rw [hNil] at hStart
  exact absurd hStart (by decide)

/-- A statement starts with nothing that starts no statement. -/
theorem StmtPhrase.nextKind_ne {kind : TokenKind} (hKind : kind ∉ TokenKind.stmtStarts)
    (phrase : StmtPhrase) (more : List Token) : nextKind (phrase.tokens ++ more) ≠ kind :=
  fun hEq => hKind (hEq ▸ phrase.nextKind_mem more)

end TryGo
