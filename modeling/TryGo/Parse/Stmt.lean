import TryGo.Parse.Expr
import TryGo.Parse.Type
import TryGo.Text.Space

/-! Parsing of statements and of whole programs. Each function starts with the current token
on the first token of its construct and ends with it on the last one. A semicolon after a
statement is optional, and newlines have no meaning, so the end of a statement is where it
cannot be continued. -/
namespace TryGo.Parse

/-- The text of a comment without its marks. A block comment is trimmed. -/
def commentContent (token : Token) : String :=
  let chars := token.literal.toList
  if token.kind == .blockComment then
    let inner := if ['/', '*'].isPrefixOf chars then chars.drop 2 else chars
    let inner :=
      if ['*', '/'].isSuffixOf inner then inner.take (inner.length - 2) else inner
    String.ofList (Text.trim inner)
  else
    String.ofList (if ['/', '/'].isPrefixOf chars then chars.drop 2 else chars)

def commentStmt (token : Token) : Stmt :=
  .comment token (commentContent token) (token.kind == .blockComment)

def packageStmt : ParseM Stmt := do
  let token ← cur
  expect .ident
  return .package token (← cur).literal

/-- The paths of an import group up to its closing parenthesis, which comes next in the
end. Comments between the paths are dropped. -/
def importPaths : Nat → ParseM (List String)
  | 0 => outOfFuel
  | fuel + 1 => do
      let _ ← skipComments
      if ← peekIs .rparen then
        return []
      else
        expect .string
        let path := (← cur).literal
        if ← peekIs .semicolon then advance
        return path :: (← importPaths fuel)

def importStmt : ParseM Stmt := do
  let token ← cur
  if ← peekIs .lparen then
    advance
    let paths ← importPaths ((← tokensLeft) + 1)
    advance
    return .imports token paths
  else
    expect .string
    return .imports token [(← cur).literal]

def optionalType : ParseM (Option GoType) := do
  if TokenKind.typeStarts.contains (← peek).kind then
    advance
    return some (← readType)
  else
    return none

/-- A declaration. The value of a constant is mandatory. -/
def declStmt (kind : DeclKind) : ParseM Stmt := do
  let token ← cur
  expect .ident
  let name ← curIdent
  let type ← optionalType
  match kind with
  | .const =>
      expect .assign
      advance
      return .decl token kind name (type.map GoType.text) (← readExpr)
  | .var =>
      if ← peekIs .assign then
        advance
        advance
        return .decl token kind name (type.map GoType.text) (← readExpr)
      else
        return .decl token kind name (type.map GoType.text) .missing

def returnStmt : ParseM Stmt := do
  let token ← cur
  if TokenKind.bareReturnFollowers.contains (← peek).kind then
    return .ret token []
  else
    advance
    return .ret token (← readExprs)

def throwStmt : ParseM Stmt := do
  let token ← cur
  advance
  return .throw token (← requireExpr)

/-- Makes sure that some expressions are identifiers. The first other one is reported and
ends the attempt. -/
def requireIdents : List Expr → ParseM Unit
  | [] => return ()
  | e :: rest =>
      if e.isIdent then requireIdents rest
      else do
        match e.render with
        | .ok text => report (.notIdentifier text)
        | .error error => throw (.unrenderable error)
        abandon

/-- A statement that starts with expressions: a definition, an assignment, an increment, or
an expression alone. -/
def expressionStmt : ParseM Stmt := do
  let token ← cur
  let exprs ← readExprs
  let next ← peek
  if next.kind == .define then
    requireIdents exprs
    advance
    advance
    return .define token exprs (← readExprs)
  else if TokenKind.assignOperators.contains next.kind then
    advance
    advance
    return .assign token exprs next.literal (← readExprs)
  else
    match exprs with
    | [e] =>
        if next.kind == .inc || next.kind == .dec then
          advance
          return .incr token e next.literal
        else
          return .expr token e
    | _ =>
        report (.unexpected .assign next.kind)
        abandon

/-- A statement that may also stand in the header of a loop. -/
def simpleStmt : ParseM Stmt := do
  let token ← cur
  let next ← peek
  if token.kind == .ident && next.kind == .define then
    advance
    advance
    return .define token [.ident token token.literal] (← readExprs)
  else if token.kind == .ident && (next.kind == .inc || next.kind == .dec) then
    advance
    return .incr token (.ident token token.literal) next.literal
  else
    expressionStmt

/-- The parameters of a function after its opening parenthesis, up to the closing one. A
parameter without a type is followed by one that has it. -/
def parameters : Nat → ParseM (List (Expr × Option String))
  | 0 => outOfFuel
  | fuel + 1 => do
      expect .ident
      let name ← curIdent
      let type ←
        if ← peekIs .ellipsis then
          advance
          pure (some (← readType))
        else optionalType
      if ← peekIs .comma then
        advance
        return (name, type.map GoType.text) :: (← parameters fuel)
      else
        expect .rparen
        return [(name, type.map GoType.text)]

/-- The parameters of a function from its opening parenthesis. -/
def readParameters : ParseM (List (Expr × Option String)) := do
  if ← peekIs .rparen then
    advance
    return []
  else
    parameters ((← tokensLeft) + 1)

def readResult : ParseM (Option GoType) := do
  if ← peekIs .lparen then
    advance
    return some (← readResults)
  else
    optionalType

mutual

/-- One statement and the semicolon behind it, if there is one. A lone semicolon is no
statement, and neither is a construct that was abandoned. -/
def statement : Nat → ParseM (Option Stmt)
  | 0 => outOfFuel
  | fuel + 1 => do
      let token ← cur
      if token.kind == .semicolon then
        return none
      else
        let result ← attempt (construct fuel)
        if ← peekIs .semicolon then advance
        return result

/-- The statement that the current token starts. -/
def construct : Nat → ParseM Stmt
  | 0 => outOfFuel
  | fuel + 1 => do
      let token ← cur
      match token.kind with
      | .kwPackage => packageStmt
      | .kwImport => importStmt
      | .kwVar => declStmt .var
      | .kwConst => declStmt .const
      | .kwFunc => functionStmt fuel
      | .kwReturn => returnStmt
      | .kwIf => ifStmt fuel
      | .kwFor => forStmt fuel
      | .comment | .blockComment => return commentStmt token
      | .kwTry => tryStmt fuel
      | .kwThrow => throwStmt
      | .kwBreak | .kwContinue => return .branch token
      | .lbrace => block fuel
      | _ => simpleStmt

def block : Nat → ParseM Stmt
  | 0 => outOfFuel
  | fuel + 1 => do
      let token ← cur
      advance
      return .block token (← blockItems fuel)

/-- The statements of a block up to its closing brace, which becomes current. A block that
the end of the source cuts off is reported and keeps what was read. -/
def blockItems : Nat → ParseM (List Stmt)
  | 0 => outOfFuel
  | fuel + 1 => do
      let kind := (← cur).kind
      if kind == .rbrace then
        return []
      else if kind == .eof then
        report (.unexpected .rbrace .eof)
        return []
      else
        let stmt ← statement fuel
        let comments ← takeTrailing
        advance
        return stmt.toList ++ comments ++ (← blockItems fuel)

def ifStmt : Nat → ParseM Stmt
  | 0 => outOfFuel
  | fuel + 1 => do
      let token ← cur
      advance
      let condition ← readExpr
      expect .lbrace
      let consequence ← block fuel
      if ← peekIs .kwElse then
        advance
        if ← peekIs .kwIf then
          advance
          return .ifElse token condition consequence (← ifStmt fuel)
        else
          expect .lbrace
          return .ifElse token condition consequence (← block fuel)
      else
        return .ifElse token condition consequence .missing

/-- A loop: endless, with a condition alone, or with three clauses of which each may be
empty. -/
def forStmt : Nat → ParseM Stmt
  | 0 => outOfFuel
  | fuel + 1 => do
      let token ← cur
      if ← peekIs .lbrace then
        advance
        return .loop token .missing .missing .missing (← block fuel)
      else
        advance
        if (← cur).kind == .semicolon then
          loopClauses fuel token .missing
        else
          let init ← simpleStmt
          match init, ← peekIs .lbrace with
          | .expr _ condition, true =>
              advance
              return .loop token .missing condition .missing (← block fuel)
          | init, _ =>
              expect .semicolon
              loopClauses fuel token init

/-- The rest of a loop with three clauses, from the semicolon after the first one. -/
def loopClauses : Nat → Token → Stmt → ParseM Stmt
  | 0, _, _ => outOfFuel
  | fuel + 1, token, init => do
      advance
      let condition ←
        if (← cur).kind == .semicolon then
          pure Expr.missing
        else
          let condition ← readExpr
          expect .semicolon
          pure condition
      advance
      if (← cur).kind == .lbrace then
        return .loop token init condition .missing (← block fuel)
      else
        let update ← attempt simpleStmt
        expect .lbrace
        return .loop token init condition (update.getD .missing) (← block fuel)

def functionStmt : Nat → ParseM Stmt
  | 0 => outOfFuel
  | fuel + 1 => do
      let token ← cur
      expect .ident
      let name ← curIdent
      expect .lparen
      let params ← readParameters
      let result ← readResult
      expect .lbrace
      let body ← block fuel
      return .func token name (params.map Prod.fst) (params.map Prod.snd)
        (result.map GoType.text) body

/-- A try statement with its clauses. Comments between the clauses are dropped; those after
the last clause are left for whoever lists the statements. -/
def tryStmt : Nat → ParseM Stmt
  | 0 => outOfFuel
  | fuel + 1 => do
      let token ← cur
      expect .lbrace
      let body ← block fuel
      let (catches, comments) ← catchClauses fuel
      if ← peekIs .kwFinally then
        advance
        expect .lbrace
        return .tryCatch token body catches (← block fuel)
      else
        leaveTrailing (comments.map commentStmt)
        return .tryCatch token body catches .missing

/-- The catch clauses that follow, and the comments after the last one. A clause that was
abandoned is left out. -/
def catchClauses : Nat → ParseM (List Stmt × List Token)
  | 0 => outOfFuel
  | fuel + 1 => do
      let comments ← skipComments
      if ← peekIs .kwCatch then
        advance
        let clause ← attempt (catchClause fuel)
        let (clauses, comments) ← catchClauses fuel
        return (clause.toList ++ clauses, comments)
      else
        return ([], comments)

def catchClause : Nat → ParseM Stmt
  | 0 => outOfFuel
  | fuel + 1 => do
      let token ← cur
      if ← peekIs .lparen then
        advance
        expect .ident
        let name ← curIdent
        if ← peekIs .rparen then
          advance
          expect .lbrace
          return .catchClause token name none (← block fuel)
        else
          advance
          let type ← readType
          expect .rparen
          expect .lbrace
          return .catchClause token name (some type.text) (← block fuel)
      else
        expect .lbrace
        return .catchClause token .missing none (← block fuel)

end

/-! Without fuel nothing is read. -/

@[simp]
theorem statement_zero : statement 0 = outOfFuel := by rw [statement]

@[simp]
theorem construct_zero : construct 0 = outOfFuel := by rw [construct]

@[simp]
theorem block_zero : block 0 = outOfFuel := by rw [block]

@[simp]
theorem blockItems_zero : blockItems 0 = outOfFuel := by rw [blockItems]

@[simp]
theorem ifStmt_zero : ifStmt 0 = outOfFuel := by rw [ifStmt]

@[simp]
theorem forStmt_zero : forStmt 0 = outOfFuel := by rw [forStmt]

@[simp]
theorem loopClauses_zero (token : Token) (init : Stmt) :
    loopClauses 0 token init = outOfFuel := by rw [loopClauses]

@[simp]
theorem functionStmt_zero : functionStmt 0 = outOfFuel := by rw [functionStmt]

@[simp]
theorem tryStmt_zero : tryStmt 0 = outOfFuel := by rw [tryStmt]

@[simp]
theorem catchClauses_zero : catchClauses 0 = outOfFuel := by rw [catchClauses]

@[simp]
theorem catchClause_zero : catchClause 0 = outOfFuel := by rw [catchClause]

/-- Enough fuel for the statements that a number of tokens can hold. -/
def stmtFuel (tokens : Nat) : Nat := 8 * tokens + 8

def programItems : Nat → ParseM (List Stmt)
  | 0 => outOfFuel
  | fuel + 1 => do
      if (← cur).kind == .eof then
        return []
      else
        let stmt ← statement (stmtFuel (← tokensLeft))
        let comments ← takeTrailing
        advance
        return stmt.toList ++ comments ++ (← programItems fuel)

def readProgram : ParseM Program := do
  let token ← cur
  return ⟨token, ← programItems ((← tokensLeft) + 1)⟩

def State.init (cursor : Cursor) : State := ⟨cursor, [], []⟩

/-- The outcome of parsing a source: the program or what ended the parse, and the reports
in the order in which they were made. -/
structure Reading where
  result : Except Halt Program
  reports : List Diagnostic

/-- The messages of the reports. -/
def Reading.errors (reading : Reading) : List String := reading.reports.map Diagnostic.message

def readFrom (cursor : Cursor) : Reading :=
  match readProgram (State.init cursor) with
  | .ok program s => ⟨.ok program, s.reports.reverse⟩
  | .error halt s => ⟨.error halt, s.reports.reverse⟩

end Parse

/-- Parses a source text. -/
def parse (source : String) : Parse.Reading :=
  Parse.readFrom (Parse.Cursor.ofLexer (Lexer.ofString source))

end TryGo
