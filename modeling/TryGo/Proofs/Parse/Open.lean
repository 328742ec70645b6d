import TryGo.Proofs.Parse.Keep

/-! The readers of statements, written once more with two of their steps open: the one by which a
list of statements takes its next one, and the one that reads a simple statement. With the steps as
they are the readers are the parser. What the parser comes to is found out by putting something
else in their place. -/
namespace TryGo.Parse

/-- The steps that are left open in the readers of statements. -/
structure Holes where
  take : ParseM (Option Stmt) → ParseM (Option Stmt)
  simple : ParseM Stmt

def Holes.parser : Holes := ⟨id, simpleStmt⟩

/-- The readers of statements that call each other. -/
structure Readers where
  statement : ParseM (Option Stmt)
  construct : ParseM Stmt
  block : ParseM Stmt
  blockItems : ParseM (List Stmt)
  ifStmt : ParseM Stmt
  forStmt : ParseM Stmt
  loopClauses : Token → Stmt → ParseM Stmt
  functionStmt : ParseM Stmt
  tryStmt : ParseM Stmt
  catchClauses : ParseM (List Stmt × List Token)
  catchClause : ParseM Stmt

namespace Readers

def parser (fuel : Nat) : Readers where
  statement := Parse.statement fuel
  construct := Parse.construct fuel
  block := Parse.block fuel
  blockItems := Parse.blockItems fuel
  ifStmt := Parse.ifStmt fuel
  forStmt := Parse.forStmt fuel
  loopClauses := Parse.loopClauses fuel
  functionStmt := Parse.functionStmt fuel
  tryStmt := Parse.tryStmt fuel
  catchClauses := Parse.catchClauses fuel
  catchClause := Parse.catchClause fuel

def spent : Readers where
  statement := outOfFuel
  construct := outOfFuel
  block := outOfFuel
  blockItems := outOfFuel
  ifStmt := outOfFuel
  forStmt := outOfFuel
  loopClauses := fun _ _ => outOfFuel
  functionStmt := outOfFuel
  tryStmt := outOfFuel
  catchClauses := outOfFuel
  catchClause := outOfFuel

/-- The readers with one more unit of fuel. A list of statements takes the next one by one of the
open steps. The other one reads simple statements, which stand alone, at the start of a loop and at
the end of its header. -/
def next (holes : Holes) (r : Readers) : Readers where
  statement := do
    let token ← cur
    if token.kind == .semicolon then
      return none
    else
      let result ← attempt r.construct
      skipSemicolon
      return result
  construct := do
    let token ← cur
    match token.kind with
    | .kwPackage => packageStmt
    | .kwImport => importStmt
    | .kwVar => declStmt .var
    | .kwConst => declStmt .const
    | .kwFunc => r.functionStmt
    | .kwReturn => returnStmt
    | .kwIf => r.ifStmt
    | .kwFor => r.forStmt
    | .comment | .blockComment => return commentStmt token
    | .kwTry => r.tryStmt
    | .kwThrow => throwStmt
    | .kwBreak | .kwContinue => return .branch token
    | .lbrace => r.block
    | _ => holes.simple
  block := do
    let token ← cur
    advance
    return .block token (← r.blockItems)
  blockItems := do
    let kind := (← cur).kind
    if kind == .rbrace then
      return []
    else if kind == .eof then
      report (.unexpected .rbrace .eof)
      return []
    else
      let stmt ← holes.take r.statement
      let comments ← takeTrailing
      advance
      return stmt.toList ++ comments ++ (← r.blockItems)
  ifStmt := do
    let token ← cur
    advance
    let condition ← readExpr
    expect .lbrace
    let consequence ← r.block
    if ← peekIs .kwElse then
      advance
      if ← peekIs .kwIf then
        advance
        return .ifElse token condition consequence (← r.ifStmt)
      else
        expect .lbrace
        return .ifElse token condition consequence (← r.block)
    else
      return .ifElse token condition consequence .missing
  forStmt := do
    let token ← cur
    if ← peekIs .lbrace then
      advance
      return .loop token .missing .missing .missing (← r.block)
    else
      advance
      if (← cur).kind == .semicolon then
        r.loopClauses token .missing
      else
        let init ← holes.simple
        match init, ← peekIs .lbrace with
        | .expr _ condition, true =>
            advance
            return .loop token .missing condition .missing (← r.block)
        | init, _ =>
            expect .semicolon
            r.loopClauses token init
  loopClauses token init := do
    advance
    let condition ← loopCondition
    advance
    if (← cur).kind == .lbrace then
      return .loop token init condition .missing (← r.block)
    else
      let update ← attempt holes.simple
      expect .lbrace
      return .loop token init condition (update.getD .missing) (← r.block)
  functionStmt := do
    let token ← cur
    expect .ident
    let name ← curIdent
    expect .lparen
    let params ← readParameters
    let result ← readResult
    expect .lbrace
    let body ← r.block
    return .func token name (params.map Prod.fst) (params.map Prod.snd)
      (result.map GoType.text) body
  tryStmt := do
    let token ← cur
    expect .lbrace
    let body ← r.block
    let (catches, comments) ← r.catchClauses
    if ← peekIs .kwFinally then
      advance
      expect .lbrace
      return .tryCatch token body catches (← r.block)
    else
      leaveTrailing (comments.map commentStmt)
      return .tryCatch token body catches .missing
  catchClauses := do
    let comments ← skipComments
    if ← peekIs .kwCatch then
      advance
      let clause ← attempt r.catchClause
      let (clauses, comments) ← r.catchClauses
      return (clause.toList ++ clauses, comments)
    else
      return ([], comments)
  catchClause := do
    let token ← cur
    if ← peekIs .lparen then
      advance
      expect .ident
      let name ← curIdent
      if ← peekIs .rparen then
        advance
        expect .lbrace
        return .catchClause token name none (← r.block)
      else
        advance
        let type ← readType
        expect .rparen
        expect .lbrace
        return .catchClause token name (some type.text) (← r.block)
    else
      expect .lbrace
      return .catchClause token .missing none (← r.block)

end Readers

def readers (holes : Holes) : Nat → Readers
  | 0 => .spent
  | fuel + 1 => (readers holes fuel).next holes

/-- The statements up to the end of the source, read with open steps. -/
def programItemsBy (holes : Holes) : Nat → ParseM (List Stmt)
  | 0 => outOfFuel
  | fuel + 1 => do
      if (← cur).kind == .eof then
        return []
      else
        let stmt ← holes.take (readers holes (stmtFuel (← tokensLeft))).statement
        let comments ← takeTrailing
        advance
        return stmt.toList ++ comments ++ (← programItemsBy holes fuel)

/-- Everything up to the end of the source, read with open steps. -/
def readProgramBy (holes : Holes) : ParseM Program := do
  let token ← cur
  return ⟨token, ← programItemsBy holes ((← tokensLeft) + 1)⟩

/-- With the steps of the parser the open readers are those of the parser. -/
theorem readers_parserHoles (fuel : Nat) : readers .parser fuel = .parser fuel := by
  induction fuel with
  | zero =>
      rw [readers, Readers.spent, Readers.parser, statement, construct, block, blockItems, ifStmt,
        forStmt, functionStmt, tryStmt, catchClauses, catchClause]
      rfl
  | succ fuel ih =>
      rw [readers, ih, Readers.next, Readers.parser, Readers.mk.injEq]
      refine ⟨(statement_succ fuel).symm, (construct.eq_2 fuel).symm, (block.eq_2 fuel).symm,
        (blockItems.eq_2 fuel).symm, (ifStmt.eq_2 fuel).symm, (forStmt.eq_2 fuel).symm, ?_,
        (functionStmt.eq_2 fuel).symm, (tryStmt.eq_2 fuel).symm, (catchClauses.eq_2 fuel).symm,
        (catchClause.eq_2 fuel).symm⟩
      funext token init
      exact (loopClauses_succ fuel token init).symm

theorem programItemsBy_parserHoles (fuel : Nat) :
    programItemsBy .parser fuel = programItems fuel := by
  induction fuel with
  | zero => rfl
  | succ fuel ih =>
      rw [programItemsBy, programItems, ih]
      simp only [readers_parserHoles]
      rfl

/-- With the steps of the parser the open reading of a program is the parser's. -/
theorem readProgramBy_parserHoles : readProgramBy .parser = readProgram := by
  simp only [readProgramBy, readProgram, programItemsBy_parserHoles]

end TryGo.Parse
