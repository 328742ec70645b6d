import TryGo.GoType.Results
import TryGo.Lower.Imports
import TryGo.Lower.State
import TryGo.Text.Space

/-! The lowering of statements to Go. A try becomes a closure that returns an error and is
called at once, a throw becomes a return of a new error, and everything else keeps its form.
A function with a try or a throw in it returns an error as its last result. -/
namespace TryGo.Lower

/-- A statement that fits on one line and may stand in the header of a loop. -/
def simpleCode : Stmt → Go.Code
  | .decl _ kind name type value =>
      .decl kind name.text type (if value.isMissing then none else some value.go)
  | .define _ names values => .define (names.map Expr.go) (values.map Expr.go)
  | .assign _ targets op values => .assign (targets.map Expr.go) op (values.map Expr.go)
  | .incr _ target op => .incr (target.goAt Precedence.call.level) op
  | .expr _ value => .expr value.go
  | s => .unsupported s.kind

/-- The result of a rendering, which becomes a fault if there is none. -/
def rendered {α : Type} : Except RenderError α → LowerM α
  | .ok result => return result
  | .error error => throw (.render error)

/-- Makes sure that some expressions have a Go form. -/
def checkGo (es : List Expr) : LowerM Unit :=
  if Expr.anyLongField es then throw (.render .tooManyDigits) else return ()

/-- Makes sure that some expressions have a debugging form. -/
def checkForms (es : List Expr) : LowerM Unit :=
  if Expr.anyLongInteger es then throw (.render .tooManyDigits) else return ()

/-- The names that stand in the places of names. Each place has to hold a value, but it need
not be a name. -/
def namesOf (es : List Expr) : LowerM (List String) :=
  return (← rendered (es.mapM Expr.heldValue)).filterMap Value.name?

def declaredNames : Stmt → LowerM (List String)
  | .decl _ _ name _ _ => do
      checkForms [name]
      return [name.text]
  | .define _ names _ => namesOf names
  | _ => return []

/-- The expressions that a simple statement writes. -/
def writtenExprs : Stmt → List Expr
  | .decl _ _ _ _ value => [value]
  | .define _ names values => names ++ values
  | .assign _ targets _ values => targets ++ values
  | .incr _ target _ => [target]
  | .expr _ value => [value]
  | _ => []

/-- The code of a simple statement. The names that it declares enter the scope. -/
def simple (s : Stmt) : LowerM Go.Code := do
  declare (← declaredNames s)
  checkGo (writtenExprs s)
  return simpleCode s

/-- The text of a clause in the header of a loop, which is empty when it is missing. -/
def clauseText (s : Stmt) : LowerM String := do
  if s.isMissing then return "" else return (← simple s).text

/-- The header of a loop without its brace. -/
def loopHeader (init : Stmt) (condition : Expr) (update : Stmt) : LowerM String := do
  if init.isMissing && update.isMissing then
    checkGo [condition]
    return if condition.isMissing then "for" else "for " ++ condition.go
  else
    let initText ← clauseText init
    checkGo [condition]
    let conditionText := if condition.isMissing then "" else condition.go
    let updateText ← clauseText update
    let header := "for " ++ initText ++ "; " ++ conditionText ++ "; " ++ updateText
    return String.ofList (Text.trimRight header.toList)

/-- An import, on one line if it has one path. -/
def importLines : List String → LowerM Unit
  | [path] => emit (.importPath path)
  | paths => do
      emit .importOpen
      deeper (paths.forM fun path => emit (.groupedPath path))
      emit .importClose

/-- A return. In an augmented function it carries a nil more. -/
def lowerReturn (values : List Expr) : LowerM Unit := do
  checkGo values
  let frame ← frame?
  let extra := if (frame.map Frame.augmented).getD false then ["nil"] else []
  emit (.ret (values.map Expr.go ++ extra))

/-- A throw: a return of zero values for all results but the last, and of a new error. -/
def lowerThrow (value : Expr) : LowerM Unit := do
  checkGo [value]
  let frame ← frame?
  let results := (frame.map Frame.results).getD []
  emit (.throwReturn (results.dropLast.map zeroValue) value.go)

/-- Whether a statement list ends in a return or a throw. -/
def endsInReturn (statements : List Stmt) : Bool :=
  match statements.getLast? with
  | some (.ret _ _) | some (.throw _ _) => true
  | _ => false

/-- The statements of a node that holds a list of them. A missing one holds none. -/
def statementsOf : Stmt → List Stmt
  | .block _ statements | .program _ statements => statements
  | _ => []

/-- The value that a catch clause binds. The blank name and a value of nothing bind
nothing. -/
def catchBinding (name : Expr) : LowerM (Option Value) := do
  if name.isMissing then return none
  else
    match ← rendered name.heldValue with
    | .nothing => return none
    | value => return if value == .name "_" then none else some value

/-- What stands for the caught error in the test of its type: what the clause binds, or the
blank name if that is void. -/
def catchPattern : Option Value → LowerM String
  | none => return "_"
  | some value => if value.isVoid then return "_" else rendered value.render

/-- The result that a function is given: the declared one, with an error added if the body
needs it. -/
def emittedResult (result : Option String) (body : Stmt) : Option String :=
  if body.needsErrorHandling then some (augmentResult result) else result

/-- The start of a catch clause: the binding of a catch-all, and the use that keeps Go from
refusing a variable that the body leaves alone. -/
def bindCaught (name : Expr) (type : Option String) : LowerM Unit := do
  match ← catchBinding name with
  | none => return ()
  | some value =>
      let binding ← rendered value.render
      if !isTyped type then
        emit (.bindErr binding)
        declare value.name?.toList
      emit (.use binding)

mutual

def lower : Stmt → LowerM Unit
  | .package _ name => emit (.package name)
  | .imports _ paths => importLines paths
  | .func _ name params types result body => do
      let emitted := emittedResult result body
      let augmented := emitted != result
      checkForms [name]
      if augmented then
        record (.augmented name.text
          (if isTyped result then result.getD "" else "(none)") (emitted.getD ""))
      checkForms (params.take types.length)
      emit (.funcOpen (signatureText name params types emitted))
      inFrame ⟨splitResults emitted, augmented⟩ do
        lowerBlock (← namesOf params) body
        if augmented && result.isNone && !endsInReturn (statementsOf body) then
          deeper (emit (.ret ["nil"]))
      emit .close
  | .ret _ values => lowerReturn values
  | .block _ statements => do
      emit .blockOpen
      inBlock [] (lowerAll statements)
      emit .close
  | .ifElse _ condition consequence alternative => do
      checkGo [condition]
      emit (.ifOpen false condition.go)
      lowerBlock [] consequence
      lowerElse alternative
  | .loop _ init condition update body =>
      inScope do
        emit (.forOpen (← loopHeader init condition update))
        lowerBlock [] body
        emit .close
  | .comment _ text multiline => emit (.comment text multiline)
  | .branch token =>
      match token.kind.keyword? with
      | some keyword => emit (.branch keyword)
      | none => throw (.noKeyword token.kind)
  | .tryCatch _ body catches cleanup => do
      let reuse ← isDeclared "err"
      declare ["err"]
      emit (.tryOpen reuse)
      inFrame ⟨[errorType], false⟩ (inBlock [] do
        lowerStatements body
        emit (.ret ["nil"]))
      emit .tryClose
      if catches.isEmpty then
        emit .discardErr
      else
        emit .errCheck
        inBlock [] (lowerCatches false catches)
        emit .close
      lowerStatements cleanup
  | .throw _ value => lowerThrow value
  | s@(.decl _ _ _ _ _) => do emit (← simple s)
  | s@(.define _ _ _) => do emit (← simple s)
  | s@(.assign _ _ _ _) => do emit (← simple s)
  | s@(.incr _ _ _) => do emit (← simple s)
  | s@(.expr _ _) => do emit (← simple s)
  | s => emit (.unsupported s.kind)

def lowerAll : List Stmt → LowerM Unit
  | [] => return ()
  | s :: rest => do
      lower s
      lowerAll rest

/-- Lowers the contents of a block one level deeper, in a scope that starts with some
names. -/
def lowerBlock (names : List String) : Stmt → LowerM Unit
  | .missing => inBlock names (return ())
  | .block _ statements => inBlock names (lowerAll statements)
  | .program _ statements => inBlock names (lowerAll statements)
  | s => inBlock names (throw (.notBlock s.kind))

/-- Lowers the contents of a block into the block that is open. -/
def lowerStatements : Stmt → LowerM Unit
  | .missing => return ()
  | .block _ statements => lowerAll statements
  | .program _ statements => lowerAll statements
  | s => throw (.notBlock s.kind)

/-- Lowers what follows the consequence of a conditional, up to its last brace. -/
def lowerElse : Stmt → LowerM Unit
  | .missing => emit .close
  | .ifElse _ condition consequence alternative => do
      checkGo [condition]
      emit (.ifOpen true condition.go)
      lowerBlock [] consequence
      lowerElse alternative
  | .block _ statements => do
      emit .elseOpen
      inBlock [] (lowerAll statements)
      emit .close
  | .program _ statements => do
      emit .elseOpen
      inBlock [] (lowerAll statements)
      emit .close
  | s => do
      emit .elseOpen
      inBlock [] (throw (.notBlock s.kind))

/-- Lowers catch clauses to the arms of one conditional. `chained` says that an arm is open
already. A clause without a type catches everything and ends the chain; what comes after it
is dropped with a warning. -/
def lowerCatches (chained : Bool) : List Stmt → LowerM Unit
  | [] => if chained then emit .close else return ()
  | .catchClause token name type body :: rest =>
      if isTyped type then do
        emit (.catchOpen chained (← catchPattern (← catchBinding name)) (type.getD ""))
        inBlock [] do
          bindCaught name type
          lowerStatements body
        lowerCatches true rest
      else do
        if chained then
          emit .elseOpen
          inBlock [] do
            bindCaught name type
            lowerStatements body
          emit .close
        else
          bindCaught name type
          lowerStatements body
        if !rest.isEmpty then record (.droppedCatches rest.length token.pos.line)
  | s :: _ => throw (.notCatch s.kind)

end

/-- Whether a blank line separates two top-level statements. A hole counts as the start of
the source. -/
def needsBlankLine (previous current : Stmt) : Bool :=
  match previous with
  | .package _ _ | .imports _ _ | .func _ _ _ _ _ _ => true
  | .missing | .comment _ _ _ => false
  | _ => current.kind == .function

/-- Lowers top-level statements with blank lines between them. -/
def lowerTop (previous : Option Stmt) : List Stmt → LowerM Unit
  | [] => return ()
  | s :: rest => do
      if (previous.map fun p => needsBlankLine p s).getD false then emit .blank
      lower s
      lowerTop (some s) rest

def lowerProgram (program : Program) : LowerM Unit := do
  let missing := missingPackages program
  if !missing.isEmpty then record (.injectedImports missing)
  lowerTop none (withErrorImports program)

end Lower

/-- The outcome of lowering a program: its lines or a fault, and the events in order. -/
structure Lowering where
  result : Except Lower.Fault (List Go.Line)
  events : List Event

/-- Lowers a program to Go. -/
def Program.lower (program : Program) : Lowering :=
  match Lower.lowerProgram program Lower.State.init with
  | .ok () s => ⟨.ok s.lines.reverse, s.events.reverse⟩
  | .error fault s => ⟨.error fault, s.events.reverse⟩

/-- The Go source of a program, or the fault that it has. -/
def Program.goSource (program : Program) : Except Lower.Fault String :=
  program.lower.result.map Go.sourceText

end TryGo
