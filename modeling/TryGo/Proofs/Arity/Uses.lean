import TryGo.Lower.Stmt
import TryGo.Proofs.GoType.Results
import TryGo.Proofs.Tree.Shape

/-! The places of a program where the results of a function count: its heading, the returns and
throws in it, and the returns that lowering adds. Every return and throw belongs to the
innermost function or try body around it. Each use says in which line it has to be written. -/
namespace TryGo

/-! ### Statements that are lowered -/

mutual

/-- Whether the places of bodies hold blocks, or nothing, and those of catch clauses hold such
clauses. Of a node that stands where no statement can stand nothing is asked, because a
placeholder is written for it. -/
def Stmt.Formed : Stmt → Prop
  | .block _ statements => Stmt.AllFormed statements
  | .ifElse _ _ consequence alternative =>
      (consequence.isMissing || consequence.isBlock) = true ∧ consequence.Formed
        ∧ (alternative.isMissing || alternative.isBlock || alternative.isConditional) = true
        ∧ alternative.Formed
  | .loop _ _ _ _ body | .func _ _ _ _ _ body =>
      (body.isMissing || body.isBlock) = true ∧ body.Formed
  | .tryCatch _ body catches cleanup =>
      (body.isMissing || body.isBlock) = true ∧ body.Formed ∧ Stmt.AllClausesFormed catches
        ∧ (cleanup.isMissing || cleanup.isBlock) = true ∧ cleanup.Formed
  | _ => True

def Stmt.AllFormed : List Stmt → Prop
  | [] => True
  | s :: rest => s.Formed ∧ Stmt.AllFormed rest

def Stmt.AllClausesFormed : List Stmt → Prop
  | [] => True
  | .catchClause _ _ _ body :: rest =>
      (body.isMissing || body.isBlock) = true ∧ body.Formed ∧ Stmt.AllClausesFormed rest
  | _ :: _ => False

end

mutual

/-- The statements for which something is written, outer ones before inner ones. Catch clauses
behind a catch-all are dropped, and the clauses of a loop header are no statements there. -/
def Stmt.emitted : Stmt → List Stmt
  | .block token statements => .block token statements :: Stmt.allEmitted statements
  | .ifElse token condition consequence alternative =>
      .ifElse token condition consequence alternative
        :: (consequence.emitted ++ alternative.emitted)
  | .loop token init condition update body =>
      .loop token init condition update body :: body.emitted
  | .func token name params types result body =>
      .func token name params types result body :: body.emitted
  | .tryCatch token body catches cleanup =>
      .tryCatch token body catches cleanup
        :: (body.emitted ++ (Stmt.clausesEmitted catches ++ cleanup.emitted))
  | s => [s]

def Stmt.allEmitted : List Stmt → List Stmt
  | [] => []
  | s :: rest => s.emitted ++ Stmt.allEmitted rest

def Stmt.clausesEmitted : List Stmt → List Stmt
  | .catchClause _ _ type body :: rest =>
      body.emitted ++ (if isTyped type then Stmt.clausesEmitted rest else [])
  | _ => []

end

def Stmt.isTryOrThrow : Stmt → Bool
  | .tryCatch _ _ _ _ | .throw _ _ => true
  | _ => false

def Stmt.raises (s : Stmt) : Bool := s.emitted.any Stmt.isTryOrThrow

theorem Stmt.any_allEmitted (statements : List Stmt) :
    (Stmt.allEmitted statements).any Stmt.isTryOrThrow = statements.any Stmt.raises := by
  induction statements with
  | nil => rfl
  | cons s rest ih => rw [Stmt.allEmitted, List.any_append, ih, List.any_cons, Stmt.raises]

theorem Stmt.raises_block (token : Token) (statements : List Stmt) :
    (Stmt.block token statements).raises = statements.any Stmt.raises := by
  rw [Stmt.raises, Stmt.emitted, List.any_cons, Stmt.any_allEmitted]
  rfl

theorem Stmt.raises_ifElse (token : Token) (condition : Expr) (consequence alternative : Stmt) :
    (Stmt.ifElse token condition consequence alternative).raises =
      (consequence.raises || alternative.raises) := by
  rw [Stmt.raises, Stmt.emitted, List.any_cons, List.any_append]
  rfl

theorem Stmt.raises_loop (token : Token) (init : Stmt) (condition : Expr) (update body : Stmt) :
    (Stmt.loop token init condition update body).raises = body.raises := by
  rw [Stmt.raises, Stmt.emitted, List.any_cons]
  rfl

theorem Stmt.raises_func (token : Token) (name : Expr) (params : List Expr)
    (types : List (Option String)) (result : Option String) (body : Stmt) :
    (Stmt.func token name params types result body).raises = body.raises := by
  rw [Stmt.raises, Stmt.emitted, List.any_cons]
  rfl

mutual

/-- The search for a try or a throw finds one exactly if one is written. -/
theorem Stmt.needsErrorHandling_eq : (s : Stmt) → s.Formed → s.needsErrorHandling = s.raises
  | .tryCatch _ _ _ _, _ | .throw _ _, _ => rfl
  | .func _ _ _ _ _ body, hFormed => by
      rw [Stmt.needsErrorHandling, Stmt.raises_func, body.needsErrorHandling_eq hFormed.2]
  | .block _ statements, hFormed => by
      rw [Stmt.needsErrorHandling, Stmt.raises_block,
        Stmt.anyNeedsErrorHandling_eq statements hFormed]
  | .ifElse _ _ consequence alternative, hFormed => by
      rw [Stmt.needsErrorHandling, Stmt.raises_ifElse,
        consequence.needsErrorHandling_eq hFormed.2.1,
        alternative.needsErrorHandling_eq hFormed.2.2.2]
  | .loop _ _ _ _ body, hFormed => by
      rw [Stmt.needsErrorHandling, Stmt.raises_loop, body.needsErrorHandling_eq hFormed.2]
  | .missing, _ | .package _ _, _ | .imports _ _, _ | .decl _ _ _ _ _, _ | .assign _ _ _ _, _
  | .define _ _ _, _ | .ret _ _, _ | .expr _ _, _ | .incr _ _ _, _ | .branch _, _
  | .comment _ _ _, _ | .catchClause _ _ _ _, _ | .bare _, _ | .program _ _, _ => rfl

theorem Stmt.anyNeedsErrorHandling_eq : (statements : List Stmt) → Stmt.AllFormed statements →
    Stmt.anyNeedsErrorHandling statements = statements.any Stmt.raises
  | [], _ => rfl
  | s :: rest, hFormed => by
      rw [Stmt.anyNeedsErrorHandling, List.any_cons, s.needsErrorHandling_eq hFormed.1,
        Stmt.anyNeedsErrorHandling_eq rest hFormed.2]

end

/-! ### The results of a function -/

/-- The results that a function returns, given those that it declares: with an error behind them
if a try or a throw is written for its body. -/
def emittedResults (results : List String) (body : Stmt) : List String :=
  if body.raises then withError results else results

theorem declares_emittedResult {result : Option String} {results : List String} {body : Stmt}
    (hDeclares : DeclaresResults result results) (hFormed : body.Formed) :
    DeclaresResults (Lower.emittedResult result body) (emittedResults results body) := by
  rw [Lower.emittedResult, body.needsErrorHandling_eq hFormed, emittedResults]
  split
  · exact declares_augmentResult hDeclares
  · exact hDeclares

theorem emittedResult_eq_iff {result : Option String} {results : List String} {body : Stmt}
    (hDeclares : DeclaresResults result results) (hFormed : body.Formed) :
    Lower.emittedResult result body = result ↔ emittedResults results body = results := by
  rw [Lower.emittedResult, body.needsErrorHandling_eq hFormed, emittedResults]
  split
  · exact augmentResult_eq_iff hDeclares
  · exact ⟨fun _ => rfl, fun _ => rfl⟩

/-! ### Uses of results -/

/-- What a return or a throw returns from. -/
inductive Enclosure where
  | outside
  | function (result : Option String) (body : Stmt)
  | tryBody

/-- A place where the results of a function or of a try body count. A `closing` return is one
that stands in no source: it ends a try body, or a function that has gained its only
result. -/
inductive ResultUse where
  | heading (name : Expr) (params : List Expr) (types : List (Option String))
      (result : Option String) (body : Stmt)
  | ret (enclosure : Enclosure) (values : List Expr)
  | throw (enclosure : Enclosure) (value : Expr)
  | closing

/-- Whether a function gains its only result and does not end in a return or a throw. -/
def fallsThrough (result : Option String) (body : Stmt) : Bool :=
  body.raises && result.isNone && !Lower.endsInReturn (Lower.statementsOf body)

mutual

/-- The uses in what is written for a statement, in their order. Catch clauses and the cleanup
belong to what is around the try, and only its body is a try body. -/
def Stmt.resultUses (enclosure : Enclosure) : Stmt → List ResultUse
  | .func _ name params types result body =>
      .heading name params types result body
        :: (body.resultUses (.function result body)
          ++ (if fallsThrough result body then [.closing] else []))
  | .ret _ values => [.ret enclosure values]
  | .throw _ value => [.throw enclosure value]
  | .block _ statements => Stmt.allResultUses enclosure statements
  | .ifElse _ _ consequence alternative =>
      consequence.resultUses enclosure ++ alternative.resultUses enclosure
  | .loop _ _ _ _ body => body.resultUses enclosure
  | .tryCatch _ body catches cleanup =>
      body.resultUses .tryBody
        ++ .closing :: (Stmt.clausesResultUses enclosure catches ++ cleanup.resultUses enclosure)
  | _ => []

def Stmt.allResultUses (enclosure : Enclosure) : List Stmt → List ResultUse
  | [] => []
  | s :: rest => s.resultUses enclosure ++ Stmt.allResultUses enclosure rest

def Stmt.clausesResultUses (enclosure : Enclosure) : List Stmt → List ResultUse
  | .catchClause _ _ type body :: rest =>
      body.resultUses enclosure
        ++ (if isTyped type then Stmt.clausesResultUses enclosure rest else [])
  | _ => []

end

/-- The uses in a program. At top level there is nothing to return from. -/
def Program.resultUses (program : Program) : List ResultUse :=
  Stmt.allResultUses .outside program.statements

/-- The line in which a use has to be written. A function with documented results has those in its
heading that it returns, a return in it has its own values and a nil if an error was added,
and a throw has a value for each result. A try body has one result, and a throw at top level
is written like one in a try body. -/
def ResultUse.WrittenAs : ResultUse → String → Prop
  | .heading name params types result body, line =>
      ∀ results, DeclaresResults result results →
        ∃ emitted, DeclaresResults emitted (emittedResults results body)
          ∧ line = (Go.Code.funcOpen (signatureText name params types emitted)).text
  | .ret (.function result body) values, line =>
      ∀ results, DeclaresResults result results →
        line = Go.Code.returnText (values.map Expr.go
          ++ if emittedResults results body = results then [] else ["nil"])
  | .ret _ values, line => line = Go.Code.returnText (values.map Expr.go)
  | .throw (.function result body) value, line =>
      ∀ results, DeclaresResults result results →
        ∃ values, values.length = (emittedResults results body).length
          ∧ values = (emittedResults results body).dropLast.map zeroValue
            ++ [Go.Code.thrownError value.go]
          ∧ line = Go.Code.returnText values
  | .throw _ value, line => line = Go.Code.returnText [Go.Code.thrownError value.go]
  | .closing, line => line = Go.Code.returnText ["nil"]

/-- Whether a line is the heading of a function or a return. -/
def Go.Code.usesResults : Go.Code → Bool
  | .funcOpen _ | .ret _ | .throwReturn _ _ => true
  | _ => false

end TryGo
