import TryGo.Tree.Basic

/-! Two questions about a tree that decide how it is lowered: whether a function has to
return an error, and whether an error is ever constructed. -/
namespace TryGo

mutual

/-- Whether a try or a throw stands in a node. Function bodies, blocks, both branches of a
conditional and loop bodies are searched. -/
def Stmt.needsErrorHandling : Stmt → Bool
  | .tryCatch _ _ _ _ => true
  | .throw _ _ => true
  | .func _ _ _ _ _ body => body.needsErrorHandling
  | .block _ statements => Stmt.anyNeedsErrorHandling statements
  | .ifElse _ _ consequence alternative =>
      consequence.needsErrorHandling || alternative.needsErrorHandling
  | .loop _ _ _ _ body => body.needsErrorHandling
  | _ => false

def Stmt.anyNeedsErrorHandling : List Stmt → Bool
  | [] => false
  | s :: rest => s.needsErrorHandling || Stmt.anyNeedsErrorHandling rest

end

mutual

/-- Whether a throw stands anywhere below a node. The clauses of a loop header are not
searched; what parsing puts there holds no statements. -/
def Stmt.containsThrow : Stmt → Bool
  | .throw _ _ => true
  | .program _ statements => Stmt.anyContainsThrow statements
  | .block _ statements => Stmt.anyContainsThrow statements
  | .func _ _ _ _ _ body => body.containsThrow
  | .loop _ _ _ _ body => body.containsThrow
  | .catchClause _ _ _ body => body.containsThrow
  | .ifElse _ _ consequence alternative =>
      consequence.containsThrow || alternative.containsThrow
  | .tryCatch _ body catches cleanup =>
      body.containsThrow || Stmt.anyContainsThrow catches || cleanup.containsThrow
  | _ => false

def Stmt.anyContainsThrow : List Stmt → Bool
  | [] => false
  | s :: rest => s.containsThrow || Stmt.anyContainsThrow rest

end

def Program.containsThrow (program : Program) : Bool := program.toStmt.containsThrow

end TryGo
