import TryGo.Tree.Basic

/-! The walk through a tree: every node before its children, and the children in the order
of their fields. Holes and plain texts are passed over. The walk can be told to stop at
nodes of certain kinds, which are then reported without their children. -/
namespace TryGo

/-- One step of a walk. -/
inductive Visit where
  | stop (kind : NodeKind)
  | enter (kind : NodeKind) (literal : String)
deriving DecidableEq

/-- Reports a node, followed by the walk through its children unless it is a stop. -/
def visitNode (stops : List NodeKind) (kind : NodeKind) (token : Token)
    (children : List Visit) : List Visit :=
  if stops.contains kind then [.stop kind] else .enter kind token.literal :: children

mutual

/-- The walk through an expression. -/
def Expr.walk (stops : List NodeKind) : Expr → List Visit
  | .missing => []
  | .ident token _ => visitNode stops .identifier token []
  | .int token _ => visitNode stops .integer token []
  | .float token _ => visitNode stops .float token []
  | .str token _ _ => visitNode stops .string token []
  | .char token _ => visitNode stops .char token []
  | .bool token _ => visitNode stops .boolean token []
  | .nil token => visitNode stops .nil token []
  | .unary token _ operand => visitNode stops .unary token (operand.walk stops)
  | .binary token left _ right =>
      visitNode stops .binary token (left.walk stops ++ right.walk stops)
  | .call token callee args =>
      visitNode stops .call token (callee.walk stops ++ Expr.walkAll stops args)
  | .select token left field =>
      visitNode stops .select token (left.walk stops ++ field.walk stops)
  | .index token left position =>
      visitNode stops .index token (left.walk stops ++ position.walk stops)
  | .foreign kind _ _ => visitNode stops kind Token.blank []

def Expr.walkAll (stops : List NodeKind) : List Expr → List Visit
  | [] => []
  | e :: es => e.walk stops ++ Expr.walkAll stops es

end

mutual

def Stmt.walk (stops : List NodeKind) : Stmt → List Visit
  | .missing => []
  | .package token _ => visitNode stops .package token []
  | .imports token _ => visitNode stops .imports token []
  | .decl token .var name _ value =>
      visitNode stops .varDecl token (name.walk stops ++ value.walk stops)
  | .decl token .const name _ value =>
      visitNode stops .constDecl token (name.walk stops ++ value.walk stops)
  | .assign token targets _ values =>
      visitNode stops .assign token (Expr.walkAll stops targets ++ Expr.walkAll stops values)
  | .define token names values =>
      visitNode stops .define token
        (Expr.walkAll stops names ++ Expr.walkAll stops values)
  | .ret token values => visitNode stops .ret token (Expr.walkAll stops values)
  | .expr token value => visitNode stops .expression token (value.walk stops)
  | .incr token target _ => visitNode stops .increment token (target.walk stops)
  | .branch token => visitNode stops .branch token []
  | .comment token _ _ => visitNode stops .comment token []
  | .block token statements => visitNode stops .block token (Stmt.walkAll stops statements)
  | .ifElse token condition consequence alternative =>
      visitNode stops .conditional token
        (condition.walk stops ++ consequence.walk stops ++ alternative.walk stops)
  | .loop token init condition update body =>
      visitNode stops .loop token
        (init.walk stops ++ condition.walk stops ++ update.walk stops ++ body.walk stops)
  | .func token name params _ _ body =>
      visitNode stops .function token
        (name.walk stops ++ Expr.walkAll stops params ++ body.walk stops)
  | .catchClause token name _ body =>
      visitNode stops .catchClause token (name.walk stops ++ body.walk stops)
  | .tryCatch token body catches cleanup =>
      visitNode stops .tryStmt token
        (body.walk stops ++ Stmt.walkAll stops catches ++ cleanup.walk stops)
  | .throw token value => visitNode stops .throwStmt token (value.walk stops)
  | .bare value => value.walk stops
  | .program token statements =>
      visitNode stops .program token (Stmt.walkAll stops statements)

def Stmt.walkAll (stops : List NodeKind) : List Stmt → List Visit
  | [] => []
  | s :: rest => s.walk stops ++ Stmt.walkAll stops rest

end

def Program.walk (stops : List NodeKind) (program : Program) : List Visit :=
  program.toStmt.walk stops

end TryGo
