import TryGo.Tree.Basic

/-! Equality of trees up to tokens. Two trees are the same when they have the same shape and
the same contents; where a node stood and how a number was spelled does not count. A branch
statement has no contents of its own, so `break` and `continue` are the same. -/
namespace TryGo

mutual

/-- Whether two expressions are the same up to tokens. -/
def Expr.same : Expr → Expr → Bool
  | .missing, .missing => true
  | .ident _ a, .ident _ b => a == b
  | .int _ a, .int _ b => a == b
  | .float _ a, .float _ b => a == b
  | .str _ a rawA, .str _ b rawB => a == b && rawA == rawB
  | .char _ a, .char _ b => a == b
  | .bool _ a, .bool _ b => a == b
  | .nil _, .nil _ => true
  | .unary _ opA a, .unary _ opB b => opA == opB && a.same b
  | .binary _ leftA opA rightA, .binary _ leftB opB rightB =>
      leftA.same leftB && opA == opB && rightA.same rightB
  | .call _ a argsA, .call _ b argsB => a.same b && Expr.sameAll argsA argsB
  | .select _ a fieldA, .select _ b fieldB => a.same b && fieldA.same fieldB
  | .index _ a positionA, .index _ b positionB => a.same b && positionA.same positionB
  | .foreign kindA formA a, .foreign kindB formB b => kindA == kindB && formA == formB && a == b
  | _, _ => false

def Expr.sameAll : List Expr → List Expr → Bool
  | [], [] => true
  | a :: as, b :: bs => a.same b && Expr.sameAll as bs
  | _, _ => false

end

mutual

def Stmt.same : Stmt → Stmt → Bool
  | .missing, .missing => true
  | .package _ a, .package _ b => a == b
  | .imports _ a, .imports _ b => a == b
  | .decl _ kindA nameA typeA a, .decl _ kindB nameB typeB b =>
      kindA == kindB && nameA.same nameB && typeA == typeB && a.same b
  | .assign _ targetsA opA a, .assign _ targetsB opB b =>
      Expr.sameAll targetsA targetsB && opA == opB && Expr.sameAll a b
  | .define _ namesA a, .define _ namesB b => Expr.sameAll namesA namesB && Expr.sameAll a b
  | .ret _ a, .ret _ b => Expr.sameAll a b
  | .expr _ a, .expr _ b => a.same b
  | .incr _ a opA, .incr _ b opB => a.same b && opA == opB
  | .branch _, .branch _ => true
  | .comment _ a multilineA, .comment _ b multilineB => a == b && multilineA == multilineB
  | .block _ a, .block _ b => Stmt.sameAll a b
  | .ifElse _ condA a elseA, .ifElse _ condB b elseB =>
      condA.same condB && a.same b && elseA.same elseB
  | .loop _ initA condA updateA a, .loop _ initB condB updateB b =>
      initA.same initB && condA.same condB && updateA.same updateB && a.same b
  | .func _ nameA paramsA typesA resultA a, .func _ nameB paramsB typesB resultB b =>
      nameA.same nameB && Expr.sameAll paramsA paramsB && typesA == typesB
        && resultA == resultB && a.same b
  | .catchClause _ nameA typeA a, .catchClause _ nameB typeB b =>
      nameA.same nameB && typeA == typeB && a.same b
  | .tryCatch _ a catchesA cleanupA, .tryCatch _ b catchesB cleanupB =>
      a.same b && Stmt.sameAll catchesA catchesB && cleanupA.same cleanupB
  | .throw _ a, .throw _ b => a.same b
  | .bare a, .bare b => a.same b
  | .program _ a, .program _ b => Stmt.sameAll a b
  | _, _ => false

def Stmt.sameAll : List Stmt → List Stmt → Bool
  | [], [] => true
  | a :: as, b :: bs => a.same b && Stmt.sameAll as bs
  | _, _ => false

end

def Program.same (a b : Program) : Bool := Stmt.sameAll a.statements b.statements

end TryGo
