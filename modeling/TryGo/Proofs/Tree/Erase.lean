import TryGo.Tree.Same

/-! Trees without their tokens. Two trees that differ in nothing but tokens become equal when
the tokens are erased, and such trees are the same in the sense of `same`. Of a branch
statement the kind of its token is kept, because it alone tells `break` from `continue`. -/
namespace TryGo

mutual

def Expr.erase : Expr → Expr
  | .missing => .missing
  | .ident _ name => .ident .blank name
  | .int _ value => .int .blank value
  | .float _ value => .float .blank value
  | .str _ value raw => .str .blank value raw
  | .char _ value => .char .blank value
  | .bool _ value => .bool .blank value
  | .nil _ => .nil .blank
  | .unary _ op operand => .unary .blank op operand.erase
  | .binary _ left op right => .binary .blank left.erase op right.erase
  | .call _ callee args => .call .blank callee.erase (Expr.eraseAll args)
  | .select _ left field => .select .blank left.erase field.erase
  | .index _ left position => .index .blank left.erase position.erase
  | .foreign kind form value => .foreign kind form value

def Expr.eraseAll : List Expr → List Expr
  | [] => []
  | e :: es => e.erase :: Expr.eraseAll es

end

theorem Expr.eraseAll_eq_map (es : List Expr) : Expr.eraseAll es = es.map Expr.erase := by
  induction es with
  | nil => rfl
  | cons e es ih => rw [Expr.eraseAll, List.map_cons, ih]

mutual

/-- A statement with every token blank but those of branch statements, of which the kind
stays. -/
def Stmt.erase : Stmt → Stmt
  | .missing => .missing
  | .package _ name => .package .blank name
  | .imports _ paths => .imports .blank paths
  | .decl _ kind name type value => .decl .blank kind name.erase type value.erase
  | .assign _ targets op values => .assign .blank (targets.map Expr.erase) op (values.map Expr.erase)
  | .define _ names values => .define .blank (names.map Expr.erase) (values.map Expr.erase)
  | .ret _ values => .ret .blank (values.map Expr.erase)
  | .expr _ value => .expr .blank value.erase
  | .incr _ target op => .incr .blank target.erase op
  | .branch token => .branch { Token.blank with kind := token.kind }
  | .comment _ text multiline => .comment .blank text multiline
  | .block _ statements => .block .blank (Stmt.eraseAll statements)
  | .ifElse _ condition consequence alternative =>
      .ifElse .blank condition.erase consequence.erase alternative.erase
  | .loop _ init condition update body =>
      .loop .blank init.erase condition.erase update.erase body.erase
  | .func _ name params types result body =>
      .func .blank name.erase (params.map Expr.erase) types result body.erase
  | .catchClause _ name type body => .catchClause .blank name.erase type body.erase
  | .tryCatch _ body catches cleanup =>
      .tryCatch .blank body.erase (Stmt.eraseAll catches) cleanup.erase
  | .throw _ value => .throw .blank value.erase
  | .bare value => .bare value.erase
  | .program _ statements => .program .blank (Stmt.eraseAll statements)

def Stmt.eraseAll : List Stmt → List Stmt
  | [] => []
  | s :: rest => s.erase :: Stmt.eraseAll rest

end

theorem Stmt.eraseAll_eq_map (stmts : List Stmt) : Stmt.eraseAll stmts = stmts.map Stmt.erase := by
  induction stmts with
  | nil => rfl
  | cons s rest ih => rw [Stmt.eraseAll, List.map_cons, ih]

def Program.erase (program : Program) : Program :=
  ⟨.blank, program.statements.map Stmt.erase⟩

mutual

/-- Expressions are the same exactly if they are equal without their tokens. -/
theorem Expr.same_iff : (a b : Expr) → (a.same b = true ↔ a.erase = b.erase)
  | .missing, b => by cases b <;> simp [Expr.same, Expr.erase]
  | .ident _ _, b => by cases b <;> simp [Expr.same, Expr.erase]
  | .int _ _, b => by cases b <;> simp [Expr.same, Expr.erase]
  | .float _ _, b => by cases b <;> simp [Expr.same, Expr.erase]
  | .str _ _ _, b => by cases b <;> simp [Expr.same, Expr.erase]
  | .char _ _, b => by cases b <;> simp [Expr.same, Expr.erase]
  | .bool _ _, b => by cases b <;> simp [Expr.same, Expr.erase]
  | .nil _, b => by cases b <;> simp [Expr.same, Expr.erase]
  | .foreign _ _ _, b => by cases b <;> simp [Expr.same, Expr.erase, and_assoc]
  | .unary _ _ a, b => by
      cases b <;> simp [Expr.same, Expr.erase]
      case unary _ _ b => simp [a.same_iff b]
  | .binary _ left _ right, b => by
      cases b <;> simp [Expr.same, Expr.erase]
      case binary _ left' _ right' => simp [left.same_iff left', right.same_iff right', and_assoc]
  | .call _ callee args, b => by
      cases b <;> simp [Expr.same, Expr.erase]
      case call _ callee' args' => simp [callee.same_iff callee', Expr.sameAll_iff args args']
  | .select _ left field, b => by
      cases b <;> simp [Expr.same, Expr.erase]
      case select _ left' field' => simp [left.same_iff left', field.same_iff field']
  | .index _ left position, b => by
      cases b <;> simp [Expr.same, Expr.erase]
      case index _ left' position' => simp [left.same_iff left', position.same_iff position']

theorem Expr.sameAll_iff :
    (as bs : List Expr) → (Expr.sameAll as bs = true ↔ Expr.eraseAll as = Expr.eraseAll bs)
  | [], bs => by cases bs <;> simp [Expr.sameAll, Expr.eraseAll]
  | a :: as, bs => by
      cases bs with
      | nil => simp [Expr.sameAll, Expr.eraseAll]
      | cons b bs =>
          simp [Expr.sameAll, Expr.eraseAll, a.same_iff b, Expr.sameAll_iff as bs]

end

end TryGo
