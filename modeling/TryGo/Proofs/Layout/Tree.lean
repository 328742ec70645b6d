import TryGo.Lower.Imports
import TryGo.Proofs.Go.Expr
import TryGo.Proofs.Token.Spelling

/-! Trees without positions. The position of every token is set to the start of a source, and
kinds and literals stay. Nothing that is printed or asked of a tree depends on what is
forgotten here. -/
namespace TryGo

def Token.unplaced (token : Token) : Token := { token with pos := Position.start }

mutual

def Expr.unplaced : Expr → Expr
  | .missing => .missing
  | .ident token name => .ident token.unplaced name
  | .int token value => .int token.unplaced value
  | .float token value => .float token.unplaced value
  | .str token value raw => .str token.unplaced value raw
  | .char token value => .char token.unplaced value
  | .bool token value => .bool token.unplaced value
  | .nil token => .nil token.unplaced
  | .unary token op operand => .unary token.unplaced op operand.unplaced
  | .binary token left op right => .binary token.unplaced left.unplaced op right.unplaced
  | .call token callee args => .call token.unplaced callee.unplaced (Expr.allUnplaced args)
  | .select token left field => .select token.unplaced left.unplaced field.unplaced
  | .index token left position => .index token.unplaced left.unplaced position.unplaced
  | .foreign kind form value => .foreign kind form value

def Expr.allUnplaced : List Expr → List Expr
  | [] => []
  | e :: es => e.unplaced :: Expr.allUnplaced es

end

theorem Expr.allUnplaced_eq_map (es : List Expr) : Expr.allUnplaced es = es.map Expr.unplaced := by
  induction es with
  | nil => rfl
  | cons e es ih => rw [Expr.allUnplaced, List.map_cons, ih]

mutual

def Stmt.unplaced : Stmt → Stmt
  | .missing => .missing
  | .package token name => .package token.unplaced name
  | .imports token paths => .imports token.unplaced paths
  | .decl token kind name type value =>
      .decl token.unplaced kind name.unplaced type value.unplaced
  | .assign token targets op values =>
      .assign token.unplaced (targets.map Expr.unplaced) op (values.map Expr.unplaced)
  | .define token names values =>
      .define token.unplaced (names.map Expr.unplaced) (values.map Expr.unplaced)
  | .ret token values => .ret token.unplaced (values.map Expr.unplaced)
  | .expr token value => .expr token.unplaced value.unplaced
  | .incr token target op => .incr token.unplaced target.unplaced op
  | .branch token => .branch token.unplaced
  | .comment token text multiline => .comment token.unplaced text multiline
  | .block token statements => .block token.unplaced (Stmt.allUnplaced statements)
  | .ifElse token condition consequence alternative =>
      .ifElse token.unplaced condition.unplaced consequence.unplaced alternative.unplaced
  | .loop token init condition update body =>
      .loop token.unplaced init.unplaced condition.unplaced update.unplaced body.unplaced
  | .func token name params types result body =>
      .func token.unplaced name.unplaced (params.map Expr.unplaced) types result body.unplaced
  | .catchClause token name type body =>
      .catchClause token.unplaced name.unplaced type body.unplaced
  | .tryCatch token body catches cleanup =>
      .tryCatch token.unplaced body.unplaced (Stmt.allUnplaced catches) cleanup.unplaced
  | .throw token value => .throw token.unplaced value.unplaced
  | .bare value => .bare value.unplaced
  | .program token statements => .program token.unplaced (Stmt.allUnplaced statements)

def Stmt.allUnplaced : List Stmt → List Stmt
  | [] => []
  | s :: rest => s.unplaced :: Stmt.allUnplaced rest

end

theorem Stmt.allUnplaced_eq_map (statements : List Stmt) :
    Stmt.allUnplaced statements = statements.map Stmt.unplaced := by
  induction statements with
  | nil => rfl
  | cons s rest ih => rw [Stmt.allUnplaced, List.map_cons, ih]

/-- A program with every token at the start of a source. -/
def Program.unplaced (program : Program) : Program :=
  ⟨program.token.unplaced, Stmt.allUnplaced program.statements⟩

/-! ### Printing without positions -/

namespace Expr

@[simp] theorem isMissing_unplaced (e : Expr) : e.unplaced.isMissing = e.isMissing := by
  cases e <;> rfl

@[simp] theorem isIdent_unplaced (e : Expr) : e.unplaced.isIdent = e.isIdent := by
  cases e <;> rfl

@[simp] theorem isUnary_unplaced (e : Expr) : e.unplaced.isUnary = e.isUnary := by
  cases e <;> rfl

@[simp] theorem kind_unplaced (e : Expr) : e.unplaced.kind = e.kind := by
  cases e <;> rfl

@[simp] theorem goLevel_unplaced (e : Expr) : e.unplaced.goLevel = e.goLevel := by
  cases e <;> rfl

@[simp] theorem value?_unplaced (e : Expr) : e.unplaced.value? = e.value? := by
  cases e <;> rfl

@[simp] theorem heldValue_unplaced (e : Expr) : e.unplaced.heldValue = e.heldValue := by
  rw [heldValue, heldValue, value?_unplaced, kind_unplaced]

mutual

/-- The debugging form shows no position. -/
@[simp] theorem text_unplaced : (e : Expr) → e.unplaced.text = e.text
  | .missing | .ident _ _ | .int _ _ | .float _ _ | .str _ _ _ | .char _ _ | .bool _ _ | .nil _
  | .foreign _ _ _ => rfl
  | .unary _ _ operand => by rw [unplaced, text, operand.text_unplaced, text]
  | .binary _ left _ right => by
      rw [unplaced, text, left.text_unplaced, right.text_unplaced, text]
  | .call _ callee args => by
      rw [unplaced, text, callee.text_unplaced, texts_unplaced args, text]
  | .select _ left field => by
      rw [unplaced, text, left.text_unplaced, field.text_unplaced, text]
  | .index _ left position => by
      rw [unplaced, text, left.text_unplaced, position.text_unplaced, text]

theorem texts_unplaced : (es : List Expr) → texts (allUnplaced es) = texts es
  | [] => rfl
  | e :: es => by rw [allUnplaced, texts, e.text_unplaced, texts_unplaced es, texts]

end

mutual

@[simp] theorem hasLongInteger_unplaced : (e : Expr) → e.unplaced.hasLongInteger = e.hasLongInteger
  | .missing | .ident _ _ | .int _ _ | .float _ _ | .str _ _ _ | .char _ _ | .bool _ _ | .nil _
  | .foreign _ _ _ => rfl
  | .unary _ _ operand => operand.hasLongInteger_unplaced
  | .binary _ left _ right => by
      rw [unplaced, hasLongInteger, left.hasLongInteger_unplaced, right.hasLongInteger_unplaced,
        hasLongInteger]
  | .call _ callee args => by
      rw [unplaced, hasLongInteger, callee.hasLongInteger_unplaced, anyLongInteger_allUnplaced args,
        hasLongInteger]
  | .select _ left field => by
      rw [unplaced, hasLongInteger, left.hasLongInteger_unplaced, field.hasLongInteger_unplaced,
        hasLongInteger]
  | .index _ left position => by
      rw [unplaced, hasLongInteger, left.hasLongInteger_unplaced, position.hasLongInteger_unplaced,
        hasLongInteger]

theorem anyLongInteger_allUnplaced : (es : List Expr) →
    anyLongInteger (allUnplaced es) = anyLongInteger es
  | [] => rfl
  | e :: es => by
      rw [allUnplaced, anyLongInteger, e.hasLongInteger_unplaced, anyLongInteger_allUnplaced es,
        anyLongInteger]

end

mutual

@[simp] theorem hasLongField_unplaced : (e : Expr) → e.unplaced.hasLongField = e.hasLongField
  | .missing | .ident _ _ | .int _ _ | .float _ _ | .str _ _ _ | .char _ _ | .bool _ _ | .nil _
  | .foreign _ _ _ => rfl
  | .unary _ _ operand => operand.hasLongField_unplaced
  | .binary _ left _ right => by
      rw [unplaced, hasLongField, left.hasLongField_unplaced, right.hasLongField_unplaced,
        hasLongField]
  | .call _ callee args => by
      rw [unplaced, hasLongField, callee.hasLongField_unplaced, anyLongField_allUnplaced args,
        hasLongField]
  | .select _ left field => by
      rw [unplaced, hasLongField, left.hasLongField_unplaced, field.hasLongInteger_unplaced,
        hasLongField]
  | .index _ left position => by
      rw [unplaced, hasLongField, left.hasLongField_unplaced, position.hasLongField_unplaced,
        hasLongField]

theorem anyLongField_allUnplaced : (es : List Expr) →
    anyLongField (allUnplaced es) = anyLongField es
  | [] => rfl
  | e :: es => by
      rw [allUnplaced, anyLongField, e.hasLongField_unplaced, anyLongField_allUnplaced es,
        anyLongField]

end

mutual

/-- The Go form shows no position. -/
@[simp] theorem goText_unplaced : (e : Expr) → e.unplaced.goText = e.goText
  | .missing | .ident _ _ | .int _ _ | .float _ _ | .str _ _ _ | .char _ _ | .bool _ _ | .nil _
  | .foreign _ _ _ => rfl
  | .unary _ _ operand => by
      rw [unplaced, goText, operand.goText_unplaced, needsParensInUnary, isUnary_unplaced,
        goLevel_unplaced, ← needsParensInUnary, goText]
  | .binary _ left _ right => by
      rw [unplaced, goText, left.goText_unplaced, right.goText_unplaced, goLevel_unplaced,
        goLevel_unplaced, goText]
  | .call _ callee args => by
      rw [unplaced, goText, callee.goText_unplaced, goTexts_allUnplaced args, goLevel_unplaced,
        goText]
  | .select _ left field => by
      rw [unplaced, goText, left.goText_unplaced, field.text_unplaced, goLevel_unplaced, goText]
  | .index _ left position => by
      rw [unplaced, goText, left.goText_unplaced, position.goText_unplaced, goLevel_unplaced,
        goText]

theorem goTexts_allUnplaced : (es : List Expr) → goTexts (allUnplaced es) = goTexts es
  | [] => rfl
  | e :: es => by rw [allUnplaced, goTexts, e.goText_unplaced, goTexts_allUnplaced es, goTexts]

end

@[simp] theorem go_unplaced (e : Expr) : e.unplaced.go = e.go := by
  rw [go_eq, go_eq, goText_unplaced]

/-- The text of an expression at a level does not depend on places. -/
theorem goAt_unplaced (e : Expr) {parent : Nat} (hParent : parent ≤ Precedence.dot.level) :
    e.unplaced.goAt parent = e.goAt parent := by
  rw [goAt_eq _ _ hParent, goAt_eq _ _ hParent, goText_unplaced, goLevel_unplaced]

@[simp] theorem render_unplaced (e : Expr) : e.unplaced.render = e.render := by
  rw [render, render, hasLongInteger_unplaced, text_unplaced]

@[simp] theorem map_go_unplaced (es : List Expr) :
    (es.map Expr.unplaced).map Expr.go = es.map Expr.go := by
  rw [List.map_map]
  exact List.map_congr_left fun e _ => e.go_unplaced

@[simp] theorem anyLongField_unplaced (es : List Expr) :
    anyLongField (es.map Expr.unplaced) = anyLongField es := by
  rw [← allUnplaced_eq_map, anyLongField_allUnplaced]

@[simp] theorem anyLongInteger_unplaced (es : List Expr) :
    anyLongInteger (es.map Expr.unplaced) = anyLongInteger es := by
  rw [← allUnplaced_eq_map, anyLongInteger_allUnplaced]

/-- The values that literals hold do not depend on places. -/
theorem mapM_heldValue_unplaced (es : List Expr) :
    (es.map Expr.unplaced).mapM heldValue = es.mapM heldValue := by
  induction es with
  | nil => rfl
  | cons e es ih => rw [List.map_cons, List.mapM_cons, List.mapM_cons, heldValue_unplaced, ih]

end Expr

/-! ### Analyses without positions -/

namespace Stmt

@[simp] theorem isMissing_unplaced (s : Stmt) : s.unplaced.isMissing = s.isMissing := by
  cases s <;> rfl

@[simp] theorem kind_unplaced (s : Stmt) : s.unplaced.kind = s.kind := by
  cases s with
  | decl _ kind _ _ _ => cases kind <;> rfl
  | bare value => exact value.kind_unplaced
  | _ => rfl

mutual

@[simp] theorem needsErrorHandling_unplaced : (s : Stmt) →
    s.unplaced.needsErrorHandling = s.needsErrorHandling
  | .func _ _ _ _ _ body => body.needsErrorHandling_unplaced
  | .block _ statements => anyNeedsErrorHandling_unplaced statements
  | .ifElse _ _ consequence alternative => by
      rw [unplaced, needsErrorHandling, consequence.needsErrorHandling_unplaced,
        alternative.needsErrorHandling_unplaced, needsErrorHandling]
  | .loop _ _ _ _ body => body.needsErrorHandling_unplaced
  | .tryCatch _ _ _ _ | .throw _ _ | .missing | .package _ _ | .imports _ _ | .decl _ _ _ _ _
  | .assign _ _ _ _ | .define _ _ _ | .ret _ _ | .expr _ _ | .incr _ _ _ | .branch _
  | .comment _ _ _ | .catchClause _ _ _ _ | .bare _ | .program _ _ => rfl

/-- Whether errors have to be handled does not depend on places. -/
theorem anyNeedsErrorHandling_unplaced : (statements : List Stmt) →
    anyNeedsErrorHandling (allUnplaced statements) = anyNeedsErrorHandling statements
  | [] => rfl
  | s :: rest => by
      rw [allUnplaced, anyNeedsErrorHandling, s.needsErrorHandling_unplaced,
        anyNeedsErrorHandling_unplaced rest, anyNeedsErrorHandling]

end

mutual

@[simp] theorem containsThrow_unplaced : (s : Stmt) → s.unplaced.containsThrow = s.containsThrow
  | .func _ _ _ _ _ body | .loop _ _ _ _ body | .catchClause _ _ _ body =>
      body.containsThrow_unplaced
  | .block _ statements | .program _ statements => anyContainsThrow_unplaced statements
  | .ifElse _ _ consequence alternative => by
      rw [unplaced, containsThrow, consequence.containsThrow_unplaced,
        alternative.containsThrow_unplaced, containsThrow]
  | .tryCatch _ body catches cleanup => by
      rw [unplaced, containsThrow, body.containsThrow_unplaced, anyContainsThrow_unplaced catches,
        cleanup.containsThrow_unplaced, containsThrow]
  | .throw _ _ | .missing | .package _ _ | .imports _ _ | .decl _ _ _ _ _ | .assign _ _ _ _
  | .define _ _ _ | .ret _ _ | .expr _ _ | .incr _ _ _ | .branch _ | .comment _ _ _ | .bare _ => rfl

/-- Whether something throws does not depend on places. -/
theorem anyContainsThrow_unplaced : (statements : List Stmt) →
    anyContainsThrow (allUnplaced statements) = anyContainsThrow statements
  | [] => rfl
  | s :: rest => by
      rw [allUnplaced, anyContainsThrow, s.containsThrow_unplaced, anyContainsThrow_unplaced rest,
        anyContainsThrow]

end

end Stmt

end TryGo
