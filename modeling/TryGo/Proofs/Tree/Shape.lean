import TryGo.Go.Expr

/-! The shapes of statements in their places. Whatever is read from a source, with or without
reports, puts names in the places of names, blocks in the places of bodies and clauses in the
places of clauses. Its expressions may have holes. -/
namespace TryGo

namespace Stmt

def isBlock : Stmt → Bool
  | .block _ _ => true
  | _ => false

def isConditional : Stmt → Bool
  | .ifElse _ _ _ _ => true
  | _ => false

def isSimple : Stmt → Bool
  | .assign _ _ _ _ | .define _ _ _ | .expr _ _ | .incr _ _ _ => true
  | _ => false

end Stmt

mutual

/-- Whether the places of a statement hold what belongs there. A selector has a name for its
field, so that the expression around it has a Go form. -/
def Stmt.Shaped : Stmt → Prop
  | .missing | .package _ _ | .imports _ _ | .comment _ _ _ | .catchClause _ _ _ _ | .bare _
  | .program _ _ => True
  | .decl _ _ name _ value => name.isIdent = true ∧ value.hasLongField = false
  | .assign _ targets _ values =>
      Expr.anyLongField targets = false ∧ Expr.anyLongField values = false
  | .define _ names values =>
      (∀ name ∈ names, name.isIdent = true) ∧ Expr.anyLongField values = false
  | .ret _ values => Expr.anyLongField values = false
  | .expr _ value | .incr _ value _ | .throw _ value => value.hasLongField = false
  | .branch token => token.kind = .kwBreak ∨ token.kind = .kwContinue
  | .block _ statements => Stmt.AllShaped statements
  | .ifElse _ condition consequence alternative =>
      condition.hasLongField = false ∧ consequence.isBlock = true ∧ consequence.Shaped
        ∧ (alternative.isMissing || alternative.isBlock || alternative.isConditional) = true
        ∧ alternative.Shaped
  | .loop _ init condition update body =>
      init.Shaped ∧ condition.hasLongField = false ∧ update.Shaped
        ∧ body.isBlock = true ∧ body.Shaped
  | .func _ name params _ _ body =>
      name.isIdent = true ∧ (∀ param ∈ params, param.isIdent = true)
        ∧ body.isBlock = true ∧ body.Shaped
  | .tryCatch _ body catches cleanup =>
      body.isBlock = true ∧ body.Shaped ∧ Stmt.AllClausesShaped catches
        ∧ (cleanup.isMissing || cleanup.isBlock) = true ∧ cleanup.Shaped

def Stmt.AllShaped : List Stmt → Prop
  | [] => True
  | s :: rest => s.Shaped ∧ Stmt.AllShaped rest

/-- Whether some nodes are catch clauses that bind a name or nothing and have blocks. -/
def Stmt.AllClausesShaped : List Stmt → Prop
  | [] => True
  | .catchClause _ name _ body :: rest =>
      (name.isMissing || name.isIdent) = true ∧ body.isBlock = true ∧ body.Shaped
        ∧ Stmt.AllClausesShaped rest
  | _ :: _ => False

end

theorem Stmt.allShaped_iff {statements : List Stmt} :
    Stmt.AllShaped statements ↔ ∀ s ∈ statements, s.Shaped := by
  induction statements with
  | nil => simp [Stmt.AllShaped]
  | cons s rest ih => rw [Stmt.AllShaped, ih, List.forall_mem_cons]

/-! ### Names in the places of names -/

namespace Expr

theorem hasLongInteger_of_isIdent {e : Expr} (hIdent : e.isIdent = true) :
    e.hasLongInteger = false := by
  cases e with
  | ident => rfl
  | _ => cases hIdent

theorem anyLongInteger_of_isIdent {es : List Expr} (hIdents : ∀ e ∈ es, e.isIdent = true) :
    anyLongInteger es = false := by
  induction es with
  | nil => rfl
  | cons e es ih =>
      rw [List.forall_mem_cons] at hIdents
      rw [anyLongInteger, ih hIdents.2, hasLongInteger_of_isIdent hIdents.1]
      rfl

theorem anyLongField_append (es more : List Expr) :
    anyLongField (es ++ more) = (anyLongField es || anyLongField more) := by
  induction es with
  | nil => rfl
  | cons e es ih => rw [List.cons_append, anyLongField, anyLongField, ih, Bool.or_assoc]

theorem anyLongField_singleton (e : Expr) : anyLongField [e] = e.hasLongField :=
  Bool.or_false e.hasLongField

theorem anyLongField_of_isIdent {es : List Expr} (hIdents : ∀ e ∈ es, e.isIdent = true) :
    anyLongField es = false := by
  induction es with
  | nil => rfl
  | cons e es ih =>
      rw [List.forall_mem_cons] at hIdents
      rw [anyLongField, ih hIdents.2]
      cases e with
      | ident => rfl
      | _ => cases hIdents.1

end Expr

end TryGo
