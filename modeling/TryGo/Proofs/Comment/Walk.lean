import TryGo.Proofs.Comment.Place
import TryGo.Proofs.Gate.Complete
import TryGo.Tree.Walk

/-! The walk through a complete program meets its comments in their order. An expression holds
no comment, because nothing foreign stands in it. -/
namespace TryGo

/-- The literal of the token of a comment that a walk meets. -/
def Visit.commentLiteral : Visit → Option String
  | .enter .comment literal => some literal
  | _ => none

def commentLiterals (visits : List Visit) : List String := visits.filterMap Visit.commentLiteral

def literalsOf (comments : List (Token × Place)) : List String :=
  comments.map fun comment => comment.1.literal

section Literals

@[simp] theorem commentLiterals_nil : commentLiterals [] = [] := rfl

@[simp] theorem commentLiterals_append (visits more : List Visit) :
    commentLiterals (visits ++ more) = commentLiterals visits ++ commentLiterals more :=
  List.filterMap_append

@[simp] theorem literalsOf_nil : literalsOf [] = [] := rfl

@[simp] theorem literalsOf_append (comments more : List (Token × Place)) :
    literalsOf (comments ++ more) = literalsOf comments ++ literalsOf more := List.map_append

/-- Entering a node that is no comment adds nothing. -/
theorem commentLiterals_visitNode {kind : NodeKind} (hKind : kind ≠ .comment) (token : Token)
    (children : List Visit) :
    commentLiterals (visitNode [] kind token children) = commentLiterals children := by
  rw [commentLiterals, visitNode, List.contains_nil, if_neg Bool.false_ne_true,
    List.filterMap_cons_none]
  · rfl
  · cases kind <;> first | rfl | exact absurd rfl hKind

end Literals

mutual

theorem Expr.Complete.commentLiterals_walk :
    (e : Expr) → e.Complete → commentLiterals (e.walk []) = []
  | .missing, hComplete | .foreign _ _ _, hComplete => hComplete.elim
  | .ident _ _, _ | .int _ _, _ | .float _ _, _ | .str _ _ _, _ | .char _ _, _ | .bool _ _, _
  | .nil _, _ => rfl
  | .unary _ _ operand, hComplete => by
      rw [Expr.walk, commentLiterals_visitNode (by decide)]
      exact Expr.Complete.commentLiterals_walk operand hComplete
  | .binary _ left _ right, hComplete => by
      rw [Expr.walk, commentLiterals_visitNode (by decide), commentLiterals_append,
        Expr.Complete.commentLiterals_walk left hComplete.1,
        Expr.Complete.commentLiterals_walk right hComplete.2, List.append_nil]
  | .call _ callee args, hComplete => by
      rw [Expr.walk, commentLiterals_visitNode (by decide), commentLiterals_append,
        Expr.Complete.commentLiterals_walk callee hComplete.1,
        Expr.AllComplete.commentLiterals_walk args hComplete.2, List.append_nil]
  | .select _ left field, hComplete => by
      rw [Expr.walk, commentLiterals_visitNode (by decide), commentLiterals_append,
        Expr.Complete.commentLiterals_walk left hComplete.1,
        Expr.Complete.commentLiterals_walk field hComplete.2, List.append_nil]
  | .index _ left position, hComplete => by
      rw [Expr.walk, commentLiterals_visitNode (by decide), commentLiterals_append,
        Expr.Complete.commentLiterals_walk left hComplete.1,
        Expr.Complete.commentLiterals_walk position hComplete.2, List.append_nil]

theorem Expr.AllComplete.commentLiterals_walk :
    (es : List Expr) → Expr.AllComplete es → commentLiterals (Expr.walkAll [] es) = []
  | [], _ => rfl
  | e :: es, hComplete => by
      rw [Expr.walkAll, commentLiterals_append, Expr.Complete.commentLiterals_walk e hComplete.1,
        Expr.AllComplete.commentLiterals_walk es hComplete.2, List.append_nil]

end

theorem Expr.CompleteIfAny.commentLiterals_walk {e : Expr} (hComplete : e.CompleteIfAny) :
    commentLiterals (e.walk []) = [] := by
  rcases hComplete with hMissing | hComplete
  · cases e with
    | missing => rfl
    | _ => cases hMissing
  · exact Expr.Complete.commentLiterals_walk e hComplete

/-- Names hold no comments. -/
theorem commentLiterals_walkAll_of_isIdent {es : List Expr}
    (hIdents : ∀ e ∈ es, e.isIdent = true) : commentLiterals (Expr.walkAll [] es) = [] :=
  Expr.AllComplete.commentLiterals_walk es (allComplete_of_isIdent hIdents)

/-- A child that may be absent. -/
theorem Stmt.commentLiterals_walk_if {s : Stmt} (hChild : s.isMissing = true ∨ s.Complete)
    (hWalk : s.Complete → commentLiterals (s.walk []) = literalsOf (s.comments .elsewhere)) :
    commentLiterals (s.walk []) = literalsOf (s.comments .elsewhere) := by
  rcases hChild with hMissing | hComplete
  · rw [Stmt.isMissing_cases hMissing]
    rfl
  · exact hWalk hComplete

mutual

/-- The walk through a complete statement meets its comments. -/
theorem Stmt.Complete.commentLiterals_walk : (s : Stmt) → s.Complete → (place : Place) →
    commentLiterals (s.walk []) = literalsOf (s.comments place)
  | .missing, hComplete, _ | .catchClause _ _ _ _, hComplete, _ | .bare _, hComplete, _
  | .program _ _, hComplete, _ => hComplete.elim
  | .package _ _, _, _ | .imports _ _, _, _ | .branch _, _, _ | .comment _ _ _, _, _ => rfl
  | .decl _ .var name _ value, hComplete, _ => by
      rw [Stmt.walk, commentLiterals_visitNode (by decide), commentLiterals_append,
        Expr.Complete.commentLiterals_walk name hComplete.1, hComplete.2.commentLiterals_walk]
      rfl
  | .decl _ .const name _ value, hComplete, _ => by
      rw [Stmt.walk, commentLiterals_visitNode (by decide), commentLiterals_append,
        Expr.Complete.commentLiterals_walk name hComplete.1,
        Expr.Complete.commentLiterals_walk value hComplete.2]
      rfl
  | .assign _ targets _ values, hComplete, _ => by
      rw [Stmt.walk, commentLiterals_visitNode (by decide), commentLiterals_append,
        Expr.AllComplete.commentLiterals_walk targets hComplete.1,
        Expr.AllComplete.commentLiterals_walk values hComplete.2]
      rfl
  | .define _ names values, hComplete, _ => by
      rw [Stmt.walk, commentLiterals_visitNode (by decide), commentLiterals_append,
        commentLiterals_walkAll_of_isIdent hComplete.1,
        Expr.AllComplete.commentLiterals_walk values hComplete.2.2]
      rfl
  | .ret _ values, hComplete, _ => by
      rw [Stmt.walk, commentLiterals_visitNode (by decide),
        Expr.AllComplete.commentLiterals_walk values hComplete]
      rfl
  | .expr _ value, hComplete, _ | .incr _ value _, hComplete, _ | .throw _ value, hComplete, _ => by
      rw [Stmt.walk, commentLiterals_visitNode (by decide),
        Expr.Complete.commentLiterals_walk value hComplete]
      rfl
  | .block token statements, hComplete, _ => by
      rw [Stmt.walk, commentLiterals_visitNode (by decide), Stmt.comments]
      exact Stmt.AllComplete.commentLiterals_walk statements hComplete (.block token)
  | .ifElse _ condition consequence alternative, hComplete, _ => by
      obtain ⟨hCondition, -, hConsequence, hAlternative⟩ := hComplete
      rw [Stmt.walk, commentLiterals_visitNode (by decide), commentLiterals_append,
        commentLiterals_append, Expr.Complete.commentLiterals_walk condition hCondition,
        Stmt.Complete.commentLiterals_walk consequence hConsequence .elsewhere,
        Stmt.commentLiterals_walk_if (hAlternative.imp_right And.right) fun h =>
          Stmt.Complete.commentLiterals_walk alternative h .elsewhere,
        Stmt.comments, literalsOf_append]
      rfl
  | .loop _ init condition update body, hComplete, _ => by
      obtain ⟨hInit, hCondition, hUpdate, -, hBody⟩ := hComplete
      rw [Stmt.walk, commentLiterals_visitNode (by decide), commentLiterals_append,
        commentLiterals_append, commentLiterals_append, hCondition.commentLiterals_walk,
        Stmt.commentLiterals_walk_if (hInit.imp_right And.right) fun h =>
          Stmt.Complete.commentLiterals_walk init h .elsewhere,
        Stmt.commentLiterals_walk_if (hUpdate.imp_right And.right) fun h =>
          Stmt.Complete.commentLiterals_walk update h .elsewhere,
        Stmt.Complete.commentLiterals_walk body hBody .elsewhere,
        Stmt.comments, literalsOf_append, literalsOf_append, List.append_nil, List.append_assoc]
  | .func _ name params _ _ body, hComplete, _ => by
      obtain ⟨hName, hParams, -, -, hBody⟩ := hComplete
      rw [Stmt.walk, commentLiterals_visitNode (by decide), commentLiterals_append,
        commentLiterals_append, Expr.Complete.commentLiterals_walk name hName,
        Expr.AllComplete.commentLiterals_walk params hParams,
        Stmt.Complete.commentLiterals_walk body hBody .elsewhere, Stmt.comments]
      rfl
  | .tryCatch _ body catches cleanup, hComplete, _ => by
      obtain ⟨-, hBody, hCatches, hCleanup⟩ := hComplete
      rw [Stmt.walk, commentLiterals_visitNode (by decide), commentLiterals_append,
        commentLiterals_append, Stmt.Complete.commentLiterals_walk body hBody .elsewhere,
        Stmt.AllClauses.commentLiterals_walk catches hCatches,
        Stmt.commentLiterals_walk_if (hCleanup.imp_right And.right) fun h =>
          Stmt.Complete.commentLiterals_walk cleanup h .elsewhere, Stmt.comments,
        literalsOf_append, literalsOf_append, List.append_assoc]

theorem Stmt.AllComplete.commentLiterals_walk : (statements : List Stmt) →
    Stmt.AllComplete statements → (place : Place) →
    commentLiterals (Stmt.walkAll [] statements) = literalsOf (Stmt.allComments place statements)
  | [], _, _ => rfl
  | s :: rest, hComplete, place => by
      rw [Stmt.walkAll, commentLiterals_append,
        Stmt.Complete.commentLiterals_walk s hComplete.1 place,
        Stmt.AllComplete.commentLiterals_walk rest hComplete.2 place, Stmt.allComments,
        literalsOf_append]

theorem Stmt.AllClauses.commentLiterals_walk : (catches : List Stmt) → Stmt.AllClauses catches →
    commentLiterals (Stmt.walkAll [] catches) = literalsOf (Stmt.allComments .elsewhere catches)
  | [], _ => rfl
  | s :: rest, hClauses => by
      cases s with
      | catchClause _ name _ body =>
          obtain ⟨hName, -, hBody, hRest⟩ := hClauses
          rw [Stmt.walkAll, commentLiterals_append, Stmt.walk,
            commentLiterals_visitNode (by decide), commentLiterals_append,
            hName.commentLiterals_walk, Stmt.Complete.commentLiterals_walk body hBody .elsewhere,
            Stmt.AllClauses.commentLiterals_walk rest hRest, Stmt.allComments, Stmt.comments,
            literalsOf_append]
          rfl
      | _ => exact hClauses.elim

end

/-- The walk through a complete program meets its comments. -/
theorem Program.commentLiterals_walk {program : Program} (hComplete : program.Complete) :
    commentLiterals (program.walk []) = literalsOf program.comments := by
  rw [Program.walk, Program.toStmt, Stmt.walk, commentLiterals_visitNode (by decide)]
  exact Stmt.AllComplete.commentLiterals_walk program.statements hComplete .program

end TryGo
