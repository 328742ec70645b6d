import TryGo.Proofs.Go.Expr

/-! Operators printed in a loop. The left operands of an operator that need no parentheses are its
left spine. Printing can start at the innermost operand of the spine and put one operator after the
other behind it, so that a long chain of operators takes no recursion. The text is the one that is
printed by recursion into both operands. -/
namespace TryGo

/-- An operator on a left spine with its operands. -/
structure Link where
  left : Expr
  op : String
  right : Expr

namespace Link

def level (link : Link) : Nat := (Precedence.ofOperator link.op).level

/-- The text of the operator and its right operand behind the text of the left operand. -/
def behind (text : String) (link : Link) : String :=
  text ++ " " ++ link.op ++ " " ++ link.right.goAt (link.level + 1)

end Link

/-- The left spine of an operator, the outermost operator first. It goes on with the left operand as
long as that is an operator that binds no less than the one it belongs to. -/
def spine : Expr → String → Expr → List Link
  | .binary token left inner middle, op, right =>
      ⟨.binary token left inner middle, op, right⟩ ::
        if (Precedence.ofOperator op).level ≤ (Precedence.ofOperator inner).level then
          spine left inner middle
        else []
  | left, op, right => [⟨left, op, right⟩]

theorem spine_ne_nil (left : Expr) (op : String) (right : Expr) : spine left op right ≠ [] := by
  unfold spine
  split <;> simp

def innermost (left : Expr) (op : String) (right : Expr) : Link :=
  (spine left op right).getLast (spine_ne_nil left op right)

/-- An operator with its operands, printed from the innermost left operand of its spine outwards. -/
def spineText (left : Expr) (op : String) (right : Expr) : String :=
  let start := innermost left op right
  (spine left op right).reverse.foldl Link.behind (start.left.goAt start.level)

variable {left right : Expr} {op : String}

/-- Where the spine ends at once, the operator is printed behind its left operand. -/
theorem spineText_of_singleton (hSpine : spine left op right = [⟨left, op, right⟩]) :
    spineText left op right =
      Link.behind (left.goAt (Precedence.ofOperator op).level) ⟨left, op, right⟩ := by
  simp only [spineText, innermost, hSpine]
  rfl

/-- Where the spine goes on, the operator is printed behind what the rest of the spine becomes. -/
theorem spineText_of_cons {inner : Expr} {innerOp : String} {middle : Expr}
    (hSpine : spine left op right = ⟨left, op, right⟩ :: spine inner innerOp middle) :
    spineText left op right =
      Link.behind (spineText inner innerOp middle) ⟨left, op, right⟩ := by
  simp only [spineText, innermost, hSpine, List.reverse_cons, List.foldl_append,
    List.getLast_cons (spine_ne_nil inner innerOp middle)]
  rfl

section Recursion

variable (token : Token) (left : Expr) (op : String) (right : Expr)

/-- The printer by recursion puts an operator behind its left operand. -/
theorem goText_binary :
    (Expr.binary token left op right).goText =
      Link.behind (left.goAt (Precedence.ofOperator op).level) ⟨left, op, right⟩ := by
  have hLevel := level_ofOperator_lt op
  have hDot : Precedence.unary.level ≤ Precedence.dot.level := by decide
  simp only [Link.behind, Link.level]
  rw [Expr.goText, left.goAt_eq _ (by omega), right.goAt_eq _ (by omega)]

/-- So does the printer that reaches the left operand last, in parentheses if the level of the
operator is too low. -/
theorem goAt_binary (parent : Nat) :
    (Expr.binary token left op right).goAt parent =
      parenIf ((Precedence.ofOperator op).level < parent)
        (Link.behind (left.goAt (Precedence.ofOperator op).level) ⟨left, op, right⟩) := by
  have hLevel := level_ofOperator_lt op
  have hDot : Precedence.unary.level ≤ Precedence.dot.level := by decide
  rw [← goText_binary token, Expr.goAt, Expr.goText, Expr.goTextBefore,
    left.goTextBefore_eq _ _ (by omega), left.goTextBefore_eq _ _ (by omega),
    right.goTextBefore_eq _ _ (by omega), right.goTextBefore_eq _ _ (by omega)]
  by_cases hLow : (Precedence.ofOperator op).level < parent
  · simp [hLow, parenIf, String.append_assoc]
  · simp [hLow, parenIf, String.append_assoc]

end Recursion

/-- The loop prints what the recursion prints. -/
theorem spineText_eq_behind (left : Expr) (op : String) (right : Expr) :
    spineText left op right =
      Link.behind (left.goAt (Precedence.ofOperator op).level) ⟨left, op, right⟩ := by
  fun_induction spine left op right with
  | case1 token left inner middle op right ih =>
      have hLeft := goAt_binary token left inner middle (Precedence.ofOperator op).level
      by_cases hBinds : (Precedence.ofOperator op).level ≤ (Precedence.ofOperator inner).level
      · have hSpine : spine (.binary token left inner middle) op right =
            ⟨.binary token left inner middle, op, right⟩ :: spine left inner middle := by
          rw [spine, if_pos hBinds]
        rw [spineText_of_cons hSpine, ih, hLeft, parenIf, if_neg (by simpa using hBinds)]
      · exact spineText_of_singleton (by rw [spine, if_neg hBinds])
  | case2 left op right hOther => exact spineText_of_singleton (by rw [spine]; exact hOther)

/-- An operator is printed alike by the loop over its left spine, by the recursion into both
operands and by the printer that reaches the left operand last. Parentheses are put around the
text of the loop where no operator of this level may stand. -/
theorem spineText_eq (token : Token) (left : Expr) (op : String) (right : Expr) :
    let level := (Precedence.ofOperator op).level
    spineText left op right = left.goAt level ++ " " ++ op ++ " " ++ right.goAt (level + 1)
      ∧ (Expr.binary token left op right).goText = spineText left op right
      ∧ ∀ parent, (Expr.binary token left op right).goAt parent =
          parenIf (level < parent) (spineText left op right) := by
  intro level
  have hText := spineText_eq_behind left op right
  refine ⟨hText, ?_, fun parent => ?_⟩
  · rw [goText_binary, hText]
  · rw [goAt_binary, hText]

end TryGo
