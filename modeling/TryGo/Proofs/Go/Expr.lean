import TryGo.Go.Expr

/-! The two printers of expressions agree: putting an expression in front of a text is
printing it, in parentheses if its level is too low, with the text behind it. -/
namespace TryGo

/-- The operators of the table bind less than a unary operator does. -/
theorem level_ofOperator_lt (op : String) :
    (Precedence.ofOperator op).level < Precedence.unary.level := by
  have hTable : ∀ entry ∈ Precedence.ofOperators,
      entry.2.level < Precedence.unary.level := by decide
  cases hFound : Precedence.ofOperators.lookup op with
  | none =>
      rw [Precedence.ofOperator, hFound]
      decide
  | some precedence =>
      obtain ⟨before, after, hSplit, -⟩ := List.lookup_eq_some_iff.mp hFound
      rw [Precedence.ofOperator, hFound]
      exact hTable (op, precedence) (by rw [hSplit]; simp)

/-- An operand never needs parentheses. -/
theorem parenIf_primary {e : Expr} (hPrimary : e.goLevel = Precedence.dot.level) {parent : Nat}
    (hParent : parent ≤ Precedence.dot.level) (text : String) :
    parenIf (e.goLevel < parent) text = text := by
  rw [hPrimary, parenIf, if_neg (by simpa using hParent)]

/-- No expression needs parentheses where every operator is allowed. -/
theorem parenIf_lowest (e : Expr) (text : String) :
    parenIf (e.goLevel < Precedence.lowest.level) text = text := by
  have hLeast (precedence : Precedence) : Precedence.lowest.level ≤ precedence.level := by
    cases precedence <;> decide
  have hLevel : Precedence.lowest.level ≤ e.goLevel := by
    cases e with
    | binary _ _ op _ => exact hLeast (Precedence.ofOperator op)
    | unary _ _ _ => exact hLeast Precedence.unary
    | _ => exact hLeast Precedence.dot
  rw [parenIf, if_neg (by simpa using hLevel)]

theorem parenIf_unary (e : Expr) :
    (if e.isUnary then "(" ++ (parenIf (e.goLevel < Precedence.unary.level) e.goText ++ ")")
      else parenIf (e.goLevel < Precedence.unary.level) e.goText) =
      parenIf e.needsParensInUnary e.goText := by
  cases e with
  | unary => simp [Expr.isUnary, Expr.needsParensInUnary, parenIf, Expr.goLevel, String.append_assoc]
  | _ => simp [Expr.isUnary, Expr.needsParensInUnary]

mutual

theorem Expr.goTextBefore_eq : (e : Expr) → (parent : Nat) → (suffix : String) →
    parent ≤ Precedence.dot.level →
      e.goTextBefore parent suffix = parenIf (e.goLevel < parent) e.goText ++ suffix
  | .binary _ left op right, parent, suffix, hParent => by
      have hLevel := level_ofOperator_lt op
      have hDot : Precedence.unary.level ≤ Precedence.dot.level := by decide
      rw [Expr.goTextBefore, Expr.goTextBefore_eq left _ _ (by omega),
        Expr.goTextBefore_eq left _ _ (by omega), Expr.goTextBefore_eq right _ _ (by omega),
        Expr.goTextBefore_eq right _ _ (by omega), Expr.goText, Expr.goLevel]
      by_cases hLow : (Precedence.ofOperator op).level < parent
      · simp [hLow, parenIf, String.append_assoc]
      · simp [hLow, parenIf, String.append_assoc]
  | .unary _ op operand, parent, suffix, _ => by
      rw [Expr.goTextBefore, Expr.goTextBefore_eq operand _ _ (by decide),
        Expr.goTextBefore_eq operand _ _ (by decide), String.append_empty, parenIf_unary,
        Expr.goText, Expr.goLevel]
  | .call _ callee args, parent, suffix, hParent => by
      rw [Expr.goTextBefore, Expr.goTextBefore_eq callee _ _ (by decide), Expr.goTextsBefore_eq args,
        Expr.goText, parenIf_primary (e := .call _ callee args) rfl hParent]
      simp [String.append_assoc]
  | .select _ left field, parent, suffix, hParent => by
      rw [Expr.goTextBefore, Expr.goTextBefore_eq left _ _ (by decide), Expr.goText,
        parenIf_primary (e := .select _ left field) rfl hParent]
      simp [String.append_assoc]
  | .index _ left position, parent, suffix, hParent => by
      rw [Expr.goTextBefore, Expr.goTextBefore_eq left _ _ (by decide),
        Expr.goTextBefore_eq position _ _ (by decide), Expr.goText,
        parenIf_primary (e := .index _ left position) rfl hParent, parenIf_lowest position]
      simp [String.append_assoc]
  | .missing, _, _, hParent | .ident _ _, _, _, hParent | .int _ _, _, _, hParent
  | .float _ _, _, _, hParent | .str _ _ _, _, _, hParent | .char _ _, _, _, hParent
  | .bool _ _, _, _, hParent | .nil _, _, _, hParent | .foreign _ _ _, _, _, hParent => by
      rw [Expr.goTextBefore, Expr.goText, parenIf_primary rfl hParent]

theorem Expr.goTextsBefore_eq : (es : List Expr) → Expr.goTextsBefore es = Expr.goTexts es
  | [] => rfl
  | e :: es => by
      rw [Expr.goTextsBefore, Expr.goTexts, Expr.goTextBefore_eq e _ _ (by decide),
        parenIf_lowest, String.append_empty, Expr.goTextsBefore_eq es]

end

theorem Expr.goAt_eq (e : Expr) (parent : Nat) (hParent : parent ≤ Precedence.dot.level) :
    e.goAt parent = parenIf (e.goLevel < parent) e.goText := by
  rw [Expr.goAt, Expr.goTextBefore_eq e _ _ hParent, String.append_empty]

theorem Expr.go_eq (e : Expr) : e.go = e.goText := by
  rw [Expr.go, Expr.goAt_eq e _ (by decide), parenIf_lowest]

end TryGo
