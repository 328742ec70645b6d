import TryGo.Lower.Stmt

/-! Trees without a try or a throw. Nothing in them needs error handling, so their functions keep
their results and no package is added to their imports. -/
namespace TryGo

mutual

/-- Whether no try and no throw stands anywhere in a node. -/
def Stmt.isPlain : Stmt → Bool
  | .tryCatch _ _ _ _ | .throw _ _ => false
  | .block _ statements | .program _ statements => Stmt.allPlain statements
  | .ifElse _ _ consequence alternative => consequence.isPlain && alternative.isPlain
  | .loop _ init _ update body => init.isPlain && update.isPlain && body.isPlain
  | .func _ _ _ _ _ body | .catchClause _ _ _ body => body.isPlain
  | _ => true

def Stmt.allPlain : List Stmt → Bool
  | [] => true
  | s :: rest => s.isPlain && Stmt.allPlain rest

end

def Program.isPlain (program : Program) : Bool := Stmt.allPlain program.statements

mutual

theorem Stmt.needsErrorHandling_of_isPlain :
    (s : Stmt) → s.isPlain = true → s.needsErrorHandling = false
  | .tryCatch _ _ _ _, hPlain | .throw _ _, hPlain => absurd hPlain Bool.false_ne_true
  | .func _ _ _ _ _ body, hPlain => body.needsErrorHandling_of_isPlain hPlain
  | .block _ statements, hPlain => Stmt.anyNeedsErrorHandling_of_allPlain statements hPlain
  | .ifElse _ _ consequence alternative, hPlain => by
      rw [Stmt.isPlain, Bool.and_eq_true] at hPlain
      rw [Stmt.needsErrorHandling, consequence.needsErrorHandling_of_isPlain hPlain.1,
        alternative.needsErrorHandling_of_isPlain hPlain.2]
      rfl
  | .loop _ init _ update body, hPlain => by
      rw [Stmt.isPlain, Bool.and_eq_true] at hPlain
      exact body.needsErrorHandling_of_isPlain hPlain.2
  | .missing, _ | .package _ _, _ | .imports _ _, _ | .decl _ _ _ _ _, _ | .assign _ _ _ _, _
  | .define _ _ _, _ | .ret _ _, _ | .expr _ _, _ | .incr _ _ _, _ | .branch _, _
  | .comment _ _ _, _ | .catchClause _ _ _ _, _ | .bare _, _ | .program _ _, _ => rfl

theorem Stmt.anyNeedsErrorHandling_of_allPlain :
    (statements : List Stmt) → Stmt.allPlain statements = true →
      Stmt.anyNeedsErrorHandling statements = false
  | [], _ => rfl
  | s :: rest, hPlain => by
      rw [Stmt.allPlain, Bool.and_eq_true] at hPlain
      rw [Stmt.anyNeedsErrorHandling, s.needsErrorHandling_of_isPlain hPlain.1,
        Stmt.anyNeedsErrorHandling_of_allPlain rest hPlain.2]
      rfl

end

mutual

theorem Stmt.containsThrow_of_isPlain :
    (s : Stmt) → s.isPlain = true → s.containsThrow = false
  | .tryCatch _ _ _ _, hPlain | .throw _ _, hPlain => absurd hPlain Bool.false_ne_true
  | .func _ _ _ _ _ body, hPlain => body.containsThrow_of_isPlain hPlain
  | .catchClause _ _ _ body, hPlain => body.containsThrow_of_isPlain hPlain
  | .block _ statements, hPlain => Stmt.anyContainsThrow_of_allPlain statements hPlain
  | .program _ statements, hPlain => Stmt.anyContainsThrow_of_allPlain statements hPlain
  | .ifElse _ _ consequence alternative, hPlain => by
      rw [Stmt.isPlain, Bool.and_eq_true] at hPlain
      rw [Stmt.containsThrow, consequence.containsThrow_of_isPlain hPlain.1,
        alternative.containsThrow_of_isPlain hPlain.2]
      rfl
  | .loop _ init _ update body, hPlain => by
      rw [Stmt.isPlain, Bool.and_eq_true] at hPlain
      exact body.containsThrow_of_isPlain hPlain.2
  | .missing, _ | .package _ _, _ | .imports _ _, _ | .decl _ _ _ _ _, _ | .assign _ _ _ _, _
  | .define _ _ _, _ | .ret _ _, _ | .expr _ _, _ | .incr _ _ _, _ | .branch _, _
  | .comment _ _ _, _ | .bare _, _ => rfl

theorem Stmt.anyContainsThrow_of_allPlain :
    (statements : List Stmt) → Stmt.allPlain statements = true →
      Stmt.anyContainsThrow statements = false
  | [], _ => rfl
  | s :: rest, hPlain => by
      rw [Stmt.allPlain, Bool.and_eq_true] at hPlain
      rw [Stmt.anyContainsThrow, s.containsThrow_of_isPlain hPlain.1,
        Stmt.anyContainsThrow_of_allPlain rest hPlain.2]
      rfl

end

/-- A program without a throw lacks no package. -/
theorem Lower.missingPackages_of_isPlain {program : Program} (hPlain : program.isPlain = true) :
    Lower.missingPackages program = [] := by
  have hThrow : program.containsThrow = false :=
    Stmt.anyContainsThrow_of_allPlain program.statements hPlain
  rw [Lower.missingPackages, hThrow]
  rfl

end TryGo
