import TryGo.Proofs.Step.Composed

/-! Lowering closes what it opens. Every step of it is built from the elementary steps and from
those that open a block, a frame or a scope, run something inside and close it again. So a statement
leaves the depth, the frames and the outer scopes as it finds them. -/
namespace TryGo.Lower

mutual

theorem lower_balanced (s : Stmt) : Balanced (lower s) := by
  cases s with
  | package _ name => exact .emit _ trivial
  | imports _ paths => exact inferInstanceAs (Balanced (importLines paths))
  | func _ name params types result body =>
      have hBody (names : List String) := lowerBlock_balanced names body
      refine .after fun _ => .ite (.after fun _ => ?_) ?_
      all_goals exact .after fun _ => .after fun _ => .after fun _ => .emit _ trivial
  | ret _ values => exact inferInstanceAs (Balanced (lowerReturn values))
  | block _ statements =>
      have hInside := lowerAll_balanced statements
      rw [lower]
      infer_instance
  | ifElse _ condition consequence alternative =>
      have hThen := lowerBlock_balanced [] consequence
      have hElse := lowerElse_balanced alternative
      rw [lower]
      infer_instance
  | loop _ init condition update body =>
      have hBody := lowerBlock_balanced [] body
      rw [lower]
      infer_instance
  | comment _ text multiline => exact .emit _ trivial
  | branch token =>
      rw [lower]
      split <;> infer_instance
  | tryCatch _ body catches cleanup =>
      have hBody := lowerStatements_balanced body
      have hCatches := lowerCatches_balanced false catches
      have hCleanup := lowerStatements_balanced cleanup
      refine .after fun reuse => .after fun _ => .after fun _ => .after fun _ => .after fun _ => ?_
      exact .ite (.after fun _ => hCleanup)
        (.after fun _ => .after fun _ => .after fun _ => hCleanup)
  | throw _ value => exact inferInstanceAs (Balanced (lowerThrow value))
  | decl | define | assign | incr | expr =>
      rw [lower]
      infer_instance
  | missing | catchClause | bare | program => exact .emit _ trivial

theorem lowerAll_balanced (statements : List Stmt) : Balanced (lowerAll statements) := by
  cases statements with
  | nil => exact .value ()
  | cons s rest => exact .bind (lower_balanced s) fun _ => lowerAll_balanced rest

theorem lowerBlock_balanced (names : List String) (s : Stmt) : Balanced (lowerBlock names s) := by
  cases s with
  | missing => exact .inBlock names (.value ())
  | block _ statements => exact .inBlock names (lowerAll_balanced statements)
  | program _ statements => exact .inBlock names (lowerAll_balanced statements)
  | _ => exact .inBlock names (.fault _ trivial)

theorem lowerStatements_balanced (s : Stmt) : Balanced (lowerStatements s) := by
  cases s with
  | missing => exact .value ()
  | block _ statements => exact lowerAll_balanced statements
  | program _ statements => exact lowerAll_balanced statements
  | _ => exact .fault _ trivial

theorem lowerElse_balanced (s : Stmt) : Balanced (lowerElse s) := by
  cases s with
  | missing => exact .emit _ trivial
  | ifElse _ condition consequence alternative =>
      have hThen := lowerBlock_balanced [] consequence
      have hElse := lowerElse_balanced alternative
      rw [lowerElse]
      infer_instance
  | block _ statements =>
      exact .after fun _ =>
        .bind (.inBlock [] (lowerAll_balanced statements)) fun _ => .emit _ trivial
  | program _ statements =>
      exact .after fun _ =>
        .bind (.inBlock [] (lowerAll_balanced statements)) fun _ => .emit _ trivial
  | _ => exact .after fun _ => .inBlock [] (.fault _ trivial)

theorem lowerCatches_balanced (chained : Bool) (clauses : List Stmt) :
    Balanced (lowerCatches chained clauses) := by
  cases clauses with
  | nil =>
      rw [lowerCatches]
      infer_instance
  | cons clause rest =>
      cases clause with
      | catchClause _ name type body =>
          have hBody := lowerStatements_balanced body
          have hRest := lowerCatches_balanced true rest
          rw [lowerCatches]
          infer_instance
      | _ => exact .fault _ trivial

end

end TryGo.Lower
