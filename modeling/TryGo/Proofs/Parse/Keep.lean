import TryGo.Proofs.Parse.Stmt

/-! Readers that read no statement list and no try are put together from the elementary steps that
have nothing to do with the waiting comments. So they leave the comments alone which wait behind a
try. -/
namespace TryGo.Parse

section Readers

variable {p : Halt → Prop}

instance : Reads p packageStmt := by
  unfold packageStmt
  infer_instance

instance : Reads p skipSemicolon := by
  unfold skipSemicolon
  infer_instance

variable [Allows p .outOfFuel]

/-- The four readers of types call each other. -/
theorem reads_type_aux (fuel : Nat) :
    Reads p (goType fuel) ∧ Reads p (funcType fuel) ∧ Reads p (typesUntilParen fuel)
      ∧ Reads p (typeList fuel) := by
  induction fuel with
  | zero => exact ⟨reads_outOfFuel, reads_outOfFuel, reads_outOfFuel, reads_outOfFuel⟩
  | succ fuel ih =>
      obtain ⟨_, _, _, _⟩ := ih
      refine ⟨.after fun token => ?_, ?_, ?_, ?_⟩
      · split <;> infer_instance
      · rw [funcType]
        infer_instance
      · rw [typesUntilParen]
        infer_instance
      · rw [typeList]
        infer_instance

instance (fuel : Nat) : Reads p (goType fuel) := (reads_type_aux fuel).1

instance (fuel : Nat) : Reads p (funcType fuel) := (reads_type_aux fuel).2.1

instance (fuel : Nat) : Reads p (typesUntilParen fuel) := (reads_type_aux fuel).2.2.1

instance (fuel : Nat) : Reads p (typeList fuel) := (reads_type_aux fuel).2.2.2

instance : Reads p readType := .after fun _ => inferInstance

instance : Reads p readResults := .after fun _ => inferInstance

instance : Reads p optionalType := by
  unfold optionalType
  infer_instance

instance : Reads p readResult := by
  unfold readResult
  infer_instance

instance : Reads p parameterType := by
  unfold parameterType
  infer_instance

instance : Reads p readExpr := .after fun _ => inferInstance

instance : Reads p readExprs := .after fun _ => inferInstance

instance : Reads p requireExpr := .after fun _ => inferInstance

theorem reads_importPaths : (fuel : Nat) → Reads p (importPaths fuel)
  | 0 => reads_outOfFuel
  | fuel + 1 => by
      have := reads_importPaths fuel
      rw [importPaths_succ]
      infer_instance

instance (fuel : Nat) : Reads p (importPaths fuel) := reads_importPaths fuel

instance : Reads p importStmt := by
  unfold importStmt
  infer_instance

instance (kind : DeclKind) : Reads p (declStmt kind) :=
  .after fun _ => .after fun _ => .after fun _ => .after fun _ => by
    cases kind <;> infer_instance

instance : Reads p returnStmt := by
  unfold returnStmt
  infer_instance

instance : Reads p throwStmt := by
  unfold throwStmt
  infer_instance

theorem reads_parameters : (fuel : Nat) → Reads p (parameters fuel)
  | 0 => reads_outOfFuel
  | fuel + 1 => by
      have := reads_parameters fuel
      rw [parameters_succ]
      infer_instance

instance (fuel : Nat) : Reads p (parameters fuel) := reads_parameters fuel

instance : Reads p readParameters := by
  unfold readParameters
  infer_instance

instance : Reads p loopCondition := by
  unfold loopCondition
  infer_instance

end Readers

/-! Only the reader of definitions halts because a text has no rendering. -/

section Definitions

variable {p : Halt → Prop} [∀ error, Allows p (.unrenderable error)]

theorem reads_requireIdents (es : List Expr) : Reads p (requireIdents es) := by
  induction es with
  | nil => exact inferInstanceAs (Reads p (pure ()))
  | cons e rest ih =>
      rw [requireIdents]
      split
      · exact ih
      · split <;> infer_instance

instance (es : List Expr) : Reads p (requireIdents es) := reads_requireIdents es

variable [Allows p .outOfFuel]

instance : Reads p expressionStmt := by
  refine .after fun token => .after fun exprs => .after fun next => ?_
  split
  · infer_instance
  split
  · infer_instance
  · split <;> infer_instance

instance : Reads p simpleStmt := by
  unfold simpleStmt
  infer_instance

end Definitions

/-- A step that leaves the waiting comments alone. -/
class Keeps {α : Type} (step : ParseM α) : Prop where
  trailing : ∀ s, (final (step s)).trailing = s.trailing

instance {α : Type} (step : ParseM α) [hReads : Reads Halt.IsAny step] : Keeps step :=
  ⟨hReads.relates (R := fun s s' => s'.trailing = s.trailing) (fun _ => rfl)
    (fun hFirst hThen => hThen.trans hFirst) (fun _ => rfl) (fun _ _ => rfl) fun _ => rfl⟩

end TryGo.Parse
