import TryGo.Proofs.Tree.Shape

/-! The nodes that parsing makes. Trees may come from elsewhere and then hold any node anywhere,
but those that were read have statements in the places of statements, one of the simple ones in
each clause of a loop header, clauses behind a try and only expressions in expressions. All of a
tree's nodes are of this kind if its statements are. -/
namespace TryGo

mutual

/-- Whether an expression is built of expressions alone, holes included. -/
def Expr.Native : Expr → Prop
  | .missing | .ident _ _ | .int _ _ | .float _ _ | .str _ _ _ | .char _ _ | .bool _ _
  | .nil _ => True
  | .unary _ _ operand => operand.Native
  | .binary _ left _ right => left.Native ∧ right.Native
  | .call _ callee args => callee.Native ∧ Expr.AllNative args
  | .select _ left field => left.Native ∧ field.isIdent = true
  | .index _ left position => left.Native ∧ position.Native
  | .foreign _ _ _ => False

def Expr.AllNative : List Expr → Prop
  | [] => True
  | e :: es => e.Native ∧ Expr.AllNative es

end

mutual

/-- Whether a node is a statement whose places all hold what parsing puts there. -/
def Stmt.Native : Stmt → Prop
  | .missing | .catchClause _ _ _ _ | .bare _ | .program _ _ => False
  | .package _ _ | .imports _ _ | .comment _ _ _ => True
  | .decl _ _ name _ value => name.isIdent = true ∧ value.Native
  | .assign _ targets _ values => Expr.AllNative targets ∧ Expr.AllNative values
  | .define _ names values => (∀ name ∈ names, name.isIdent = true) ∧ Expr.AllNative values
  | .ret _ values => Expr.AllNative values
  | .expr _ value | .incr _ value _ | .throw _ value => value.Native
  | .branch token => token.kind = .kwBreak ∨ token.kind = .kwContinue
  | .block _ statements => Stmt.AllNative statements
  | .ifElse _ condition consequence alternative =>
      condition.Native ∧ (consequence.isBlock = true ∧ consequence.Native)
        ∧ (alternative.isMissing = true
          ∨ (alternative.isBlock || alternative.isConditional) = true ∧ alternative.Native)
  | .loop _ init condition update body =>
      (init.isMissing = true ∨ init.isSimple = true ∧ init.Native) ∧ condition.Native
        ∧ (update.isMissing = true ∨ update.isSimple = true ∧ update.Native)
        ∧ body.isBlock = true ∧ body.Native
  | .func _ name params _ _ body =>
      name.isIdent = true ∧ (∀ param ∈ params, param.isIdent = true)
        ∧ body.isBlock = true ∧ body.Native
  | .tryCatch _ body catches cleanup =>
      (body.isBlock = true ∧ body.Native) ∧ Stmt.AllClausesNative catches
        ∧ (cleanup.isMissing = true ∨ cleanup.isBlock = true ∧ cleanup.Native)

def Stmt.AllNative : List Stmt → Prop
  | [] => True
  | s :: rest => s.Native ∧ Stmt.AllNative rest

/-- Whether some nodes are catch clauses that bind a name or nothing. -/
def Stmt.AllClausesNative : List Stmt → Prop
  | [] => True
  | .catchClause _ name _ body :: rest =>
      (name.isMissing || name.isIdent) = true ∧ (body.isBlock = true ∧ body.Native)
        ∧ Stmt.AllClausesNative rest
  | _ :: _ => False

end

namespace Expr

theorem allNative_iff {es : List Expr} : AllNative es ↔ ∀ e ∈ es, e.Native := by
  induction es with
  | nil => simp [AllNative]
  | cons e es ih => rw [AllNative, ih, List.forall_mem_cons]

theorem AllNative.append {es more : List Expr} (hFirst : AllNative es) (hMore : AllNative more) :
    AllNative (es ++ more) := by
  rw [allNative_iff] at hFirst hMore ⊢
  exact List.forall_mem_append.mpr ⟨hFirst, hMore⟩

/-- A name is native. -/
theorem Native.of_isIdent {e : Expr} (hIdent : e.isIdent = true) : e.Native := by
  cases e with
  | ident => trivial
  | _ => cases hIdent

/-- What a clause binds is native, be it nothing. -/
theorem Native.of_binding {e : Expr} (hBinding : (e.isMissing || e.isIdent) = true) :
    e.Native := by
  cases e with
  | missing | ident => trivial
  | _ => cases hBinding

theorem AllNative.of_isIdent {es : List Expr} (hIdents : ∀ e ∈ es, e.isIdent = true) :
    AllNative es :=
  allNative_iff.mpr fun e hMem => .of_isIdent (hIdents e hMem)

mutual

/-- A native expression has a Go form. -/
theorem Native.hasLongField : (e : Expr) → e.Native → e.hasLongField = false
  | .missing, _ | .ident _ _, _ | .int _ _, _ | .float _ _, _ | .str _ _ _, _ | .char _ _, _
  | .bool _ _, _ | .nil _, _ => rfl
  | .unary _ _ operand, hNative => Native.hasLongField operand hNative
  | .binary _ left _ right, hNative | .index _ left right, hNative => by
      rw [Expr.hasLongField, Native.hasLongField left hNative.1,
        Native.hasLongField right hNative.2]
      rfl
  | .call _ callee args, hNative => by
      rw [Expr.hasLongField, Native.hasLongField callee hNative.1,
        AllNative.anyLongField args hNative.2]
      rfl
  | .select _ left field, hNative => by
      rw [Expr.hasLongField, Native.hasLongField left hNative.1,
        hasLongInteger_of_isIdent hNative.2]
      rfl
  | .foreign _ _ _, hNative => hNative.elim

/-- Native expressions have no field that is too long. -/
theorem AllNative.anyLongField : (es : List Expr) → AllNative es → anyLongField es = false
  | [], _ => rfl
  | e :: es, hNative => by
      rw [Expr.anyLongField, Native.hasLongField e hNative.1,
        AllNative.anyLongField es hNative.2]
      rfl

end

end Expr

namespace Stmt

theorem allNative_iff {statements : List Stmt} :
    AllNative statements ↔ ∀ s ∈ statements, s.Native := by
  induction statements with
  | nil => simp [AllNative]
  | cons s rest ih => rw [AllNative, ih, List.forall_mem_cons]

/-- A statement that is left out has any shape. -/
theorem Shaped.of_isMissing {s : Stmt} (hMissing : s.isMissing = true) : s.Shaped := by
  cases s with
  | missing => trivial
  | _ => cases hMissing

mutual

/-- Native statements are well-shaped. -/
theorem Native.shaped : (s : Stmt) → s.Native → s.Shaped
  | .missing, hNative | .catchClause _ _ _ _, hNative | .bare _, hNative
  | .program _ _, hNative => hNative.elim
  | .package _ _, _ | .imports _ _, _ | .comment _ _ _, _ => trivial
  | .decl _ _ _ _ _, hNative => ⟨hNative.1, hNative.2.hasLongField⟩
  | .assign _ _ _ _, hNative => ⟨hNative.1.anyLongField, hNative.2.anyLongField⟩
  | .define _ _ _, hNative => ⟨hNative.1, hNative.2.anyLongField⟩
  | .ret _ values, hNative => Expr.AllNative.anyLongField values hNative
  | .expr _ value, hNative | .incr _ value _, hNative | .throw _ value, hNative =>
      Expr.Native.hasLongField value hNative
  | .branch _, hNative => hNative
  | .block _ statements, hNative => AllNative.allShaped statements hNative
  | .ifElse _ _ consequence alternative, hNative => by
      have hAlternative := hNative.2.2
      refine ⟨hNative.1.hasLongField, hNative.2.1.1, Native.shaped consequence hNative.2.1.2, ?_,
        ?_⟩
      · rcases hAlternative with hMissing | ⟨hForm, -⟩
        · rw [hMissing, Bool.true_or, Bool.true_or]
        · rw [Bool.or_assoc, hForm, Bool.or_true]
      · rcases hAlternative with hMissing | ⟨-, hNative⟩
        · exact .of_isMissing hMissing
        · exact Native.shaped alternative hNative
  | .loop _ init _ update body, hNative => by
      have hBody := hNative.2.2.2
      refine ⟨?_, hNative.2.1.hasLongField, ?_, hBody.1, Native.shaped body hBody.2⟩
      · rcases hNative.1 with hMissing | ⟨-, hNative⟩
        · exact .of_isMissing hMissing
        · exact Native.shaped init hNative
      · rcases hNative.2.2.1 with hMissing | ⟨-, hNative⟩
        · exact .of_isMissing hMissing
        · exact Native.shaped update hNative
  | .func _ _ _ _ _ body, hNative =>
      ⟨hNative.1, hNative.2.1, hNative.2.2.1, Native.shaped body hNative.2.2.2⟩
  | .tryCatch _ body catches cleanup, hNative => by
      have hCleanup := hNative.2.2
      refine ⟨hNative.1.1, Native.shaped body hNative.1.2,
        AllClausesNative.shaped catches hNative.2.1, ?_, ?_⟩
      · rcases hCleanup with hMissing | ⟨hBlock, -⟩
        · rw [hMissing, Bool.true_or]
        · rw [hBlock, Bool.or_true]
      · rcases hCleanup with hMissing | ⟨-, hNative⟩
        · exact .of_isMissing hMissing
        · exact Native.shaped cleanup hNative

/-- Native statements have the shape that lowering asks for. -/
theorem AllNative.allShaped : (statements : List Stmt) → AllNative statements →
    AllShaped statements
  | [], _ => trivial
  | s :: rest, hNative => ⟨Native.shaped s hNative.1, AllNative.allShaped rest hNative.2⟩

theorem AllClausesNative.shaped : (clauses : List Stmt) → AllClausesNative clauses →
    AllClausesShaped clauses
  | [], _ => trivial
  | s :: rest, hNative => by
      cases s with
      | catchClause token name type body =>
        exact ⟨hNative.1, hNative.2.1.1, Native.shaped body hNative.2.1.2,
          AllClausesNative.shaped rest hNative.2.2⟩
      | _ => exact hNative.elim

end

end Stmt

end TryGo
