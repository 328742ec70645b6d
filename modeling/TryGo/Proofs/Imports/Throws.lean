import TryGo.Proofs.Arity.Uses
import TryGo.Proofs.Gate.Lowering

/-! The throws of a program and its imports at top level, as the source has them. Catch clauses
behind a catch-all are dropped, so a throw there is found by a search of the tree and is not
written. -/
namespace TryGo

def Stmt.isThrow : Stmt → Bool
  | .throw _ _ => true
  | _ => false

/-! ### Throws that are written and throws that are dropped -/

mutual

/-- The statements for which nothing is written, because they stand in a catch clause behind a
catch-all. -/
def Stmt.dropped : Stmt → List Stmt
  | .block _ statements => Stmt.allDropped statements
  | .ifElse _ _ consequence alternative => consequence.dropped ++ alternative.dropped
  | .loop _ _ _ _ body | .func _ _ _ _ _ body => body.dropped
  | .tryCatch _ body catches cleanup =>
      body.dropped ++ (Stmt.clausesDropped catches ++ cleanup.dropped)
  | _ => []

def Stmt.allDropped : List Stmt → List Stmt
  | [] => []
  | s :: rest => s.dropped ++ Stmt.allDropped rest

def Stmt.clausesDropped : List Stmt → List Stmt
  | .catchClause _ _ type body :: rest =>
      body.dropped
        ++ (if isTyped type then Stmt.clausesDropped rest else Stmt.clausesHeld rest)
  | _ => []

def Stmt.clausesHeld : List Stmt → List Stmt
  | .catchClause _ _ _ body :: rest => body.emitted ++ (body.dropped ++ Stmt.clausesHeld rest)
  | _ => []

end

def Stmt.throws (s : Stmt) : Bool := s.emitted.any Stmt.isThrow

def Stmt.dropsThrow (s : Stmt) : Bool := s.dropped.any Stmt.isThrow

def Stmt.clausesThrow (catches : List Stmt) : Bool :=
  (Stmt.clausesEmitted catches).any Stmt.isThrow

def Stmt.clausesDropThrow (catches : List Stmt) : Bool :=
  (Stmt.clausesDropped catches).any Stmt.isThrow

section Equations

/-- What is written for statements has a throw if what is written for one of them does. -/
theorem Stmt.any_isThrow_allEmitted (statements : List Stmt) :
    (Stmt.allEmitted statements).any Stmt.isThrow = statements.any Stmt.throws := by
  induction statements with
  | nil => rfl
  | cons s rest ih => rw [Stmt.allEmitted, List.any_append, ih, List.any_cons, Stmt.throws]

/-- What is dropped from statements has a throw if what is dropped from one of them does. -/
theorem Stmt.any_isThrow_allDropped (statements : List Stmt) :
    (Stmt.allDropped statements).any Stmt.isThrow = statements.any Stmt.dropsThrow := by
  induction statements with
  | nil => rfl
  | cons s rest ih => rw [Stmt.allDropped, List.any_append, ih, List.any_cons, Stmt.dropsThrow]

@[simp] theorem Stmt.throws_block (token : Token) (statements : List Stmt) :
    (Stmt.block token statements).throws = statements.any Stmt.throws := by
  rw [Stmt.throws, Stmt.emitted, List.any_cons, Stmt.any_isThrow_allEmitted]
  rfl

@[simp] theorem Stmt.dropsThrow_block (token : Token) (statements : List Stmt) :
    (Stmt.block token statements).dropsThrow = statements.any Stmt.dropsThrow := by
  rw [Stmt.dropsThrow, Stmt.dropped, Stmt.any_isThrow_allDropped]

@[simp] theorem Stmt.throws_ifElse (token : Token) (condition : Expr)
    (consequence alternative : Stmt) :
    (Stmt.ifElse token condition consequence alternative).throws =
      (consequence.throws || alternative.throws) := by
  rw [Stmt.throws, Stmt.emitted, List.any_cons, List.any_append]
  rfl

@[simp] theorem Stmt.dropsThrow_ifElse (token : Token) (condition : Expr)
    (consequence alternative : Stmt) :
    (Stmt.ifElse token condition consequence alternative).dropsThrow =
      (consequence.dropsThrow || alternative.dropsThrow) := by
  rw [Stmt.dropsThrow, Stmt.dropped, List.any_append]
  rfl

@[simp] theorem Stmt.throws_loop (token : Token) (init : Stmt) (condition : Expr)
    (update body : Stmt) : (Stmt.loop token init condition update body).throws = body.throws := by
  rw [Stmt.throws, Stmt.emitted, List.any_cons]
  rfl

@[simp] theorem Stmt.throws_func (token : Token) (name : Expr) (params : List Expr)
    (types : List (Option String)) (result : Option String) (body : Stmt) :
    (Stmt.func token name params types result body).throws = body.throws := by
  rw [Stmt.throws, Stmt.emitted, List.any_cons]
  rfl

@[simp] theorem Stmt.throws_tryCatch (token : Token) (body : Stmt) (catches : List Stmt)
    (cleanup : Stmt) : (Stmt.tryCatch token body catches cleanup).throws =
      (body.throws || (Stmt.clausesThrow catches || cleanup.throws)) := by
  rw [Stmt.throws, Stmt.emitted, List.any_cons, List.any_append, List.any_append]
  rfl

@[simp] theorem Stmt.dropsThrow_tryCatch (token : Token) (body : Stmt) (catches : List Stmt)
    (cleanup : Stmt) : (Stmt.tryCatch token body catches cleanup).dropsThrow =
      (body.dropsThrow || (Stmt.clausesDropThrow catches || cleanup.dropsThrow)) := by
  rw [Stmt.dropsThrow, Stmt.dropped, List.any_append, List.any_append]
  rfl

/-- Behind a clause without a type no clause counts. -/
theorem Stmt.clausesThrow_cons (token : Token) (name : Expr) (type : Option String) (body : Stmt)
    (rest : List Stmt) : Stmt.clausesThrow (.catchClause token name type body :: rest) =
      (body.throws || (isTyped type && Stmt.clausesThrow rest)) := by
  rw [Stmt.clausesThrow, Stmt.clausesEmitted, List.any_append]
  cases isTyped type <;> rfl

/-- Behind a clause without a type everything that the clauses hold is dropped. -/
theorem Stmt.clausesDropThrow_cons (token : Token) (name : Expr) (type : Option String)
    (body : Stmt) (rest : List Stmt) :
    Stmt.clausesDropThrow (.catchClause token name type body :: rest) = (body.dropsThrow
      || if isTyped type then Stmt.clausesDropThrow rest
        else (Stmt.clausesHeld rest).any Stmt.isThrow) := by
  rw [Stmt.clausesDropThrow, Stmt.clausesDropped, List.any_append]
  cases isTyped type <;> rfl

end Equations

/-- A part that is absent has no throws. -/
theorem Stmt.containsThrow_eq_of_missing_or {s : Stmt} (hPart : s.isMissing = true ∨ s.Complete)
    (hSearch : s.Complete → s.containsThrow = (s.throws || s.dropsThrow)) :
    s.containsThrow = (s.throws || s.dropsThrow) := by
  rcases hPart with hMissing | hComplete
  · rw [Stmt.isMissing_cases hMissing]
    rfl
  · exact hSearch hComplete

mutual

/-- The search for a throw finds those that are written and those that are dropped. -/
theorem Stmt.containsThrow_eq : (s : Stmt) → s.Complete →
    s.containsThrow = (s.throws || s.dropsThrow)
  | .missing, hComplete | .bare _, hComplete | .program _ _, hComplete
  | .catchClause _ _ _ _, hComplete =>
      hComplete.elim
  | .throw _ _, _ => rfl
  | .block _ statements, hComplete => by
      rw [Stmt.containsThrow, Stmt.throws_block, Stmt.dropsThrow_block,
        Stmt.anyContainsThrow_eq statements hComplete]
  | .func _ _ _ _ _ body, hComplete => by
      rw [Stmt.containsThrow, body.containsThrow_eq hComplete.2.2.2.2, Stmt.throws_func]
      rfl
  | .loop _ _ _ _ body, hComplete => by
      rw [Stmt.containsThrow, body.containsThrow_eq hComplete.2.2.2.2, Stmt.throws_loop]
      rfl
  | .ifElse _ _ consequence alternative, hComplete => by
      obtain ⟨-, -, hConsequence, hAlternative⟩ := hComplete
      rw [Stmt.containsThrow, consequence.containsThrow_eq hConsequence,
        Stmt.containsThrow_eq_of_missing_or (hAlternative.imp_right And.right)
          alternative.containsThrow_eq,
        Stmt.throws_ifElse, Stmt.dropsThrow_ifElse]
      ac_rfl
  | .tryCatch _ body catches cleanup, hComplete => by
      obtain ⟨-, hBody, hCatches, hCleanup⟩ := hComplete
      rw [Stmt.containsThrow, body.containsThrow_eq hBody,
        Stmt.anyContainsThrow_clauses catches hCatches,
        Stmt.containsThrow_eq_of_missing_or (hCleanup.imp_right And.right)
          cleanup.containsThrow_eq,
        Stmt.throws_tryCatch, Stmt.dropsThrow_tryCatch]
      ac_rfl
  | .package _ _, _ | .imports _ _, _ | .decl _ _ _ _ _, _ | .assign _ _ _ _, _
  | .define _ _ _, _ | .ret _ _, _ | .expr _ _, _ | .incr _ _ _, _ | .branch _, _
  | .comment _ _ _, _ => rfl

/-- A search of statements finds a throw that is written or one that is dropped. -/
theorem Stmt.anyContainsThrow_eq : (statements : List Stmt) → Stmt.AllComplete statements →
    Stmt.anyContainsThrow statements = (statements.any Stmt.throws || statements.any Stmt.dropsThrow)
  | [], _ => rfl
  | s :: rest, hComplete => by
      rw [Stmt.anyContainsThrow, s.containsThrow_eq hComplete.1,
        Stmt.anyContainsThrow_eq rest hComplete.2, List.any_cons, List.any_cons]
      ac_rfl

/-- The same for the clauses of a try. -/
theorem Stmt.anyContainsThrow_clauses : (catches : List Stmt) → Stmt.AllClauses catches →
    Stmt.anyContainsThrow catches = (Stmt.clausesThrow catches || Stmt.clausesDropThrow catches)
  | [], _ => rfl
  | s :: rest, hClauses => by
      cases s with
      | catchClause _ _ type body =>
          obtain ⟨-, -, hBody, hRest⟩ := hClauses
          rw [Stmt.anyContainsThrow, Stmt.containsThrow, body.containsThrow_eq hBody,
            Stmt.clausesThrow_cons, Stmt.clausesDropThrow_cons]
          cases isTyped type with
          | true =>
              rw [Stmt.anyContainsThrow_clauses rest hRest, if_pos rfl, Bool.true_and]
              ac_rfl
          | false =>
              rw [Stmt.anyContainsThrow_held rest hRest, if_neg Bool.false_ne_true, Bool.false_and,
                Bool.or_false, Bool.or_assoc]
      | _ => exact hClauses.elim

/-- A search of clauses goes into all of them, dropped ones too. -/
theorem Stmt.anyContainsThrow_held : (catches : List Stmt) → Stmt.AllClauses catches →
    Stmt.anyContainsThrow catches = (Stmt.clausesHeld catches).any Stmt.isThrow
  | [], _ => rfl
  | s :: rest, hClauses => by
      cases s with
      | catchClause _ _ type body =>
          obtain ⟨-, -, hBody, hRest⟩ := hClauses
          rw [Stmt.anyContainsThrow, Stmt.containsThrow, body.containsThrow_eq hBody,
            Stmt.anyContainsThrow_held rest hRest, Stmt.clausesHeld, List.any_append,
            List.any_append, Stmt.throws, Stmt.dropsThrow, Bool.or_assoc]
      | _ => exact hClauses.elim

end

/-! ### Imports at top level -/

mutual

/-- The paths that are imported by what is written for a statement at top level. The statements
of a cleanup are written at the level of their try. -/
def Stmt.topImports : Stmt → List String
  | .imports _ paths => paths
  | .tryCatch _ _ _ cleanup => cleanup.heldImports
  | _ => []

/-- The paths that the statements in a block import if they are written at top level. -/
def Stmt.heldImports : Stmt → List String
  | .block _ statements | .program _ statements => Stmt.allTopImports statements
  | _ => []

def Stmt.allTopImports : List Stmt → List String
  | [] => []
  | s :: rest => s.topImports ++ Stmt.allTopImports rest

end

/-- Whether some paths were put between others, all in one place. -/
def AddsPaths (added before after : List String) : Prop :=
  ∃ front back, before = front ++ back ∧ after = front ++ (added ++ back)

/-- Paths that stay in front make no difference. -/
theorem AddsPaths.behind {added before after : List String} (hAdds : AddsPaths added before after)
    (paths : List String) : AddsPaths added (paths ++ before) (paths ++ after) := by
  obtain ⟨front, back, rfl, rfl⟩ := hAdds
  exact ⟨paths ++ front, back, (List.append_assoc _ _ _).symm, (List.append_assoc _ _ _).symm⟩

/-- Adding something changes what is imported. -/
theorem AddsPaths.not_same {added paths : List String} (hAdded : added ≠ []) :
    ¬AddsPaths added paths paths := by
  rintro ⟨front, back, rfl, hSame⟩
  have hLengths := congrArg List.length (List.append_cancel_left hSame)
  rw [List.length_append] at hLengths
  have hPositive := List.length_pos_iff.mpr hAdded
  omega

/-- What is added is imported afterwards. -/
theorem AddsPaths.mem_added {added before after : List String} (hAdds : AddsPaths added before after)
    {path : String} (hMem : path ∈ added) : path ∈ after := by
  obtain ⟨front, back, -, rfl⟩ := hAdds
  exact List.mem_append_right _ (List.mem_append_left _ hMem)

/-- What was imported stays imported. -/
theorem AddsPaths.mem_before {added before after : List String}
    (hAdds : AddsPaths added before after) {path : String} (hMem : path ∈ before) :
    path ∈ after := by
  obtain ⟨front, back, rfl, rfl⟩ := hAdds
  rcases List.mem_append.mp hMem with hFront | hBack
  · exact List.mem_append_left _ hFront
  · exact List.mem_append_right _ (List.mem_append_right _ hBack)

namespace Lower

/-- Extending the first import adds the paths to what is imported at the top. -/
theorem addsPaths_extendFirstImport {missing : List String} {statements extended : List Stmt}
    (hExtended : extendFirstImport missing statements = some extended) :
    AddsPaths missing (Stmt.allTopImports statements) (Stmt.allTopImports extended) := by
  fun_induction extendFirstImport missing statements generalizing extended with
  | case1 => cases hExtended
  | case2 token paths rest =>
      cases hExtended
      exact ⟨paths, Stmt.allTopImports rest, rfl, List.append_assoc _ _ _⟩
  | case3 first rest hOther ih =>
      obtain ⟨tail, hTail, rfl⟩ := Option.map_eq_some_iff.mp hExtended
      exact (ih hTail).behind first.topImports

/-- A new import adds its paths to what is imported at the top. -/
theorem addsPaths_insertAfterPackage {token : Token} {paths : List String}
    {statements inserted : List Stmt}
    (hInserted : insertAfterPackage (.imports token paths) statements = some inserted) :
    AddsPaths paths (Stmt.allTopImports statements) (Stmt.allTopImports inserted) := by
  fun_induction insertAfterPackage (.imports token paths) statements generalizing inserted with
  | case1 => cases hInserted
  | case2 =>
      cases hInserted
      exact ⟨[], _, rfl, rfl⟩
  | case3 first rest hOther ih =>
      obtain ⟨tail, hTail, rfl⟩ := Option.map_eq_some_iff.mp hInserted
      exact (ih hTail).behind first.topImports

/-- The error packages that no top-level import names. -/
def absentPackages (statements : List Stmt) : List String :=
  errorPackages.filter fun path => !(importedPaths statements).contains path

/-- In a program with a throw the absent packages are added to the imports in one place. -/
theorem addsPaths_withErrorImports {program : Program} (hThrow : program.containsThrow = true) :
    AddsPaths (absentPackages program.statements) (Stmt.allTopImports program.statements)
      (Stmt.allTopImports (withErrorImports program)) := by
  have hMissing : missingPackages program = absentPackages program.statements := if_pos hThrow
  rw [← hMissing, withErrorImports]
  split
  next hEmpty =>
    rw [List.isEmpty_iff.mp hEmpty]
    exact ⟨[], _, rfl, rfl⟩
  split
  next hExtended => exact addsPaths_extendFirstImport hExtended
  next =>
    cases hInserted : insertAfterPackage (.imports program.token (missingPackages program))
        program.statements with
    | none => exact ⟨[], _, rfl, rfl⟩
    | some inserted => exact addsPaths_insertAfterPackage hInserted

/-- A program without a throw keeps its statements. -/
theorem withErrorImports_of_no_throw {program : Program} (hThrow : program.containsThrow = false) :
    withErrorImports program = program.statements := by
  rw [withErrorImports, missingPackages, hThrow]
  rfl

/-- What a statement imports is imported at the top. -/
theorem mem_allTopImports_of_imported {statements : List Stmt} {path : String}
    (hMem : path ∈ importedPaths statements) : path ∈ Stmt.allTopImports statements := by
  induction statements with
  | nil => exact hMem
  | cons s rest ih =>
      rw [Stmt.allTopImports, List.mem_append]
      cases s with
      | imports token paths => exact (List.mem_append.mp hMem).imp_right ih
      | _ => exact .inr (ih hMem)

/-- A package that throws need is absent or imported already. -/
theorem mem_absentPackages_or {path : String} (hPath : path ∈ errorPackages)
    (statements : List Stmt) :
    path ∈ absentPackages statements ∨ path ∈ Stmt.allTopImports statements := by
  by_cases hImported : path ∈ importedPaths statements
  · exact .inr (mem_allTopImports_of_imported hImported)
  · refine .inl (List.mem_filter.mpr ⟨hPath, ?_⟩)
    rw [List.contains_eq_mem, decide_eq_false hImported]
    rfl

end Lower

end TryGo
