import TryGo.Proofs.Imports.Throws

/-! What adding the packages of a lowered throw does to the statements of a program. It happens in
one place, nothing else changes, and taking the addition out again gives back what was there. -/
namespace TryGo

def Stmt.isImport : Stmt → Bool
  | .imports _ _ => true
  | _ => false

def Stmt.isPackage : Stmt → Bool
  | .package _ _ => true
  | _ => false

/-- An import of more packages, behind those that it imports already. -/
def Stmt.addPaths (added : List String) : Stmt → Stmt
  | .imports token paths => .imports token (paths ++ added)
  | s => s

/-- An import without the last of its packages. -/
def Stmt.dropPaths (count : Nat) : Stmt → Stmt
  | .imports token paths => .imports token (paths.take (paths.length - count))
  | s => s

/-- Taking as many paths away as were added gives the import back. -/
theorem Stmt.dropPaths_addPaths (added : List String) (s : Stmt) :
    (s.addPaths added).dropPaths added.length = s := by
  cases s with
  | imports token paths =>
      rw [addPaths, dropPaths, List.length_append, Nat.add_sub_cancel, List.take_left]
  | _ => rfl

namespace Lower

/-- Where a new import goes: right behind the first package clause, or in front of everything. -/
def newImportIdx (statements : List Stmt) : Nat :=
  ((statements.findIdx? Stmt.isPackage).map (· + 1)).getD 0

/-- Packages are added to the imports of some statements: to the first statement that imports, or
else by a new import. Taking them out of that statement, or taking the new one out, gives back the
statements. -/
structure AddsImports (token : Token) (added : List String) (before after : List Stmt) : Prop where
  extended : ∀ index, before.findIdx? Stmt.isImport = some index →
    after = before.modify index (Stmt.addPaths added) ∧
      after.modify index (Stmt.dropPaths added.length) = before
  inserted : before.findIdx? Stmt.isImport = none →
    newImportIdx before ≤ before.length ∧
      after = before.insertIdx (newImportIdx before) (.imports token added) ∧
        after.eraseIdx (newImportIdx before) = before

section Place

/-- The first import is extended in its place, and if there is none nothing is. -/
theorem extendFirstImport_eq (missing : List String) (statements : List Stmt) :
    extendFirstImport missing statements = (statements.findIdx? Stmt.isImport).map fun index =>
      statements.modify index (Stmt.addPaths missing) := by
  fun_induction extendFirstImport missing statements with
  | case1 => rfl
  | case2 => rfl
  | case3 first rest hOther ih =>
      have hFirst : first.isImport = false := by
        cases first with
        | imports token paths => exact (hOther token paths rfl).elim
        | _ => rfl
      rw [ih, List.findIdx?_cons, hFirst, Option.map_map]
      simp only [Bool.false_eq_true, if_false, Option.map_map]
      rfl

/-- The new import comes right behind the first package clause. -/
theorem insertAfterPackage_eq (added : Stmt) (statements : List Stmt) :
    insertAfterPackage added statements = (statements.findIdx? Stmt.isPackage).map fun index =>
      statements.insertIdx (index + 1) added := by
  fun_induction insertAfterPackage added statements with
  | case1 => rfl
  | case2 => rfl
  | case3 first rest hOther ih =>
      have hFirst : first.isPackage = false := by
        cases first with
        | package token name => exact (hOther token name rfl).elim
        | _ => rfl
      rw [ih, List.findIdx?_cons, hFirst, Option.map_map]
      simp only [Bool.false_eq_true, if_false, Option.map_map]
      rfl

/-- A program without a package clause gets the new import in front of everything. -/
theorem insertAfterPackage_getD (added : Stmt) (statements : List Stmt) :
    (insertAfterPackage added statements).getD (added :: statements) =
      statements.insertIdx (newImportIdx statements) added := by
  rw [insertAfterPackage_eq, newImportIdx]
  cases statements.findIdx? Stmt.isPackage <;> rfl

theorem newImportIdx_le_length (statements : List Stmt) :
    newImportIdx statements ≤ statements.length := by
  rw [newImportIdx]
  cases hFound : statements.findIdx? Stmt.isPackage with
  | none => exact Nat.zero_le _
  | some index => exact (List.findIdx?_eq_some_iff_getElem.mp hFound).1

end Place

section Paths

/-- What is imported is counted statement by statement. -/
theorem importedPaths_cons (first : Stmt) (rest : List Stmt) :
    importedPaths (first :: rest) = importedPaths [first] ++ importedPaths rest := by
  cases first with
  | imports token paths => rw [importedPaths, importedPaths, importedPaths, List.append_nil]
  | _ => rfl

/-- An import that was extended imports the missing paths too, and each of them once. -/
theorem importedPaths_extendFirstImport {missing : List String} {statements extended : List Stmt}
    (hExtended : extendFirstImport missing statements = some extended) :
    (importedPaths extended).Perm (missing ++ importedPaths statements) := by
  fun_induction extendFirstImport missing statements generalizing extended with
  | case1 => cases hExtended
  | case2 token paths rest =>
      cases hExtended
      rw [importedPaths, importedPaths, List.append_assoc]
      exact List.perm_append_comm_assoc _ _ _
  | case3 first rest hOther ih =>
      obtain ⟨tail, hTail, rfl⟩ := Option.map_eq_some_iff.mp hExtended
      rw [importedPaths_cons, importedPaths_cons first rest]
      exact ((ih hTail).append_left _).trans (List.perm_append_comm_assoc _ _ _)

/-- A new import imports its paths next to those that were there. -/
theorem importedPaths_insertAfterPackage {token : Token} {paths : List String}
    {statements inserted : List Stmt}
    (hInserted : insertAfterPackage (.imports token paths) statements = some inserted) :
    (importedPaths inserted).Perm (paths ++ importedPaths statements) := by
  fun_induction insertAfterPackage (.imports token paths) statements generalizing inserted with
  | case1 => cases hInserted
  | case2 =>
      cases hInserted
      exact .refl _
  | case3 first rest hOther ih =>
      obtain ⟨tail, hTail, rfl⟩ := Option.map_eq_some_iff.mp hInserted
      rw [importedPaths_cons, importedPaths_cons first rest]
      exact ((ih hTail).append_left _).trans (List.perm_append_comm_assoc _ _ _)

/-- Every path that is added is imported once more than before. -/
theorem importedPaths_withErrorImports (program : Program) :
    (importedPaths (withErrorImports program)).Perm
      (missingPackages program ++ importedPaths program.statements) := by
  rw [withErrorImports]
  split
  next hEmpty => rw [List.isEmpty_iff.mp hEmpty]; exact .refl _
  split
  next hExtended => exact importedPaths_extendFirstImport hExtended
  next =>
    cases hInserted : insertAfterPackage (.imports program.token (missingPackages program))
        program.statements with
    | none => exact .refl _
    | some inserted => exact importedPaths_insertAfterPackage hInserted

theorem nodup_errorPackages : errorPackages.Nodup := by decide

/-- A package is absent if it is needed and no import of the source has it. -/
theorem mem_absentPackages {statements : List Stmt} {path : String} :
    path ∈ absentPackages statements ↔ path ∈ errorPackages ∧ path ∉ importedPaths statements := by
  rw [absentPackages, List.mem_filter, List.contains_eq_mem, Bool.not_eq_true',
    decide_eq_false_iff_not]

/-- A package is absent once or not at all. -/
theorem count_absentPackages (path : String) (statements : List Stmt) :
    (absentPackages statements).count path =
      if path ∈ errorPackages ∧ path ∉ importedPaths statements then 1 else 0 := by
  have hNodup : (absentPackages statements).Nodup := nodup_errorPackages.filter _
  rw [List.Nodup.count hNodup]
  exact if_congr mem_absentPackages rfl rfl

end Paths

variable {program : Program}

/-- A throw needs every package that is absent. -/
theorem missingPackages_of_throw (hThrow : program.containsThrow = true) :
    missingPackages program = absentPackages program.statements := if_pos hThrow

/-- With a throw and a package that is absent, either the first import is extended or a new one
comes in. -/
theorem addsImports_withErrorImports (hThrow : program.containsThrow = true)
    (hAbsent : absentPackages program.statements ≠ []) :
    AddsImports program.token (absentPackages program.statements) program.statements
      (withErrorImports program) := by
  have hSome : (absentPackages program.statements).isEmpty = false :=
    List.isEmpty_eq_false_iff.mpr hAbsent
  rw [withErrorImports, missingPackages_of_throw hThrow, hSome, extendFirstImport_eq]
  refine ⟨fun index hFound => ?_, fun hFound => ?_⟩
  · rw [hFound]
    refine ⟨rfl, (List.modify_modify_eq _ _ _ _).trans ?_⟩
    have hUndo : Stmt.dropPaths (absentPackages program.statements).length ∘
        Stmt.addPaths (absentPackages program.statements) = id :=
      funext (Stmt.dropPaths_addPaths _)
    rw [hUndo, List.modify_id]
  · rw [hFound]
    refine ⟨newImportIdx_le_length _, insertAfterPackage_getD _ _, ?_⟩
    change ((insertAfterPackage _ _).getD _).eraseIdx _ = _
    rw [insertAfterPackage_getD, List.eraseIdx_insertIdx_self]

/-- Importing the packages of a lowered throw only adds. Without a throw nothing changes. With one
both packages are imported in the end. Each of them is added once if no import at top level had it
and otherwise not at all, and of other paths there are as many as before. All that is added goes
to the first import, behind its own paths, or else to a new import right behind the first package
clause, or else in front of everything. -/
theorem withErrorImports_only_adds (program : Program) :
    (program.containsThrow = false → withErrorImports program = program.statements) ∧
    (program.containsThrow = true →
      "errors" ∈ importedPaths (withErrorImports program) ∧
      "fmt" ∈ importedPaths (withErrorImports program) ∧
      (∀ path, (importedPaths (withErrorImports program)).count path =
        (importedPaths program.statements).count path +
          if path ∈ ["errors", "fmt"] ∧ path ∉ importedPaths program.statements then 1 else 0) ∧
      (absentPackages program.statements = [] → withErrorImports program = program.statements) ∧
      (absentPackages program.statements ≠ [] →
        AddsImports program.token (absentPackages program.statements) program.statements
          (withErrorImports program))) := by
  refine ⟨withErrorImports_of_no_throw, fun hThrow => ?_⟩
  have hPerm := importedPaths_withErrorImports program
  rw [missingPackages_of_throw hThrow] at hPerm
  have hMem : ∀ path ∈ errorPackages, path ∈ importedPaths (withErrorImports program) := by
    intro path hPath
    rw [hPerm.mem_iff, List.mem_append, mem_absentPackages]
    exact or_iff_not_imp_right.mpr fun hAbsent => ⟨hPath, hAbsent⟩
  refine ⟨hMem _ (by decide), hMem _ (by decide), fun path => ?_, fun hNone => ?_,
    addsImports_withErrorImports hThrow⟩
  · rw [hPerm.count_eq, List.count_append, count_absentPackages, Nat.add_comm]
    rfl
  · rw [withErrorImports, missingPackages_of_throw hThrow, hNone]
    rfl

/-- The first import is extended, though a later one has the other package already. -/
example (t : Token) : withErrorImports ⟨t, [.package t "main", .imports t ["os"],
      .imports t ["fmt"], .throw t .missing]⟩ =
    [.package t "main", .imports t ["os", "errors"], .imports t ["fmt"], .throw t .missing] := rfl

end Lower

end TryGo
