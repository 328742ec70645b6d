import TryGo.Lower.Analysis

/-! Making sure that the packages are imported which a lowered throw refers to. -/
namespace TryGo.Lower

/-- The packages that a lowered throw refers to. -/
def errorPackages : List String := ["errors", "fmt"]

def importedPaths : List Stmt → List String
  | [] => []
  | .imports _ paths :: rest => paths ++ importedPaths rest
  | _ :: rest => importedPaths rest

/-- Adds paths to the first import statement. There may be none. -/
def extendFirstImport (missing : List String) : List Stmt → Option (List Stmt)
  | [] => none
  | .imports token paths :: rest => some (.imports token (paths ++ missing) :: rest)
  | s :: rest => (extendFirstImport missing rest).map (s :: ·)

/-- Puts a statement right after the first package statement. There may be none. -/
def insertAfterPackage (added : Stmt) : List Stmt → Option (List Stmt)
  | [] => none
  | .package token name :: rest => some (.package token name :: added :: rest)
  | s :: rest => (insertAfterPackage added rest).map (s :: ·)

/-- The packages that a program lacks for the throws in it. -/
def missingPackages (program : Program) : List String :=
  if program.containsThrow then
    errorPackages.filter fun path => !(importedPaths program.statements).contains path
  else []

/-- The statements of a program with the packages that it lacks imported: by its first
statement that imports, or else by a new one after the package clause, or else by a new one
in front of everything. -/
def withErrorImports (program : Program) : List Stmt :=
  let missing := missingPackages program
  let added := Stmt.imports program.token missing
  if missing.isEmpty then program.statements
  else
    match extendFirstImport missing program.statements with
    | some statements => statements
    | none => (insertAfterPackage added program.statements).getD (added :: program.statements)

end TryGo.Lower
