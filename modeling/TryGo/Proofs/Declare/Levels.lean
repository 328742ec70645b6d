import TryGo.Proofs.Arity.Uses

/-! The names of the blocks of a function. A variable, a constant or a parameter may not have a
name that its block has already, and a short definition has to bring a new one. The names are
counted twice: along the lines of Go source, and along the tree of a source, where the names that
lowering brings in may be counted in the places where it puts them. -/
namespace TryGo

/-! ### The names of one block -/

namespace Level

/-- The names of a block after a variable, a constant or a parameter, unless the block has that
name already. The blank name is no name and may be given again. -/
def declare (level : List String) (name : String) : Option (List String) :=
  if name != "_" && level.contains name then none else some (name :: level)

/-- The names of a block after a short definition, unless it brings no new one. -/
def define (level names : List String) : Option (List String) :=
  if names.any fun name => name != "_" && !level.contains name then some (names ++ level) else none

theorem mem_of_declare {level after : List String} {name : String}
    (hAfter : declare level name = some after) (other : String) :
    other ∈ after ↔ other = name ∨ other ∈ level := by
  rw [declare] at hAfter
  split at hAfter
  · cases hAfter
  · cases hAfter
    exact List.mem_cons

theorem mem_of_define {level names after : List String} (hAfter : define level names = some after)
    (other : String) : other ∈ after ↔ other ∈ names ∨ other ∈ level := by
  rw [define] at hAfter
  split at hAfter
  · cases hAfter
    exact List.mem_append
  · cases hAfter

theorem mem_of_foldlM_declare {level names after : List String}
    (hAfter : names.foldlM declare level = some after) (other : String) :
    other ∈ after ↔ other ∈ names ∨ other ∈ level := by
  induction names generalizing level with
  | nil =>
      cases hAfter
      simp
  | cons name rest ih =>
      rw [List.foldlM_cons] at hAfter
      obtain ⟨middle, hMiddle, hRest⟩ := Option.bind_eq_some_iff.mp hAfter
      rw [ih hRest, mem_of_declare hMiddle, List.mem_cons, or_left_comm, or_assoc]

/-- A name that is not blank is new in an empty block. -/
theorem define_singleton_nil {name : String} (hName : name ≠ "_") :
    define [] [name] = some [name] := by
  simp [define, hName]

/-- The error of a try comes in once. -/
theorem define_err {level : List String} (hNew : "err" ∉ level) :
    define level ["err"] = some (level.insert "err") := by
  rw [List.insert_of_not_mem hNew]
  simp [define, hNew]

end Level

/-! ### Lines -/

/-- The names of the block in which a line stands after that line, unless it declares a name
again. A line that opens a block counts with what stands in front of the brace. -/
def Go.Code.declareIn (level : List String) : Go.Code → Option (List String)
  | .decl _ name _ _ => Level.declare level name
  | .define names _ => Level.define level names
  | .tryOpen reuse => if reuse then some level else Level.define level ["err"]
  | .bindErr name => Level.define level [name]
  | _ => some level

/-- Whether a line starts with the brace that closes a block. -/
def Go.Code.closes : Go.Code → Bool
  | .close | .tryClose | .elseOpen => true
  | .ifOpen chained _ | .catchOpen chained _ _ => chained
  | _ => false

/-- The line that opens a function or a loop. Of such a line there is only the text, so what it
declares stands beside it: parameters as variables, and the clauses of a loop as the lines
that they would be. -/
structure Heading where
  line : Go.Code
  declarations : List Go.Code
deriving DecidableEq

/-- The names that a heading declares, unless it declares one again. -/
def Heading.level (heading : Heading) : Option (List String) :=
  heading.declarations.foldlM Go.Code.declareIn []

/-- The blocks that are open somewhere in a text, given by their names with the innermost first,
and the headings that are still to come. -/
structure OpenBlocks where
  levels : List (List String)
  headings : List Heading
deriving DecidableEq

namespace OpenBlocks

def leave (blocks : OpenBlocks) (code : Go.Code) : OpenBlocks :=
  if code.closes then { blocks with levels := blocks.levels.tail } else blocks

/-- Adds the names of a line to the innermost block, if it may have them. -/
def declare (blocks : OpenBlocks) (code : Go.Code) : Option OpenBlocks :=
  match blocks.levels with
  | [] => none
  | level :: outer =>
      (code.declareIn level).map fun after => { blocks with levels := after :: outer }

/-- Enters a block if the line opens one. The parameters of a function belong to the block of its
body. The names of a loop and those of a type test are in a block of their own around the
body. -/
def enter (blocks : OpenBlocks) (code : Go.Code) : Option OpenBlocks :=
  match code with
  | .funcOpen _ =>
      match blocks.headings with
      | [] => none
      | heading :: later =>
          if heading.line = code then heading.level.map fun own => ⟨own :: blocks.levels, later⟩
          else none
  | .forOpen _ =>
      match blocks.headings with
      | [] => none
      | heading :: later =>
          if heading.line = code then heading.level.map fun _ => ⟨[] :: blocks.levels, later⟩
          else none
  | .catchOpen _ binding _ =>
      (Level.define [] [binding, "ok"]).map fun _ => { blocks with levels := [] :: blocks.levels }
  | .blockOpen | .ifOpen _ _ | .elseOpen | .tryOpen _ | .errCheck =>
      some { blocks with levels := [] :: blocks.levels }
  | _ => some blocks

/-- Goes over a line, if it declares no name again. -/
def line (blocks : OpenBlocks) (code : Go.Code) : Option OpenBlocks :=
  ((blocks.leave code).declare code).bind fun inner => inner.enter code

/-- Goes over the lines of a text, if none of them declares a name again. -/
def lines (blocks : OpenBlocks) (codes : List Go.Code) : Option OpenBlocks :=
  codes.foldlM line blocks

theorem lines_append (blocks : OpenBlocks) (codes more : List Go.Code) :
    blocks.lines (codes ++ more) = (blocks.lines codes).bind fun inner => inner.lines more :=
  List.foldlM_append

theorem lines_singleton (blocks : OpenBlocks) (code : Go.Code) :
    blocks.lines [code] = blocks.line code := by
  rw [lines, List.foldlM_cons]
  exact bind_pure _

end OpenBlocks

/-- Whether a text leaves all blocks that it enters and has no block in which a name is declared
again. Its headings come in their order. -/
def Go.DeclaresOnce (headings : List Heading) (codes : List Go.Code) : Prop :=
  OpenBlocks.lines ⟨[[]], headings⟩ codes = some ⟨[[]], []⟩

instance (headings : List Heading) (codes : List Go.Code) :
    Decidable (Go.DeclaresOnce headings codes) := inferInstanceAs (Decidable (_ = _))

/-! ### Headings -/

def clauseLines (s : Stmt) : List Go.Code := if s.isMissing then [] else [Lower.simpleCode s]

def clauseCodeText (s : Stmt) : String :=
  if s.isMissing then "" else (Lower.simpleCode s).text

/-- The header of a loop without its brace. -/
def loopText (init : Stmt) (condition : Expr) (update : Stmt) : String :=
  if init.isMissing && update.isMissing then
    if condition.isMissing then "for" else "for " ++ condition.go
  else
    let conditionText := if condition.isMissing then "" else condition.go
    String.ofList (Text.trimRight ("for " ++ clauseCodeText init ++ "; " ++ conditionText ++ "; "
      ++ clauseCodeText update).toList)

def Stmt.heading? : Stmt → Option Heading
  | .func _ name params types result body =>
      some ⟨.funcOpen (signatureText name params types (Lower.emittedResult result body)),
        params.map fun param => .decl .var param.text none none⟩
  | .loop _ init condition update _ =>
      some ⟨.forOpen (loopText init condition update), clauseLines init ++ clauseLines update⟩
  | _ => none

/-- The headings in what is written for a statement, in their order. -/
def Stmt.headings (s : Stmt) : List Heading := s.emitted.filterMap Stmt.heading?

def Stmt.allHeadings (statements : List Stmt) : List Heading :=
  (Stmt.allEmitted statements).filterMap Stmt.heading?

def Stmt.clausesHeadings (catches : List Stmt) : List Heading :=
  (Stmt.clausesEmitted catches).filterMap Stmt.heading?

/-! ### Trees -/

/-- How the names around a try are counted. As written, the cleanup is a block of its own, the
variable of a catch clause belongs to a level of its own around the body of the clause, and
the error of the try is no name of the source. As lowered, the error is a name of the block
in which the try stands, the statements of the cleanup stand in that block too, the variable
of a catch-all belongs to the block of its body, and clauses behind a catch-all are
dropped. -/
inductive Counting where
  | written
  | lowered
deriving DecidableEq

/-- The names of a block after a declaration or a short definition in it. -/
def Stmt.declareLine (level : List String) : Stmt → Option (List String)
  | .decl _ _ name _ _ => Level.declare level name.text
  | .define _ names _ => Level.define level (names.map Expr.text)
  | _ => some level

def caughtName : Expr → Option String
  | .ident _ name => if name == "_" then none else some name
  | _ => none

/-- The names that the body of a catch clause starts with. -/
def Counting.caught (counting : Counting) (name : Expr) (type : Option String) : List String :=
  if counting = .lowered ∧ isTyped type = false then (caughtName name).toList else []

mutual

/-- The names of a block after a statement in it, unless a name is declared again in that block or
in one inside. -/
def Stmt.declareOnce (counting : Counting) (level : List String) : Stmt → Option (List String)
  | .block _ statements =>
      if (Stmt.declareAllOnce counting [] statements).isSome then some level else none
  | .ifElse _ _ consequence alternative =>
      if (consequence.declareInside counting []).isSome
        && (alternative.declareOnce counting []).isSome then some level else none
  | .loop _ init _ update body =>
      if ((init.declareLine []).bind fun own => update.declareLine own).isSome
        && (body.declareInside counting []).isSome then some level else none
  | .func _ _ params _ _ body =>
      if (((params.map Expr.text).foldlM Level.declare []).bind fun own =>
        body.declareInside counting own).isSome then some level else none
  | .tryCatch _ body catches cleanup =>
      if (body.declareInside counting []).isSome && Stmt.clausesDeclareOnce counting catches then
        match counting with
        | .written => if (cleanup.declareInside counting []).isSome then some level else none
        | .lowered => cleanup.declareInside counting (level.insert "err")
      else none
  | s => s.declareLine level

def Stmt.declareAllOnce (counting : Counting) (level : List String) :
    List Stmt → Option (List String)
  | [] => some level
  | s :: rest =>
      (s.declareOnce counting level).bind fun after => Stmt.declareAllOnce counting after rest

/-- The names of a block after the contents of another, which is missing if it has none. -/
def Stmt.declareInside (counting : Counting) (level : List String) : Stmt → Option (List String)
  | .block _ statements => Stmt.declareAllOnce counting level statements
  | _ => some level

def Stmt.clausesDeclareOnce (counting : Counting) : List Stmt → Bool
  | .catchClause _ name type body :: rest =>
      (body.declareInside counting (counting.caught name type)).isSome
        && (counting = .lowered ∧ isTyped type = false
          || Stmt.clausesDeclareOnce counting rest)
  | _ => true

end

/-- Whether a statement declares no name twice in one block. -/
def Stmt.DeclaresOnce (counting : Counting) (s : Stmt) : Prop :=
  (s.declareOnce counting []).isSome = true

instance (counting : Counting) (s : Stmt) : Decidable (s.DeclaresOnce counting) :=
  inferInstanceAs (Decidable (_ = true))

mutual

/-- Where no try is, names are counted in one way only. -/
theorem Stmt.declareOnce_written : (s : Stmt) → (∀ part ∈ s.emitted, part.kind ≠ .tryStmt) →
    ∀ level, s.declareOnce .written level = s.declareOnce .lowered level
  | .block _ statements, hNone, level => by
      rw [Stmt.declareOnce, Stmt.declareOnce,
        Stmt.declareAllOnce_written statements fun part hMem => hNone part (.tail _ hMem)]
  | .ifElse _ _ consequence alternative, hNone, level => by
      have hInside := consequence.declareInside_written
        (fun part hMem => hNone part (.tail _ (List.mem_append_left _ hMem))) []
      have hElse := alternative.declareOnce_written
        (fun part hMem => hNone part (.tail _ (List.mem_append_right _ hMem))) []
      rw [Stmt.declareOnce, Stmt.declareOnce, hInside, hElse]
  | .loop _ _ _ _ body, hNone, level => by
      rw [Stmt.declareOnce, Stmt.declareOnce,
        body.declareInside_written fun part hMem => hNone part (.tail _ hMem)]
  | .func _ _ _ _ _ body, hNone, level => by
      have hBody := body.declareInside_written fun part hMem => hNone part (.tail _ hMem)
      simp only [Stmt.declareOnce, hBody]
  | .tryCatch _ _ _ _, hNone, _ => absurd rfl (hNone _ List.mem_cons_self)
  | .missing, _, _ | .package _ _, _, _ | .imports _ _, _, _ | .decl _ _ _ _ _, _, _
  | .assign _ _ _ _, _, _ | .define _ _ _, _, _ | .ret _ _, _, _ | .expr _ _, _, _
  | .incr _ _ _, _, _ | .branch _, _, _ | .comment _ _ _, _, _ | .catchClause _ _ _ _, _, _
  | .throw _ _, _, _ | .bare _, _, _ | .program _ _, _, _ => rfl

theorem Stmt.declareAllOnce_written : (statements : List Stmt) →
    (∀ part ∈ Stmt.allEmitted statements, part.kind ≠ .tryStmt) → ∀ level,
      Stmt.declareAllOnce .written level statements = Stmt.declareAllOnce .lowered level statements
  | [], _, _ => rfl
  | s :: rest, hNone, level => by
      have hFirst := s.declareOnce_written
        (fun part hMem => hNone part (List.mem_append_left _ hMem)) level
      have hRest := Stmt.declareAllOnce_written rest fun part hMem =>
        hNone part (List.mem_append_right _ hMem)
      simp only [Stmt.declareAllOnce, hFirst, hRest]

theorem Stmt.declareInside_written (s : Stmt) (hNone : ∀ part ∈ s.emitted, part.kind ≠ .tryStmt)
    (level : List String) :
    s.declareInside .written level = s.declareInside .lowered level := by
  cases s with
  | block _ statements =>
      have hAll : ∀ part ∈ Stmt.allEmitted statements, part.kind ≠ .tryStmt :=
        fun part hMem => hNone part (.tail _ hMem)
      exact Stmt.declareAllOnce_written statements hAll level
  | _ => rfl

end

end TryGo
