import TryGo.Proofs.Gate.Shape
import TryGo.Lower.Analysis
import TryGo.Tree.Walk

/-! The two searches of a tree find what the walk through it comes to. The walk knows nothing of
statements: it enters every child of every node. Each search follows its own list of the places
where statements stand, so that a place left out would show as a throw that only the walk meets. -/
namespace TryGo

/-! ### The nodes of a tree -/

/-- The children of an expression in the order of their fields, holes included. -/
def Expr.children : Expr → List Expr
  | .unary _ _ operand => [operand]
  | .binary _ left _ right | .select _ left right | .index _ left right => [left, right]
  | .call _ callee args => callee :: args
  | _ => []

/-- The children of a node in the order of their fields, holes included. -/
def Stmt.children : Stmt → List Stmt
  | .decl _ _ name _ value => [.bare name, .bare value]
  | .assign _ targets _ values => (targets ++ values).map .bare
  | .define _ names values => (names ++ values).map .bare
  | .ret _ values => values.map .bare
  | .expr _ value | .incr _ value _ | .throw _ value => [.bare value]
  | .block _ statements | .program _ statements => statements
  | .ifElse _ condition consequence alternative => [.bare condition, consequence, alternative]
  | .loop _ init condition update body => [init, .bare condition, update, body]
  | .func _ name params _ _ body => (name :: params).map .bare ++ [body]
  | .catchClause _ name _ body => [.bare name, body]
  | .tryCatch _ body catches cleanup => body :: (catches ++ [cleanup])
  | .bare value => value.children.map .bare
  | .missing | .package _ _ | .imports _ _ | .branch _ | .comment _ _ _ => []

/-- Being a node of a tree: the tree itself, or a child of one of its nodes. -/
inductive Stmt.Within (root : Stmt) : Stmt → Prop
  | root : Within root root
  | child {node child : Stmt} : Within root node → child ∈ node.children → Within root child

def Stmt.isLeaf : Stmt → Bool
  | .package _ _ | .imports _ _ | .decl _ _ _ _ _ | .assign _ _ _ _ | .define _ _ _ | .ret _ _
  | .expr _ _ | .incr _ _ _ | .branch _ | .comment _ _ _ => true
  | _ => false

/-- The nodes of native trees: besides statements these are holes, expressions, clauses and
programs. -/
def Stmt.NativeNode : Stmt → Prop
  | .missing => True
  | .bare value => value.Native
  | .catchClause token name type body => Stmt.AllClausesNative [.catchClause token name type body]
  | .program _ statements => Stmt.AllNative statements
  | statement => statement.Native

/-- The parts of a native expression are native. -/
theorem Expr.Native.children {e : Expr} (hNative : e.Native) : Expr.AllNative e.children := by
  cases e with
  | unary => exact ⟨hNative, trivial⟩
  | binary | index => exact ⟨hNative.1, hNative.2, trivial⟩
  | select => exact ⟨hNative.1, .of_isIdent hNative.2, trivial⟩
  | call => exact hNative
  | foreign => exact hNative.elim
  | _ => trivial

namespace Stmt

/-- A simple statement holds no statement. -/
theorem isLeaf_of_isSimple {s : Stmt} (hSimple : s.isSimple = true) : s.isLeaf = true := by
  cases s with
  | assign | define | expr | incr => rfl
  | _ => cases hSimple

/-- The children of a statement without statements are expressions. -/
theorem Native.exists_bare {s : Stmt} (hNative : s.Native) (hLeaf : s.isLeaf = true) :
    ∃ es, Expr.AllNative es ∧ s.children = es.map bare := by
  cases s with
  | package | imports | branch | comment => exact ⟨[], trivial, rfl⟩
  | decl _ _ name _ value =>
      exact ⟨[name, value], ⟨.of_isIdent hNative.1, hNative.2, trivial⟩, rfl⟩
  | assign _ targets _ values => exact ⟨targets ++ values, hNative.1.append hNative.2, rfl⟩
  | define _ names values =>
      exact ⟨names ++ values, (Expr.AllNative.of_isIdent hNative.1).append hNative.2, rfl⟩
  | ret _ values => exact ⟨values, hNative, rfl⟩
  | expr _ value | incr _ value => exact ⟨[value], ⟨hNative, trivial⟩, rfl⟩
  | _ => cases hLeaf

/-- A native statement is a node of a native tree. -/
theorem Native.node {s : Stmt} (hNative : s.Native) : s.NativeNode := by
  cases s with
  | missing | bare | catchClause | program => exact hNative.elim
  | _ => exact hNative

/-- A place that is empty or holds a statement of some form holds a node. -/
theorem NativeNode.of_optional {s : Stmt} {form : Prop}
    (hPlace : s.isMissing = true ∨ form ∧ s.Native) : s.NativeNode := by
  rcases hPlace with hMissing | ⟨-, hNative⟩
  · cases s with
    | missing => trivial
    | _ => cases hMissing
  · exact hNative.node

theorem nativeNode_map_bare {es : List Expr} (hNative : Expr.AllNative es) :
    ∀ node ∈ es.map bare, node.NativeNode :=
  List.forall_mem_map.mpr (Expr.allNative_iff.mp hNative)

theorem AllNative.nodes {statements : List Stmt} (hNative : AllNative statements) :
    ∀ s ∈ statements, s.NativeNode :=
  fun s hMem => (allNative_iff.mp hNative s hMem).node

/-- So are the clauses of a try. -/
theorem AllClausesNative.nodes {clauses : List Stmt} (hNative : AllClausesNative clauses) :
    ∀ s ∈ clauses, s.NativeNode := by
  induction clauses with
  | nil => exact fun _ hMem => absurd hMem List.not_mem_nil
  | cons s rest ih =>
      cases s with
      | catchClause =>
          exact List.forall_mem_cons.mpr ⟨⟨hNative.1, hNative.2.1, trivial⟩, ih hNative.2.2⟩
      | _ => exact hNative.elim

/-- The children of a native node are native nodes. -/
theorem NativeNode.children {node : Stmt} (hNative : node.NativeNode) :
    ∀ child ∈ node.children, child.NativeNode := by
  cases node with
  | package | imports | branch | comment | decl | assign | define | ret | expr | incr =>
      obtain ⟨es, hEs, hChildren⟩ := Native.exists_bare hNative rfl
      rw [hChildren]
      exact nativeNode_map_bare hEs
  | missing => exact fun _ hMem => absurd hMem List.not_mem_nil
  | bare => exact nativeNode_map_bare (Expr.Native.children hNative)
  | throw => exact List.forall_mem_singleton.mpr hNative
  | block | program => exact AllNative.nodes hNative
  | ifElse =>
      simp only [Stmt.children, List.forall_mem_cons]
      exact ⟨hNative.1, hNative.2.1.2.node, .of_optional hNative.2.2, by simp⟩
  | loop =>
      simp only [Stmt.children, List.forall_mem_cons]
      exact ⟨.of_optional hNative.1, hNative.2.1, .of_optional hNative.2.2.1,
        hNative.2.2.2.2.node, by simp⟩
  | func token name params =>
      have hNames : Expr.AllNative (name :: params) :=
        ⟨.of_isIdent hNative.1, .of_isIdent hNative.2.1⟩
      exact List.forall_mem_append.mpr
        ⟨nativeNode_map_bare hNames, List.forall_mem_singleton.mpr hNative.2.2.2.node⟩
  | catchClause =>
      simp only [Stmt.children, List.forall_mem_cons]
      exact ⟨Expr.Native.of_binding hNative.1, hNative.2.1.2.node, by simp⟩
  | tryCatch =>
      simp only [Stmt.children, List.forall_mem_cons]
      refine ⟨hNative.1.2.node, List.forall_mem_append.mpr ⟨hNative.2.1.nodes, ?_⟩⟩
      exact List.forall_mem_singleton.mpr (.of_optional hNative.2.2)

/-- All nodes of a native tree are native. -/
theorem Within.nativeNode {root node : Stmt} (hWithin : root.Within node)
    (hRoot : root.NativeNode) : node.NativeNode := by
  induction hWithin with
  | root => exact hRoot
  | child _ hChild ih => exact ih.children _ hChild

end Stmt

/-! ### What a walk meets -/

def NodeKind.expressions : List NodeKind :=
  [.identifier, .integer, .float, .string, .char, .boolean, .nil, .unary, .binary, .call, .select,
    .index]

def Visit.kind : Visit → NodeKind
  | .stop kind => kind
  | .enter kind _ => kind

/-- Whether a walk comes to a node of one of some kinds, be it that it stops there. -/
def MeetsKind (kinds : List NodeKind) (visits : List Visit) : Prop :=
  ∃ visit ∈ visits, visit.kind ∈ kinds

/-- What a walk looks for and where it stops: it looks for tries or throws, and it stops at
nothing but expressions and what it looks for. -/
structure Search (kinds stops : List NodeKind) : Prop where
  kinds_subset : kinds ⊆ [.tryStmt, .throwStmt]
  stops_subset : stops ⊆ kinds ++ NodeKind.expressions

section Meeting

variable {kinds stops : List NodeKind}

@[simp] theorem not_meets_nil : ¬ MeetsKind kinds [] := by simp [MeetsKind]

@[simp] theorem meets_append {visits more : List Visit} :
    MeetsKind kinds (visits ++ more) ↔ MeetsKind kinds visits ∨ MeetsKind kinds more := by
  simp [MeetsKind, or_and_right, exists_or]

theorem meets_cons {visit : Visit} {visits : List Visit} :
    MeetsKind kinds (visit :: visits) ↔ visit.kind ∈ kinds ∨ MeetsKind kinds visits := by
  simp [MeetsKind]

/-- A walk that meets one of some kinds meets one of more. -/
theorem MeetsKind.mono {more : List NodeKind} {visits : List Visit}
    (hMeets : MeetsKind kinds visits) (hSubset : kinds ⊆ more) : MeetsKind more visits := by
  obtain ⟨visit, hMem, hKind⟩ := hMeets
  exact ⟨visit, hMem, hSubset hKind⟩

theorem Stmt.walkAll_append (nodes more : List Stmt) :
    Stmt.walkAll stops (nodes ++ more) = Stmt.walkAll stops nodes ++ Stmt.walkAll stops more := by
  induction nodes with
  | nil => rfl
  | cons node rest ih => rw [List.cons_append, Stmt.walkAll, Stmt.walkAll, ih, List.append_assoc]

theorem Expr.walkAll_append (es more : List Expr) :
    Expr.walkAll stops (es ++ more) = Expr.walkAll stops es ++ Expr.walkAll stops more := by
  induction es with
  | nil => rfl
  | cons e es ih => rw [List.cons_append, Expr.walkAll, Expr.walkAll, ih, List.append_assoc]

theorem Stmt.walkAll_map_bare (es : List Expr) :
    Stmt.walkAll stops (es.map .bare) = Expr.walkAll stops es := by
  induction es with
  | nil => rfl
  | cons e es ih => rw [List.map_cons, Stmt.walkAll, Expr.walkAll, ih, Stmt.walk]

/-- The walk from an expression reports it and goes on through all of its children. -/
theorem Expr.walk_eq (stops : List NodeKind) (e : Expr) (hPresent : e.kind ≠ .absent) :
    ∃ token, e.walk stops = visitNode stops e.kind token (Expr.walkAll stops e.children) := by
  cases e with
  | missing => exact absurd rfl hPresent
  | foreign => exact ⟨Token.blank, rfl⟩
  | ident token | int token | float token | str token | char token | bool token | nil token =>
      exact ⟨token, rfl⟩
  | unary token | binary token | call token | select token | index token =>
      exact ⟨token, by simp [Expr.walk, Expr.kind, Expr.children, Expr.walkAll]⟩

/-- The walk from a node reports it and goes on through all of its children. -/
theorem Stmt.walk_eq (stops : List NodeKind) (node : Stmt) (hPresent : node.kind ≠ .absent) :
    ∃ token, node.walk stops =
      visitNode stops node.kind token (Stmt.walkAll stops node.children) := by
  cases node with
  | missing => exact absurd rfl hPresent
  | bare value =>
      obtain ⟨token, hWalk⟩ := value.walk_eq stops hPresent
      exact ⟨token, by rw [Stmt.walk, hWalk, Stmt.children, walkAll_map_bare, Stmt.kind]⟩
  | decl token kind => cases kind <;> exact ⟨token, by simp [walk, Stmt.kind, children, walkAll]⟩
  | package token | imports token | branch token | comment token => exact ⟨token, rfl⟩
  | assign token | define token | ret token | expr token | incr token | throw token | block token
  | program token | ifElse token | loop token | func token | catchClause token
  | tryCatch token =>
      exact ⟨token, by simp [walk, Stmt.kind, children, walkAll, walkAll_append,
        Expr.walkAll_append, walkAll_map_bare, -List.map_append]⟩

/-- A search is for statements only. -/
theorem Search.not_mem_of_expression (hSearch : Search kinds stops) {kind : NodeKind}
    (hKind : kind ∈ NodeKind.expressions) : kind ∉ kinds := by
  intro hMem
  have hFound := hSearch.kinds_subset hMem
  revert hKind hFound
  cases kind <;> decide

/-- Of a node that is no expression the walk reports what it is, and goes on through its children
unless it has found what it looks for. -/
theorem Search.meets_walk (hSearch : Search kinds stops) {node : Stmt}
    (hKind : node.kind ∉ .absent :: NodeKind.expressions) :
    MeetsKind kinds (node.walk stops) ↔
      node.kind ∈ kinds ∨ MeetsKind kinds (Stmt.walkAll stops node.children) := by
  rw [List.mem_cons, not_or] at hKind
  obtain ⟨token, hWalk⟩ := node.walk_eq stops hKind.1
  rw [hWalk, visitNode]
  split
  next hStop =>
    have hFound : node.kind ∈ kinds := by
      have hMem := hSearch.stops_subset (List.contains_iff_mem.mp hStop)
      exact (List.mem_append.mp hMem).resolve_right hKind.2
    exact iff_of_true (meets_cons.mpr (.inl hFound)) (.inl hFound)
  next => exact meets_cons

/-- What a walk looks for is neither an expression nor behind one it reports. -/
theorem Search.not_meets_visitNode (hSearch : Search kinds stops) {kind : NodeKind}
    (hKind : kind ∈ NodeKind.expressions) (token : Token) {children : List Visit}
    (hChildren : ¬ MeetsKind kinds children) :
    ¬ MeetsKind kinds (visitNode stops kind token children) := by
  have hOther := hSearch.not_mem_of_expression hKind
  rw [visitNode]
  split
  · rw [meets_cons]
    exact not_or.mpr ⟨hOther, not_meets_nil⟩
  · rw [meets_cons]
    exact not_or.mpr ⟨hOther, hChildren⟩

mutual

/-- The walk through an expression meets no statement. -/
theorem Expr.Native.not_meets (hSearch : Search kinds stops) :
    (e : Expr) → e.Native → ¬ MeetsKind kinds (e.walk stops)
  | .missing, _ => not_meets_nil
  | .ident token _, _ | .int token _, _ | .float token _, _ | .str token _ _, _
  | .char token _, _ | .bool token _, _ | .nil token, _ =>
      hSearch.not_meets_visitNode (by decide) token not_meets_nil
  | .unary token _ operand, hNative =>
      hSearch.not_meets_visitNode (by decide) token (Expr.Native.not_meets hSearch operand hNative)
  | .binary token left _ right, hNative | .index token left right, hNative => by
      refine hSearch.not_meets_visitNode (by decide) token ?_
      rw [meets_append, not_or]
      exact ⟨Expr.Native.not_meets hSearch left hNative.1,
        Expr.Native.not_meets hSearch right hNative.2⟩
  | .select token left field, hNative => by
      refine hSearch.not_meets_visitNode (by decide) token ?_
      rw [meets_append, not_or]
      exact ⟨Expr.Native.not_meets hSearch left hNative.1,
        Expr.Native.not_meets hSearch field (.of_isIdent hNative.2)⟩
  | .call token callee args, hNative => by
      refine hSearch.not_meets_visitNode (by decide) token ?_
      rw [meets_append, not_or]
      exact ⟨Expr.Native.not_meets hSearch callee hNative.1,
        Expr.AllNative.not_meets hSearch args hNative.2⟩
  | .foreign _ _ _, hNative => hNative.elim

theorem Expr.AllNative.not_meets (hSearch : Search kinds stops) :
    (es : List Expr) → Expr.AllNative es → ¬ MeetsKind kinds (Expr.walkAll stops es)
  | [], _ => not_meets_nil
  | e :: es, hNative => by
      rw [Expr.walkAll, meets_append, not_or]
      exact ⟨Expr.Native.not_meets hSearch e hNative.1,
        Expr.AllNative.not_meets hSearch es hNative.2⟩

end

/-- A node that is no try, throw or expression counts for what is in its children. -/
theorem Search.meets_children (hSearch : Search kinds stops) {node : Stmt}
    (hKind : node.kind ∉ .absent :: .tryStmt :: .throwStmt :: NodeKind.expressions) :
    MeetsKind kinds (node.walk stops) ↔ MeetsKind kinds (Stmt.walkAll stops node.children) := by
  simp only [List.mem_cons, not_or] at hKind
  obtain ⟨hPresent, hTry, hThrow, hExpression⟩ := hKind
  have hOther : node.kind ∉ kinds := fun hMem => by
    simpa [hTry, hThrow] using hSearch.kinds_subset hMem
  rw [hSearch.meets_walk (List.not_mem_cons_of_ne_of_not_mem hPresent hExpression)]
  exact or_iff_right hOther

/-- No walk meets a try or a throw in a statement without statements. -/
theorem Search.not_meets_leaf (hSearch : Search kinds stops) {s : Stmt} (hNative : s.Native)
    (hLeaf : s.isLeaf = true) : ¬ MeetsKind kinds (s.walk stops) := by
  obtain ⟨es, hEs, hChildren⟩ := hNative.exists_bare hLeaf
  have hKind : s.kind ∉ .absent :: .tryStmt :: .throwStmt :: NodeKind.expressions := by
    cases s with
    | decl token kind => cases kind <;> simp [Stmt.kind, NodeKind.expressions]
    | package | imports | assign | define | ret | expr | incr | branch | comment =>
        simp [Stmt.kind, NodeKind.expressions]
    | _ => cases hLeaf
  rw [hSearch.meets_children hKind, hChildren, Stmt.walkAll_map_bare]
  exact Expr.AllNative.not_meets hSearch es hEs

theorem not_meets_missing {s : Stmt} (hMissing : s.isMissing = true) :
    ¬ MeetsKind kinds (s.walk stops) := by
  cases s with
  | missing => exact not_meets_nil
  | _ => cases hMissing

/-- A place that may be empty agrees with the walk if the statements that may stand there do. -/
theorem meets_optional {s : Stmt} {form found : Prop}
    (hPlace : s.isMissing = true ∨ form ∧ s.Native) (hMissing : s.isMissing = true → ¬ found)
    (hNative : s.Native → (found ↔ MeetsKind kinds (s.walk stops))) :
    found ↔ MeetsKind kinds (s.walk stops) := by
  rcases hPlace with hEmpty | ⟨-, hStatement⟩
  · exact iff_of_false (hMissing hEmpty) (not_meets_missing hEmpty)
  · exact hNative hStatement

/-- No walk meets a try or a throw in a clause of a loop header. -/
theorem Search.not_meets_clause (hSearch : Search kinds stops) {s : Stmt}
    (hPlace : s.isMissing = true ∨ s.isSimple = true ∧ s.Native) :
    ¬ MeetsKind kinds (s.walk stops) := by
  rcases hPlace with hMissing | ⟨hSimple, hNative⟩
  · exact not_meets_missing hMissing
  · exact hSearch.not_meets_leaf hNative (Stmt.isLeaf_of_isSimple hSimple)

/-! ### The places of statements, one node at a time -/

/-- A walk of a block is a walk of its statements. -/
theorem Search.meets_block (hSearch : Search kinds stops) (token : Token)
    (statements : List Stmt) :
    MeetsKind kinds ((Stmt.block token statements).walk stops) ↔
      MeetsKind kinds (Stmt.walkAll stops statements) :=
  hSearch.meets_children (by simp [Stmt.kind, NodeKind.expressions])

theorem Search.meets_program (hSearch : Search kinds stops) (token : Token)
    (statements : List Stmt) :
    MeetsKind kinds ((Stmt.program token statements).walk stops) ↔
      MeetsKind kinds (Stmt.walkAll stops statements) :=
  hSearch.meets_children (by simp [Stmt.kind, NodeKind.expressions])

/-- A conditional is searched in its two arms. -/
theorem Search.meets_ifElse (hSearch : Search kinds stops) (token : Token) {condition : Expr}
    (hCondition : condition.Native) (consequence alternative : Stmt) :
    MeetsKind kinds ((Stmt.ifElse token condition consequence alternative).walk stops) ↔
      MeetsKind kinds (consequence.walk stops) ∨ MeetsKind kinds (alternative.walk stops) := by
  rw [hSearch.meets_children (by simp [Stmt.kind, NodeKind.expressions]), Stmt.children]
  simp [Stmt.walkAll, Stmt.walk, Expr.Native.not_meets hSearch condition hCondition]

/-- A loop is searched in its body, since its header is simple. -/
theorem Search.meets_loop (hSearch : Search kinds stops) (token : Token) {condition : Expr}
    {init update : Stmt} (hInit : init.isMissing = true ∨ init.isSimple = true ∧ init.Native)
    (hCondition : condition.Native)
    (hUpdate : update.isMissing = true ∨ update.isSimple = true ∧ update.Native) (body : Stmt) :
    MeetsKind kinds ((Stmt.loop token init condition update body).walk stops) ↔
      MeetsKind kinds (body.walk stops) := by
  rw [hSearch.meets_children (by simp [Stmt.kind, NodeKind.expressions]), Stmt.children]
  simp [Stmt.walkAll, Stmt.walk, hSearch.not_meets_clause hInit,
    Expr.Native.not_meets hSearch condition hCondition, hSearch.not_meets_clause hUpdate]

/-- A function is searched in its body. -/
theorem Search.meets_func (hSearch : Search kinds stops) (token : Token) {name : Expr}
    {params : List Expr} (hName : name.isIdent = true)
    (hParams : ∀ param ∈ params, param.isIdent = true) (types : List (Option String))
    (result : Option String) (body : Stmt) :
    MeetsKind kinds ((Stmt.func token name params types result body).walk stops) ↔
      MeetsKind kinds (body.walk stops) := by
  have hHeader : Expr.AllNative (name :: params) := ⟨.of_isIdent hName, .of_isIdent hParams⟩
  rw [hSearch.meets_children (by simp [Stmt.kind, NodeKind.expressions]), Stmt.children,
    Stmt.walkAll_append, Stmt.walkAll_map_bare, meets_append,
    or_iff_right (Expr.AllNative.not_meets hSearch _ hHeader)]
  simp [Stmt.walkAll]

/-- A clause is searched in its body. -/
theorem Search.meets_catchClause (hSearch : Search kinds stops) (token : Token) {name : Expr}
    (hName : (name.isMissing || name.isIdent) = true) (type : Option String) (body : Stmt) :
    MeetsKind kinds ((Stmt.catchClause token name type body).walk stops) ↔
      MeetsKind kinds (body.walk stops) := by
  rw [hSearch.meets_children (by simp [Stmt.kind, NodeKind.expressions]), Stmt.children]
  simp [Stmt.walkAll, Stmt.walk, Expr.Native.not_meets hSearch name (.of_binding hName)]

/-! ### Both searches -/

/-- A walk that stops at expressions, or at the throw it looks for, finds every throw. -/
theorem search_throws (hStops : stops ⊆ .throwStmt :: NodeKind.expressions) :
    Search [.throwStmt] stops := ⟨by decide, hStops⟩

/-- A walk may stop at a throw too if both sorts are looked for. -/
theorem search_tries (hStops : stops ⊆ .tryStmt :: .throwStmt :: NodeKind.expressions) :
    Search [.tryStmt, .throwStmt] stops := ⟨by decide, hStops⟩

theorem not_containsThrow {s : Stmt} (hMissing : s.isMissing = true) :
    ¬ s.containsThrow = true := by
  cases s with
  | missing => exact Bool.false_ne_true
  | _ => cases hMissing

theorem not_needsErrorHandling {s : Stmt} (hMissing : s.isMissing = true) :
    ¬ s.needsErrorHandling = true := by
  cases s with
  | missing => exact Bool.false_ne_true
  | _ => cases hMissing

mutual

/-- A throw is found in a statement exactly if the walk meets one. -/
theorem Stmt.Native.containsThrow_iff (hSearch : Search [.throwStmt] stops) :
    (s : Stmt) → s.Native → (s.containsThrow = true ↔ MeetsKind [.throwStmt] (s.walk stops))
  | .missing, hNative | .catchClause _ _ _ _, hNative | .bare _, hNative
  | .program _ _, hNative => hNative.elim
  | .package _ _, hNative | .imports _ _, hNative | .decl _ _ _ _ _, hNative
  | .assign _ _ _ _, hNative | .define _ _ _, hNative | .ret _ _, hNative | .expr _ _, hNative
  | .incr _ _ _, hNative | .branch _, hNative | .comment _ _ _, hNative =>
      iff_of_false Bool.false_ne_true (hSearch.not_meets_leaf hNative rfl)
  | .throw _ _, _ => by
      refine iff_of_true rfl ((hSearch.meets_walk ?_).mpr (.inl ?_))
      · simp [Stmt.kind, NodeKind.expressions]
      · exact List.mem_singleton.mpr rfl
  | .block token statements, hNative => by
      rw [hSearch.meets_block, Stmt.containsThrow]
      exact Stmt.AllNative.containsThrow_iff hSearch statements hNative
  | .ifElse token _ consequence alternative, hNative => by
      have hAlternative := meets_optional hNative.2.2 not_containsThrow
        (Stmt.Native.containsThrow_iff hSearch alternative)
      rw [hSearch.meets_ifElse token hNative.1, Stmt.containsThrow, Bool.or_eq_true, hAlternative,
        Stmt.Native.containsThrow_iff hSearch consequence hNative.2.1.2]
  | .loop token _ _ _ body, hNative => by
      rw [hSearch.meets_loop token hNative.1 hNative.2.1 hNative.2.2.1, Stmt.containsThrow]
      exact Stmt.Native.containsThrow_iff hSearch body hNative.2.2.2.2
  | .func token _ _ types result body, hNative => by
      rw [hSearch.meets_func token hNative.1 hNative.2.1, Stmt.containsThrow]
      exact Stmt.Native.containsThrow_iff hSearch body hNative.2.2.2
  | .tryCatch token body catches cleanup, hNative => by
      have hCleanup := meets_optional hNative.2.2 not_containsThrow
        (Stmt.Native.containsThrow_iff hSearch cleanup)
      have hKind : (Stmt.tryCatch token body catches cleanup).kind ∉
          .absent :: NodeKind.expressions := by simp [Stmt.kind, NodeKind.expressions]
      rw [hSearch.meets_walk hKind, Stmt.containsThrow, Bool.or_eq_true, Bool.or_eq_true, hCleanup,
        Stmt.Native.containsThrow_iff hSearch body hNative.1.2,
        Stmt.AllClausesNative.containsThrow_iff hSearch catches hNative.2.1]
      simp [Stmt.kind, Stmt.children, Stmt.walkAll, Stmt.walkAll_append, or_assoc]

theorem Stmt.AllNative.containsThrow_iff (hSearch : Search [.throwStmt] stops) :
    (statements : List Stmt) → Stmt.AllNative statements →
      (Stmt.anyContainsThrow statements = true ↔
        MeetsKind [.throwStmt] (Stmt.walkAll stops statements))
  | [], _ => iff_of_false Bool.false_ne_true not_meets_nil
  | s :: rest, hNative => by
      rw [Stmt.anyContainsThrow, Bool.or_eq_true, Stmt.walkAll, meets_append,
        Stmt.Native.containsThrow_iff hSearch s hNative.1,
        Stmt.AllNative.containsThrow_iff hSearch rest hNative.2]

theorem Stmt.AllClausesNative.containsThrow_iff (hSearch : Search [.throwStmt] stops) :
    (clauses : List Stmt) → Stmt.AllClausesNative clauses →
      (Stmt.anyContainsThrow clauses = true ↔ MeetsKind [.throwStmt] (Stmt.walkAll stops clauses))
  | [], _ => iff_of_false Bool.false_ne_true not_meets_nil
  | s :: rest, hNative => by
      cases s with
      | catchClause token name type body =>
          rw [Stmt.anyContainsThrow, Bool.or_eq_true, Stmt.walkAll, meets_append,
            hSearch.meets_catchClause token hNative.1, Stmt.containsThrow,
            Stmt.Native.containsThrow_iff hSearch body hNative.2.1.2,
            Stmt.AllClausesNative.containsThrow_iff hSearch rest hNative.2.2]
      | _ => exact hNative.elim

end

mutual

/-- A try or a throw is found in a statement exactly if the walk meets one. The first try decides,
so that nothing is searched for behind it. -/
theorem Stmt.Native.needsErrorHandling_iff (hSearch : Search [.tryStmt, .throwStmt] stops) :
    (s : Stmt) → s.Native →
      (s.needsErrorHandling = true ↔ MeetsKind [.tryStmt, .throwStmt] (s.walk stops))
  | .missing, hNative | .catchClause _ _ _ _, hNative | .bare _, hNative
  | .program _ _, hNative => hNative.elim
  | .package _ _, hNative | .imports _ _, hNative | .decl _ _ _ _ _, hNative
  | .assign _ _ _ _, hNative | .define _ _ _, hNative | .ret _ _, hNative | .expr _ _, hNative
  | .incr _ _ _, hNative | .branch _, hNative | .comment _ _ _, hNative =>
      iff_of_false Bool.false_ne_true (hSearch.not_meets_leaf hNative rfl)
  | .throw _ _, _ | .tryCatch _ _ _ _, _ => by
      refine iff_of_true rfl ((hSearch.meets_walk ?_).mpr (.inl ?_))
      · simp [Stmt.kind, NodeKind.expressions]
      · simp [Stmt.kind]
  | .block token statements, hNative => by
      rw [hSearch.meets_block, Stmt.needsErrorHandling]
      exact Stmt.AllNative.needsErrorHandling_iff hSearch statements hNative
  | .ifElse token _ consequence alternative, hNative => by
      have hAlternative := meets_optional hNative.2.2 not_needsErrorHandling
        (Stmt.Native.needsErrorHandling_iff hSearch alternative)
      rw [hSearch.meets_ifElse token hNative.1, Stmt.needsErrorHandling, Bool.or_eq_true,
        hAlternative, Stmt.Native.needsErrorHandling_iff hSearch consequence hNative.2.1.2]
  | .loop token _ _ _ body, hNative => by
      rw [hSearch.meets_loop token hNative.1 hNative.2.1 hNative.2.2.1, Stmt.needsErrorHandling]
      exact Stmt.Native.needsErrorHandling_iff hSearch body hNative.2.2.2.2
  | .func token _ _ types result body, hNative => by
      rw [hSearch.meets_func token hNative.1 hNative.2.1, Stmt.needsErrorHandling]
      exact Stmt.Native.needsErrorHandling_iff hSearch body hNative.2.2.2

theorem Stmt.AllNative.needsErrorHandling_iff (hSearch : Search [.tryStmt, .throwStmt] stops) :
    (statements : List Stmt) → Stmt.AllNative statements →
      (Stmt.anyNeedsErrorHandling statements = true ↔
        MeetsKind [.tryStmt, .throwStmt] (Stmt.walkAll stops statements))
  | [], _ => iff_of_false Bool.false_ne_true not_meets_nil
  | s :: rest, hNative => by
      rw [Stmt.anyNeedsErrorHandling, Bool.or_eq_true, Stmt.walkAll, meets_append,
        Stmt.Native.needsErrorHandling_iff hSearch s hNative.1,
        Stmt.AllNative.needsErrorHandling_iff hSearch rest hNative.2]

end

/-- A throw is found in any node of a native tree exactly if the walk from it meets one. -/
theorem Stmt.NativeNode.containsThrow_iff (hSearch : Search [.throwStmt] stops) {node : Stmt}
    (hNative : node.NativeNode) :
    node.containsThrow = true ↔ MeetsKind [.throwStmt] (node.walk stops) := by
  cases node with
  | missing => exact iff_of_false Bool.false_ne_true not_meets_nil
  | bare value =>
      exact iff_of_false Bool.false_ne_true (Expr.Native.not_meets hSearch value hNative)
  | catchClause token name type body =>
      rw [hSearch.meets_catchClause token hNative.1, Stmt.containsThrow]
      exact Stmt.Native.containsThrow_iff hSearch body hNative.2.1.2
  | program token statements =>
      rw [hSearch.meets_program, Stmt.containsThrow]
      exact Stmt.AllNative.containsThrow_iff hSearch statements hNative
  | _ => exact Stmt.Native.containsThrow_iff hSearch _ hNative

end Meeting

/-- The two searches agree with the walk at every node of every program that is read, whatever was
reported. A throw is found in a node exactly if the walk from it meets a throw, and a function
needs error handling exactly if the walk below it meets a try or a throw. So a function that
contains a throw needs it. The walk may enter expressions or stop at them, and it may stop at what
it looks for. -/
theorem searches_iff_meets {source : String} {program : Program}
    (hResult : (parse source).result = .ok program) {node : Stmt}
    (hWithin : program.toStmt.Within node) :
    (∀ stops ⊆ .throwStmt :: NodeKind.expressions,
      node.containsThrow = true ↔ MeetsKind [.throwStmt] (node.walk stops))
    ∧ (node.kind = .function →
      (∀ stops ⊆ .tryStmt :: .throwStmt :: NodeKind.expressions,
        node.needsErrorHandling = true ↔
          MeetsKind [.tryStmt, .throwStmt] (Stmt.walkAll stops node.children))
      ∧ (node.containsThrow = true → node.needsErrorHandling = true)) := by
  have hNode : node.NativeNode := hWithin.nativeNode (Parse.allNative_readFrom hResult)
  refine ⟨fun stops hStops => hNode.containsThrow_iff (search_throws hStops), fun hKind => ?_⟩
  have hFunction : node.Native := by
    cases node with
    | func => exact hNode
    | decl _ kind => cases kind <;> cases hKind
    | bare value =>
        cases value with
        | foreign => exact hNode.elim
        | _ => cases hKind
    | _ => cases hKind
  have hNeeds (stops) (hStops : stops ⊆ .tryStmt :: .throwStmt :: NodeKind.expressions) :
      node.needsErrorHandling = true ↔ MeetsKind [.tryStmt, .throwStmt] (node.walk stops) :=
    Stmt.Native.needsErrorHandling_iff (search_tries hStops) node hFunction
  refine ⟨fun stops hStops => ?_, fun hThrows => ?_⟩
  · have hOther : node.kind ∉ .absent :: .tryStmt :: .throwStmt :: NodeKind.expressions := by
      rw [hKind]
      decide
    rw [hNeeds stops hStops, (search_tries hStops).meets_children hOther]
  · have hMeets := (hNode.containsThrow_iff (search_throws (List.nil_subset _))).mp hThrows
    exact (hNeeds [] (List.nil_subset _)).mpr (hMeets.mono (by decide))

/-- A source that cannot all be read, with a throw in the cleanup of a try in a loop. -/
def buriedThrow : String :=
  "func f() \x7b for a \x7b try \x7b g(; \x7d catch \x7b ) \x7d "
    ++ "finally \x7b if b \x7b throw 1 \x7d \x7d \x7d \x7d"

/-- A throw far below a function of a source with reports is found by both. -/
theorem searches_iff_meets_buriedThrow :
    ∃ program node, (parse buriedThrow).result = .ok program ∧ (parse buriedThrow).reports ≠ []
      ∧ program.toStmt.Within node ∧ node.kind = .function
      ∧ MeetsKind [.throwStmt] (node.walk NodeKind.expressions)
      ∧ MeetsKind [.tryStmt, .throwStmt] (Stmt.walkAll [] node.children) := by
  obtain ⟨program, hResult, hRead⟩ := Parse.exists_ok_of_test (parse buriedThrow).result
    (fun program => program.statements.any fun node => node.kind == .function && node.containsThrow)
    (by decide +kernel)
  obtain ⟨node, hMem, hNode⟩ := List.any_eq_true.mp hRead
  obtain ⟨hKind, hThrows⟩ := (Bool.and_eq_true _ _).mp hNode
  have hWithin : program.toStmt.Within node := .child .root hMem
  have hFunction : node.kind = .function := beq_iff_eq.mp hKind
  obtain ⟨hSearch, hNeeds⟩ := searches_iff_meets hResult hWithin
  obtain ⟨hMeets, hThrowNeeds⟩ := hNeeds hFunction
  exact ⟨program, node, hResult, by decide +kernel, hWithin, hFunction,
    (hSearch _ (List.subset_cons_self _ _)).mp hThrows,
    (hMeets [] (List.nil_subset _)).mp (hThrowNeeds hThrows)⟩

end TryGo
