import TryGo.Proofs.Step.Run

/-! Steps that are put together from a few elementary ones, and from steps that open a block, a
frame or a scope, run something inside and close it again. Such a step leaves the depth, the frames
and the outer scopes as it finds them, and adds lines of the codes only that its elementary steps
write. -/
namespace TryGo.Lower

/-! ### Steps in which everything is closed that is opened -/

/-- A step that is put together from the elementary steps so that what is opened is closed. It
writes certain codes only, and it may be one that ends in a fault or not. -/
class inductive Composed (codes : Go.Code → Prop) (faults : Prop) :
    {α : Type} → LowerM α → Prop where
  | value {α : Type} (a : α) : Composed codes faults (pure a)
  | fault {α : Type} (fault : Fault) (hFaults : faults) :
      Composed codes faults (throw fault : LowerM α)
  | emit (code : Go.Code) (hCode : codes code) : Composed codes faults (emit code)
  | record (event : Event) : Composed codes faults (record event)
  | declare (names : List String) : Composed codes faults (declare names)
  | isDeclared (name : String) : Composed codes faults (isDeclared name)
  | frame? : Composed codes faults frame?
  | inBlock (names : List String) {body : LowerM Unit} (hBody : Composed codes faults body) :
      Composed codes faults (inBlock names body)
  | inFrame (frame : Frame) {body : LowerM Unit} (hBody : Composed codes faults body) :
      Composed codes faults (inFrame frame body)
  | inScope {body : LowerM Unit} (hBody : Composed codes faults body) :
      Composed codes faults (inScope body)
  | deeper {body : LowerM Unit} (hBody : Composed codes faults body) :
      Composed codes faults (deeper body)
  | bind {α β : Type} {step : LowerM α} {next : α → LowerM β} (hStep : Composed codes faults step)
      (hNext : ∀ a, Composed codes faults (next a)) : Composed codes faults (step >>= next)

/-- A step that may write any code and end in any way. -/
abbrev Balanced {α : Type} (step : LowerM α) : Prop := Composed (fun _ => True) True step

/-- A step that writes nothing. -/
abbrev Silent {α : Type} (step : LowerM α) : Prop := Composed (fun _ => False) True step

section Steps

variable {α β : Type} {codes : Go.Code → Prop} {faults : Prop}

instance (a : α) : Composed codes faults (pure a) := .value a

instance (fault : Fault) : Composed codes True (throw fault : LowerM α) := .fault fault trivial

instance (code : Go.Code) : Balanced (emit code) := .emit code trivial

instance (event : Event) : Composed codes faults (record event) := .record event

instance (names : List String) : Composed codes faults (declare names) := .declare names

instance (name : String) : Composed codes faults (isDeclared name) := .isDeclared name

instance : Composed codes faults frame? := .frame?

instance (names : List String) (body : LowerM Unit) [hBody : Composed codes faults body] :
    Composed codes faults (inBlock names body) := .inBlock names hBody

instance (frame : Frame) (body : LowerM Unit) [hBody : Composed codes faults body] :
    Composed codes faults (inFrame frame body) := .inFrame frame hBody

instance (body : LowerM Unit) [hBody : Composed codes faults body] :
    Composed codes faults (inScope body) := .inScope hBody

instance (body : LowerM Unit) [hBody : Composed codes faults body] :
    Composed codes faults (deeper body) := .deeper hBody

instance (step : LowerM α) (next : α → LowerM β) [hStep : Composed codes faults step]
    [hNext : ∀ a, Composed codes faults (next a)] : Composed codes faults (step >>= next) :=
  .bind hStep hNext

/-- A choice is composed if both of its arms are. -/
theorem Composed.ite {condition : Prop} [Decidable condition] {x y : LowerM α}
    (hThen : Composed codes faults x) (hElse : Composed codes faults y) :
    Composed codes faults (if condition then x else y) := by
  split
  · exact hThen
  · exact hElse

instance (condition : Prop) [Decidable condition] (x y : LowerM α) [hThen : Composed codes faults x]
    [hElse : Composed codes faults y] : Composed codes faults (if condition then x else y) :=
  .ite hThen hElse

/-- A step for each of some values is composed if the step is. -/
theorem Composed.forM {step : α → LowerM Unit} (values : List α)
    (hStep : ∀ a, Composed codes faults (step a)) : Composed codes faults (values.forM step) := by
  induction values with
  | nil => exact .value ()
  | cons a rest ih => exact .bind (hStep a) fun _ => ih

instance (values : List α) (step : α → LowerM Unit) [hStep : ∀ a, Composed codes faults (step a)] :
    Composed codes faults (values.forM step) := .forM values hStep

/-- The first of two steps may be inferred. -/
theorem Composed.after {step : LowerM α} {next : α → LowerM β} [hStep : Composed codes faults step]
    (hNext : ∀ a, Composed codes faults (next a)) : Composed codes faults (step >>= next) :=
  .bind hStep hNext

end Steps

section Parts

variable {codes : Go.Code → Prop}

instance {α : Type} (result : Except RenderError α) : Composed codes True (rendered result) := by
  unfold rendered
  split <;> infer_instance

instance (es : List Expr) : Composed codes True (checkGo es) := by
  unfold checkGo
  infer_instance

instance (es : List Expr) : Composed codes True (checkForms es) := by
  unfold checkForms
  infer_instance

instance (es : List Expr) : Composed codes True (namesOf es) := by
  unfold namesOf
  infer_instance

instance (s : Stmt) : Composed codes True (declaredNames s) := by
  unfold declaredNames
  split <;> infer_instance

instance (s : Stmt) : Composed codes True (simple s) := by
  unfold simple
  infer_instance

instance (s : Stmt) : Composed codes True (clauseText s) := by
  unfold clauseText
  infer_instance

instance (init : Stmt) (condition : Expr) (update : Stmt) :
    Composed codes True (loopHeader init condition update) := by
  unfold loopHeader
  infer_instance

instance (name : Expr) : Composed codes True (catchBinding name) := by
  have hValue (value : Value) : Composed codes True
      (match value with
        | .nothing => pure none
        | value => pure (if value == .name "_" then none else some value) :
        LowerM (Option Value)) := by
    split <;> infer_instance
  unfold catchBinding
  infer_instance

instance (value : Option Value) : Composed codes True (catchPattern value) := by
  unfold catchPattern
  split <;> infer_instance

/-- The lines of an import say what they import. -/
theorem composed_importLines {faults : Prop} (paths : List String)
    (hPath : ∀ path, codes (.importPath path)) (hGrouped : ∀ path, codes (.groupedPath path))
    (hOpen : codes .importOpen) (hClose : codes .importClose) :
    Composed codes faults (importLines paths) := by
  have hGroup : Composed codes faults (paths.forM fun path => emit (.groupedPath path)) :=
    .forM paths fun path => .emit _ (hGrouped path)
  unfold importLines
  split
  next path => exact .emit _ (hPath path)
  next => exact .bind (.emit _ hOpen) fun _ => .bind (.deeper hGroup) fun _ => .emit _ hClose

instance (paths : List String) : Balanced (importLines paths) :=
  composed_importLines paths (fun _ => trivial) (fun _ => trivial) trivial trivial

/-- The start of a clause binds the error and uses what it has bound. -/
theorem composed_bindCaught (name : Expr) (type : Option String)
    (hBind : ∀ binding, codes (.bindErr binding)) (hUse : ∀ binding, codes (.use binding)) :
    Composed codes True (bindCaught name type) := by
  refine .after fun value => ?_
  split
  · exact .value ()
  · refine .after fun binding => .ite ?_ (.emit _ (hUse binding))
    exact .bind (.emit _ (hBind binding)) fun _ => .after fun _ => .emit _ (hUse binding)

instance (name : Expr) (type : Option String) : Balanced (bindCaught name type) :=
  composed_bindCaught name type (fun _ => trivial) fun _ => trivial

instance (values : List Expr) : Balanced (lowerReturn values) := by
  unfold lowerReturn
  infer_instance

instance (value : Expr) : Balanced (lowerThrow value) := by
  unfold lowerThrow
  infer_instance

end Parts

/-! ### What is left as it was found -/

/-- Whether lines are only added, none of them less deep than some depth and all of them of certain
codes. Lines are kept newest first. -/
def AddsFrom (codes : Go.Code → Prop) (depth : Nat) (lines lines' : List Go.Line) : Prop :=
  ∃ added, lines' = added ++ lines ∧ ∀ line ∈ added, depth ≤ line.depth ∧ codes line.code

namespace AddsFrom

variable {codes : Go.Code → Prop} {depth least : Nat} {lines middle lines' : List Go.Line}

theorem refl (codes : Go.Code → Prop) (depth : Nat) (lines : List Go.Line) :
    AddsFrom codes depth lines lines := ⟨[], rfl, List.forall_mem_nil _⟩

/-- Lines are added twice. -/
theorem trans (hFirst : AddsFrom codes depth lines middle)
    (hThen : AddsFrom codes depth middle lines') : AddsFrom codes depth lines lines' := by
  obtain ⟨first, rfl, hDeepFirst⟩ := hFirst
  obtain ⟨last, rfl, hDeepLast⟩ := hThen
  exact ⟨last ++ first, (List.append_assoc last first lines).symm,
    List.forall_mem_append.mpr ⟨hDeepLast, hDeepFirst⟩⟩

/-- Lines that are deep enough for one level are so for any above it. -/
theorem weaken (hAdds : AddsFrom codes depth lines lines') (hLeast : least ≤ depth) :
    AddsFrom codes least lines lines' := by
  obtain ⟨added, hLines, hDeep⟩ := hAdds
  exact ⟨added, hLines, fun line hMem => (hDeep line hMem).imp_left (Nat.le_trans hLeast)⟩

end AddsFrom

/-- Whether a state comes from another one with everything closed that was opened. Lines are only
added, from the depth on that is open, and so are the names of the innermost scope. -/
structure Restores (codes : Go.Code → Prop) (s s' : State) : Prop where
  adds : AddsFrom codes s.depth s.lines s'.lines
  depth : s'.depth = s.depth
  frames : s'.frames = s.frames
  outer : s'.scopes.tail = s.scopes.tail
  isEmpty : s'.scopes.isEmpty = s.scopes.isEmpty
  grown : s.scopes.headD [] ⊆ s'.scopes.headD []

namespace Restores

variable {codes : Go.Code → Prop} {s middle s' : State}

/-- A step that keeps depth, frames and scopes restores them. -/
theorem of_scopes (hAdds : AddsFrom codes s.depth s.lines s'.lines) (hDepth : s'.depth = s.depth)
    (hFrames : s'.frames = s.frames) (hScopes : s'.scopes = s.scopes) : Restores codes s s' :=
  ⟨hAdds, hDepth, hFrames, congrArg List.tail hScopes, congrArg List.isEmpty hScopes,
    hScopes ▸ List.Subset.refl _⟩

theorem refl (codes : Go.Code → Prop) (s : State) : Restores codes s s :=
  .of_scopes (.refl codes s.depth s.lines) rfl rfl rfl

theorem trans (hFirst : Restores codes s middle) (hThen : Restores codes middle s') :
    Restores codes s s' where
  adds := hFirst.adds.trans (hFirst.depth ▸ hThen.adds)
  depth := hThen.depth.trans hFirst.depth
  frames := hThen.frames.trans hFirst.frames
  outer := hThen.outer.trans hFirst.outer
  isEmpty := hThen.isEmpty.trans hFirst.isEmpty
  grown := List.Subset.trans hFirst.grown hThen.grown

/-- A step that restores the rest only adds lines. -/
theorem lines (hSame : Restores codes s s') : s.lines <:+ s'.lines := by
  obtain ⟨added, hLines, -⟩ := hSame.adds
  exact ⟨added, hLines.symm⟩

/-- Scopes with the same outer scopes are as many if both or none of them are there. -/
theorem length_scopes (hSame : Restores codes s s') : s'.scopes.length = s.scopes.length := by
  have hEmpty := hSame.isEmpty
  have hOuter := congrArg List.length hSame.outer
  cases hBefore : s.scopes <;> cases hAfter : s'.scopes <;> simp_all

end Restores

/-- A composed step that ends in a value leaves open what was open. -/
theorem Composed.restores {codes : Go.Code → Prop} {faults : Prop} {α : Type} {step : LowerM α}
    (hStep : Composed codes faults step) {s s' : State} {a : α} (hRun : step s = .ok a s') :
    Restores codes s s' := by
  induction hStep generalizing s s' with
  | value | isDeclared | frame? =>
      cases hRun
      exact .refl codes s
  | fault => cases hRun
  | emit code hCode =>
      cases hRun
      refine .of_scopes ⟨[⟨s.depth, code⟩], rfl, ?_⟩ rfl rfl rfl
      exact List.forall_mem_singleton.mpr ⟨Nat.le_refl s.depth, hCode⟩
  | record event =>
      cases hRun
      exact .of_scopes (.refl codes s.depth s.lines) rfl rfl rfl
  | declare names =>
      cases hRun
      obtain ⟨lines, depth, frames, scopes, events⟩ := s
      cases scopes with
      | nil => exact .refl codes _
      | cons scope outer =>
          exact ⟨.refl codes depth lines, rfl, rfl, rfl, rfl, List.subset_append_right names scope⟩
  | inBlock names _ ih =>
      rw [inBlock_run] at hRun
      obtain ⟨inner, hInner, rfl⟩ := closing_eq_ok hRun
      have hSame := ih hInner
      refine .of_scopes (hSame.adds.weaken (Nat.le_succ s.depth)) ?_ hSame.frames hSame.outer
      change inner.depth - 1 = s.depth
      rw [hSame.depth]
      rfl
  | inFrame frame _ ih =>
      rw [inFrame_run] at hRun
      obtain ⟨inner, hInner, rfl⟩ := closing_eq_ok hRun
      have hSame := ih hInner
      exact ⟨hSame.adds, hSame.depth, congrArg List.tail hSame.frames, hSame.outer, hSame.isEmpty,
        hSame.grown⟩
  | inScope _ ih =>
      rw [inScope_run] at hRun
      obtain ⟨inner, hInner, rfl⟩ := closing_eq_ok hRun
      have hSame := ih hInner
      exact .of_scopes hSame.adds hSame.depth hSame.frames hSame.outer
  | deeper _ ih =>
      rw [deeper_run] at hRun
      obtain ⟨inner, hInner, rfl⟩ := closing_eq_ok hRun
      have hSame := ih hInner
      refine ⟨hSame.adds.weaken (Nat.le_succ s.depth), ?_, hSame.frames, hSame.outer,
        hSame.isEmpty, hSame.grown⟩
      change inner.depth - 1 = s.depth
      rw [hSame.depth]
      rfl
  | bind _ _ ih ihNext =>
      rw [bind_run] at hRun
      split at hRun
      next b middle hFirst => exact (ih hFirst).trans (ihNext b hRun)
      next => cases hRun

/-- A composed step without faults ends in a value wherever it starts. -/
theorem Composed.exists_ok {codes : Go.Code → Prop} {α : Type} {step : LowerM α}
    (hStep : Composed codes False step) (s : State) : ∃ a s', step s = .ok a s' := by
  induction hStep generalizing s with
  | value | emit | record | declare | isDeclared | frame? => exact ⟨_, _, rfl⟩
  | fault _ hFaults => exact hFaults.elim
  | inBlock names _ ih =>
      obtain ⟨⟨⟩, inner, hInner⟩ := ih (s.inside names)
      exact ⟨(), inner.outside, by rw [inBlock_run, hInner]; rfl⟩
  | inFrame frame _ ih =>
      obtain ⟨⟨⟩, inner, hInner⟩ := ih { s with frames := frame :: s.frames }
      exact ⟨(), _, by rw [inFrame_run, hInner]; rfl⟩
  | inScope _ ih =>
      obtain ⟨⟨⟩, inner, hInner⟩ := ih { s with scopes := [] :: s.scopes }
      exact ⟨(), _, by rw [inScope_run, hInner]; rfl⟩
  | deeper _ ih =>
      obtain ⟨⟨⟩, inner, hInner⟩ := ih { s with depth := s.depth + 1 }
      exact ⟨(), _, by rw [deeper_run, hInner]; rfl⟩
  | bind _ _ ih ihNext =>
      obtain ⟨b, middle, hFirst⟩ := ih s
      obtain ⟨a, s', hSecond⟩ := ihNext b middle
      exact ⟨a, s', by rw [bind_run, hFirst]; exact hSecond⟩

end TryGo.Lower
