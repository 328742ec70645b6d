import TryGo.Lower.Stmt

/-! What the ways of putting lowering steps together do to the state: one step after another, and a
step inside something that is opened before it and closed after it. -/
namespace TryGo

def importCode (depth : Nat) : List String → List Go.Line
  | [path] => [⟨depth, .importPath path⟩]
  | paths => ⟨depth, .importOpen⟩ :: (paths.map (fun path => ⟨depth + 1, .groupedPath path⟩)
      ++ [⟨depth, .importClose⟩])

namespace Lower

/-- A step and what follows it, run one after the other. -/
theorem bind_run {α β : Type} (step : LowerM α) (next : α → LowerM β) (s : State) :
    (step >>= next) s = match step s with
      | .ok a middle => next a middle
      | .error fault middle => .error fault middle := by
  change EStateM.bind step next s = _
  rw [EStateM.bind]
  cases step s <;> rfl

/-- What comes after something was run inside and closed, if there was no fault. -/
def closing (leave : State → State) :
    EStateM.Result Fault State Unit → EStateM.Result Fault State Unit
  | .ok () s => .ok () (leave s)
  | .error fault s => .error fault s

theorem closing_eq_ok {leave : State → State} {result : EStateM.Result Fault State Unit}
    {s' : State} (hRun : closing leave result = .ok () s') :
    ∃ inner, result = .ok () inner ∧ s' = leave inner := by
  cases result with
  | ok _ inner =>
      cases hRun
      exact ⟨inner, rfl, rfl⟩
  | error fault inner => cases hRun

/-- The state in a new block that starts with some names. -/
def State.inside (names : List String) (s : State) : State :=
  { s with depth := s.depth + 1, scopes := names :: s.scopes }

/-- The state behind the block that is left. -/
def State.outside (s : State) : State :=
  { s with depth := s.depth - 1, scopes := s.scopes.tail }

theorem inBlock_run (names : List String) (body : LowerM Unit) (s : State) :
    inBlock names body s = closing State.outside (body (s.inside names)) := by
  have hInside : s.inside names =
      { s with depth := s.depth + 1, scopes := (names ++ []) :: s.scopes } := by
    rw [List.append_nil]
    rfl
  rw [hInside]
  change (body >>= fun _ => do popScope; dedent) _ = _
  rw [bind_run]
  cases body _ <;> rfl

theorem inFrame_run (frame : Frame) (body : LowerM Unit) (s : State) :
    inFrame frame body s = closing (fun s => { s with frames := s.frames.tail })
      (body { s with frames := frame :: s.frames }) := by
  change (body >>= fun _ => popFrame) _ = _
  rw [bind_run]
  cases body _ <;> rfl

theorem inScope_run (body : LowerM Unit) (s : State) :
    inScope body s = closing (fun s => { s with scopes := s.scopes.tail })
      (body { s with scopes := [] :: s.scopes }) := by
  change (body >>= fun _ => popScope) _ = _
  rw [bind_run]
  cases body _ <;> rfl

theorem deeper_run (body : LowerM Unit) (s : State) :
    deeper body s = closing (fun s => { s with depth := s.depth - 1 })
      (body { s with depth := s.depth + 1 }) := by
  change (body >>= fun _ => dedent) _ = _
  rw [bind_run]
  cases body _ <;> rfl

/-- What the lines of an import have is had by all of them together, if it is kept by putting
steps one after the other and one level deeper. -/
theorem importLines_of {P : LowerM Unit → Prop} (hNone : P (pure ()))
    (hPath : ∀ path, P (emit (.importPath path))) (hGrouped : ∀ path, P (emit (.groupedPath path)))
    (hOpen : P (emit .importOpen)) (hClose : P (emit .importClose))
    (hSeq : ∀ {x y}, P x → P y → P (x >>= fun _ => y)) (hDeeper : ∀ {x}, P x → P (deeper x))
    (paths : List String) : P (importLines paths) := by
  have hGroup (paths : List String) : P (paths.forM fun path => emit (.groupedPath path)) := by
    induction paths with
    | nil => exact hNone
    | cons path rest ih => exact hSeq (hGrouped path) ih
  unfold importLines
  split
  next path => exact hPath path
  next => exact hSeq hOpen (hSeq (hDeeper (hGroup paths)) hClose)

theorem forM_groupedPath (paths : List String) (s : State) :
    (paths.forM fun path => emit (.groupedPath path)) s =
      .ok () { s with
        lines := (paths.map fun path => ⟨s.depth, .groupedPath path⟩).reverse ++ s.lines } := by
  induction paths generalizing s with
  | nil => rfl
  | cons path paths ih =>
      change (paths.forM fun path => emit (.groupedPath path))
        { s with lines := ⟨s.depth, .groupedPath path⟩ :: s.lines } = _
      rw [ih, List.map_cons, List.reverse_cons, List.append_assoc]
      rfl

theorem importLines_run (paths : List String) (s : State) :
    importLines paths s =
      .ok () { s with lines := (importCode s.depth paths).reverse ++ s.lines } := by
  have hGroup : (do
      emit .importOpen
      deeper (paths.forM fun path => emit (.groupedPath path))
      emit .importClose) s =
        .ok () { s with lines := (⟨s.depth, .importOpen⟩ :: (paths.map
          (fun path => ⟨s.depth + 1, .groupedPath path⟩) ++ [⟨s.depth, .importClose⟩])).reverse
            ++ s.lines } := by
    rw [List.reverse_cons, List.reverse_append, List.append_assoc]
    change (deeper (paths.forM fun path => emit (.groupedPath path)) >>= fun _ => emit .importClose)
      { s with lines := ⟨s.depth, .importOpen⟩ :: s.lines } = _
    rw [bind_run, deeper_run, forM_groupedPath]
    rfl
  match paths with
  | [] | _ :: _ :: _ => exact hGroup
  | [path] => rfl

end Lower

end TryGo
