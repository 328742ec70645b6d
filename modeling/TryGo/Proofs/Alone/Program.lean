import TryGo.Proofs.Alone.Balanced
import TryGo.Proofs.Gate.Lowering
import TryGo.Proofs.Layout.Lowering

/-! A function is lowered alone. Its body opens a frame and a block of its own, and no step inside
looks below them. So the lines that are written for a function are the same wherever it stands,
and only the blank line in front of it depends on its neighbour. -/
namespace TryGo

def Stmt.isFunc : Stmt → Bool
  | .func _ _ _ _ _ _ => true
  | _ => false

namespace Lower

/-! ### States on top of other states -/

/-- A state whose lines, frames, scopes and events lie on those of another one. -/
def State.over (s base : State) : State where
  lines := s.lines ++ base.lines
  depth := s.depth
  frames := s.frames ++ base.frames
  scopes := s.scopes ++ base.scopes
  events := s.events ++ base.events

/-- What a step comes to, on top of another state. -/
def resultOver {α : Type} (base : State) :
    EStateM.Result Fault State α → EStateM.Result Fault State α
  | .ok a s => .ok a (s.over base)
  | .error fault s => .error fault (s.over base)

/-- Whether a step does the same on top of any other state, from the states that are ready for
it. -/
def Alone {α : Type} (ready : State → Prop) (step : LowerM α) : Prop :=
  ∀ s base, ready s → step (s.over base) = resultOver base (step s)

/-- Whether a function or closure is being lowered. -/
def State.InFrame (s : State) : Prop := s.frames ≠ []

/-- Whether a block of a function or closure is being lowered. -/
def State.InBlock (s : State) : Prop := s.frames ≠ [] ∧ s.scopes ≠ []

section Steps

variable {α β : Type} {ready : State → Prop} {step : LowerM α} {next : α → LowerM β}

theorem alone_value (a : α) : Alone ready (pure a) := fun _ _ _ => rfl

theorem alone_fault (fault : Fault) : Alone ready (throw fault : LowerM α) := fun _ _ _ => rfl

theorem alone_emit (code : Go.Code) : Alone ready (emit code) := fun _ _ _ => rfl

theorem alone_record (event : Event) : Alone ready (record event) := fun _ _ _ => rfl

/-- Two steps in a row stand alone if both do and the first keeps what the second needs. -/
theorem Alone.bind (hStep : Alone ready step)
    (hKeeps : ∀ {s a s'}, ready s → step s = .ok a s' → ready s')
    (hNext : ∀ a, Alone ready (next a)) : Alone ready (step >>= next) := by
  intro s base hReady
  rw [bind_run, bind_run, hStep s base hReady]
  cases hRun : step s with
  | ok a middle => exact hNext a middle base (hKeeps hReady hRun)
  | error fault middle => rfl

/-- A choice stands alone if both of its arms do. -/
theorem Alone.ite {condition : Prop} [Decidable condition] {other : LowerM α}
    (hThen : Alone ready step) (hElse : Alone ready other) :
    Alone ready (if condition then step else other) := by
  split
  · exact hThen
  · exact hElse

/-- Being ready is kept by a balanced step if it only asks for what is open. -/
theorem Alone.after (hStep : Alone ready step) (hBalanced : Balanced step)
    (hReady : ∀ {s s'}, Restores (fun _ => True) s s' → ready s → ready s')
    (hNext : ∀ a, Alone ready (next a)) : Alone ready (step >>= next) :=
  hStep.bind (fun hStart hRun => hReady (hBalanced.restores hRun) hStart) hNext

/-- What is closed on top of another state is closed as it is without it. -/
theorem closing_over {leave : State → State} {result : EStateM.Result Fault State Unit}
    (base : State)
    (hLeave : ∀ s, result = .ok () s → leave (s.over base) = (leave s).over base) :
    closing leave (resultOver base result) = resultOver base (closing leave result) := by
  cases result with
  | ok _ s => exact congrArg (EStateM.Result.ok ()) (hLeave s rfl)
  | error fault s => rfl

end Steps

section Restored

variable {codes : Go.Code → Prop} {s s' : State}

/-- A step that restores the scopes leaves one if there was one. -/
theorem Restores.scopes_ne_nil (hSame : Restores codes s s') (hScopes : s.scopes ≠ []) :
    s'.scopes ≠ [] := by
  intro hNone
  have hEmpty := hSame.isEmpty
  rw [hNone] at hEmpty
  exact hScopes (List.isEmpty_iff.mp hEmpty.symm)

/-- It leaves the frame too. -/
theorem State.InFrame.of_restores (hSame : Restores codes s s') (hReady : s.InFrame) :
    s'.InFrame := fun hNone => hReady (hSame.frames ▸ hNone)

/-- It leaves the block too. -/
theorem State.InBlock.of_restores (hSame : Restores codes s s') (hReady : s.InBlock) :
    s'.InBlock := ⟨hSame.frames ▸ hReady.1, hSame.scopes_ne_nil hReady.2⟩

end Restored

theorem tail_append_of_ne_nil {α : Type} {front : List α} (back : List α) (hFront : front ≠ []) :
    (front ++ back).tail = front.tail ++ back := by
  cases front with
  | nil => exact absurd rfl hFront
  | cons => rfl

/-- In a frame, a step inside a block of its own stands alone. -/
theorem Alone.inBlock {body : LowerM Unit} (hBody : Alone State.InBlock body)
    (hBalanced : Balanced body) (names : List String) :
    Alone State.InFrame (inBlock names body) := by
  intro s base hFrame
  have hReady : (s.inside names).InBlock := ⟨hFrame, List.cons_ne_nil _ _⟩
  rw [inBlock_run, inBlock_run]
  change closing _ (body ((s.inside names).over base)) = _
  rw [hBody _ base hReady]
  refine closing_over base fun inner hInner => ?_
  have hInside : inner.InBlock := hReady.of_restores (hBalanced.restores hInner)
  simp only [State.outside, State.over, tail_append_of_ne_nil _ hInside.2]

section Brackets

variable {ready inside : State → Prop} {body : LowerM Unit}

/-- A frame that is opened is there until it is closed. -/
theorem Alone.inFrame (hBody : Alone inside body) (hBalanced : Balanced body) (frame : Frame)
    (hEnter : ∀ s, ready s → inside { s with frames := frame :: s.frames }) :
    Alone ready (inFrame frame body) := by
  intro s base hReady
  let framed : State := { s with frames := frame :: s.frames }
  rw [inFrame_run, inFrame_run]
  change closing _ (body (framed.over base)) = _
  rw [hBody framed base (hEnter s hReady)]
  refine closing_over base fun inner hInner => ?_
  have hFrames : inner.frames ≠ [] := by
    rw [(hBalanced.restores hInner).frames]
    exact List.cons_ne_nil _ _
  simp only [State.over, tail_append_of_ne_nil _ hFrames]

/-- What stands alone does so at any depth. -/
theorem Alone.deeper (hBody : Alone ready body)
    (hEnter : ∀ s, ready s → ready { s with depth := s.depth + 1 }) :
    Alone ready (deeper body) := by
  intro s base hReady
  let indented : State := { s with depth := s.depth + 1 }
  rw [deeper_run, deeper_run]
  change closing _ (body (indented.over base)) = _
  rw [hBody indented base (hEnter s hReady)]
  exact closing_over base fun _ _ => rfl

end Brackets

/-- A balanced step looks at nothing below its block, and below the functions that are being lowered
there is nothing that it could look at. -/
theorem Balanced.over {α : Type} {step : LowerM α} (hStep : Balanced step) {s base : State}
    (hScopes : s.scopes ≠ []) (hFrames : s.frames ≠ [] ∨ base.frames = []) :
    step (s.over base) = resultOver base (step s) := by
  induction hStep generalizing s with
  | value | fault | emit | record => rfl
  | declare | isDeclared =>
      obtain ⟨lines, depth, frames, scopes, events⟩ := s
      cases scopes with
      | nil => exact absurd rfl hScopes
      | cons scope outer => rfl
  | frame? =>
      obtain ⟨lines, depth, frames, scopes, events⟩ := s
      cases frames with
      | nil =>
          have hNone : base.frames = [] := hFrames.resolve_left fun h => h rfl
          change EStateM.Result.ok ([] ++ base.frames).head? _ = _
          rw [hNone]
          rfl
      | cons frame outer => rfl
  | @inBlock names body hBody ih =>
      rw [inBlock_run, inBlock_run]
      change closing _ (body ((s.inside names).over base)) = _
      rw [ih (s := s.inside names) (List.cons_ne_nil names s.scopes) hFrames]
      refine closing_over base fun inner hInner => ?_
      have hInside := (hBody.restores hInner).scopes_ne_nil (List.cons_ne_nil names s.scopes)
      simp only [State.outside, State.over, tail_append_of_ne_nil _ hInside]
  | @inFrame frame body hBody ih =>
      let framed : State := { s with frames := frame :: s.frames }
      rw [inFrame_run, inFrame_run]
      change closing _ (body (framed.over base)) = _
      rw [ih (s := framed) hScopes (.inl (List.cons_ne_nil frame s.frames))]
      refine closing_over base fun inner hInner => ?_
      have hInside : inner.frames ≠ [] := by
        rw [(hBody.restores hInner).frames]
        exact List.cons_ne_nil _ _
      simp only [State.over, tail_append_of_ne_nil _ hInside]
  | @inScope body hBody ih =>
      let opened : State := { s with scopes := [] :: s.scopes }
      rw [inScope_run, inScope_run]
      change closing _ (body (opened.over base)) = _
      rw [ih (s := opened) (List.cons_ne_nil [] s.scopes) hFrames]
      refine closing_over base fun inner hInner => ?_
      have hInside := (hBody.restores hInner).scopes_ne_nil (List.cons_ne_nil [] s.scopes)
      simp only [State.over, tail_append_of_ne_nil _ hInside]
  | @deeper body _ ih =>
      let indented : State := { s with depth := s.depth + 1 }
      rw [deeper_run, deeper_run]
      change closing _ (body (indented.over base)) = _
      rw [ih (s := indented) hScopes hFrames]
      exact closing_over base fun _ _ => rfl
  | @bind _ _ first next hFirst _ ih ihNext =>
      rw [bind_run, bind_run, ih hScopes hFrames]
      cases hRun : first s with
      | error fault middle => rfl
      | ok a middle =>
          have hSame := hFirst.restores hRun
          exact ihNext a (hSame.scopes_ne_nil hScopes) (hSame.frames.symm ▸ hFrames)

/-- A balanced step inside a block looks at nothing but what is open there. -/
theorem Balanced.alone {α : Type} {step : LowerM α} (hStep : Balanced step) :
    Alone State.InBlock step := fun _ _ hReady => hStep.over hReady.2 (.inl hReady.1)

/-! ### Functions -/

section Functions

variable {ready : State → Prop}

theorem alone_checkForms (es : List Expr) : Alone ready (checkForms es) := by
  unfold checkForms
  split
  · exact alone_fault _
  · exact alone_value ()

theorem alone_namesOf (es : List Expr) : Alone ready (namesOf es) := by
  unfold namesOf
  cases es.mapM Expr.heldValue with
  | ok values => exact alone_value _
  | error error => exact alone_fault _

/-- The contents of a block are lowered in a block of their own, whatever they are. -/
theorem lowerBlock_alone (names : List String) (s : Stmt) :
    Alone State.InFrame (lowerBlock names s) := by
  have hInside {body : LowerM Unit} (hBody : Balanced body) :
      Alone State.InFrame (inBlock names body) := hBody.alone.inBlock hBody names
  cases s with
  | missing => exact hInside (.value ())
  | block _ statements => exact hInside (lowerAll_balanced statements)
  | program _ statements => exact hInside (lowerAll_balanced statements)
  | _ => exact hInside (.fault _ trivial)

/-- What a function does behind its header: it opens its frame, and in that its block. -/
theorem funcBody_alone (params : List Expr) (body : Stmt) (frame : Frame) (closes : Bool) :
    Alone (fun _ => True) (inFrame frame do
      lowerBlock (← namesOf params) body
      if closes then deeper (emit (.ret ["nil"]))) := by
  have hBlock (names : List String) := lowerBlock_balanced names body
  have hLast : Alone State.InFrame (if closes then deeper (emit (.ret ["nil"])) else pure ()) :=
    .ite ((alone_emit _).deeper fun _ hReady => hReady) (alone_value ())
  have hInside : Alone State.InFrame (do
      lowerBlock (← namesOf params) body
      if closes then deeper (emit (.ret ["nil"]))) :=
    (alone_namesOf params).after inferInstance State.InFrame.of_restores fun names =>
      (lowerBlock_alone names body).after (hBlock names) State.InFrame.of_restores fun _ => hLast
  exact hInside.inFrame inferInstance frame fun _ _ => List.cons_ne_nil _ _

/-- A function is lowered alone, from any state at all. -/
theorem func_alone (token : Token) (name : Expr) (params : List Expr)
    (types : List (Option String)) (result : Option String) (body : Stmt) :
    Alone (fun _ => True) (lower (.func token name params types result body)) := by
  have hFirst {α β : Type} {step : LowerM α} {next : α → LowerM β}
      (hStep : Alone (fun _ => True) step) (hNext : ∀ a, Alone (fun _ => True) (next a)) :
      Alone (fun _ => True) (step >>= next) := hStep.bind (fun _ _ => trivial) hNext
  refine hFirst (alone_checkForms _) fun _ => .ite (hFirst (alone_record _) fun _ => ?_) ?_
  all_goals
    refine hFirst (alone_checkForms _) fun _ => hFirst (alone_emit _) fun _ => ?_
    exact hFirst (funcBody_alone params body _ _) fun _ => alone_emit _

end Functions

/-! ### The lines of each statement -/

def State.linesSince (s' s : State) : List Go.Line :=
  (s'.lines.take (s'.lines.length - s.lines.length)).reverse

/-- The state before a top-level statement, which may be set off by a blank line. -/
def State.setOff (gap : Bool) (s : State) : State :=
  if gap then { s with lines := ⟨s.depth, .blank⟩ :: s.lines } else s

end Lower

/-- What is written for a top-level statement: whether a blank line sets it off from the one before
it, and its own lines. -/
structure Piece where
  stmt : Stmt
  gap : Bool
  lines : List Go.Line

/-- The lines of a piece with the blank line in front of it. -/
def Piece.written (piece : Piece) : List Go.Line :=
  if piece.gap then ⟨0, .blank⟩ :: piece.lines else piece.lines

namespace Lower

/-- What is written for each of some top-level statements, if they are lowered from a state. -/
def pieces (previous : Option Stmt) : List Stmt → State → Except Fault (List Piece)
  | [], _ => .ok []
  | s :: rest, before =>
      let gap := (previous.map fun p => needsBlankLine p s).getD false
      match lower s (before.setOff gap) with
      | .error fault _ => .error fault
      | .ok () after =>
          (pieces (some s) rest after).map
            (⟨s, gap, after.linesSince (before.setOff gap)⟩ :: ·)

end Lower

/-- What is written for each top-level statement of a program, with the imports that it lacks. -/
def Program.pieces (program : Program) : Except Lower.Fault (List Piece) :=
  let missing := Lower.missingPackages program
  let events := if missing.isEmpty then [] else [Event.injectedImports missing]
  Lower.pieces none (Lower.withErrorImports program) { Lower.State.init with events := events }

namespace Lower

variable {s s' : State}

/-- The lines since a state come behind those of the state. -/
theorem State.lines_linesSince (hLines : s.lines <:+ s'.lines) :
    s'.lines.reverse = s.lines.reverse ++ s'.linesSince s := by
  obtain ⟨added, hAdded⟩ := hLines
  rw [State.linesSince, ← hAdded, List.length_append, Nat.add_sub_cancel, List.take_left,
    List.reverse_append]

/-- A gap in front is a blank line that was written before. -/
theorem setOff_run (gap : Bool) (next : LowerM Unit) (s : State) :
    (do if gap then emit .blank
        next) s = next (s.setOff gap) := by
  cases gap <;> rfl

theorem State.depth_setOff (gap : Bool) (s : State) : (s.setOff gap).depth = s.depth := by
  cases gap <;> rfl

/-- A piece is what its statement adds behind the blank line that sets it off. -/
theorem State.lines_piece {gap : Bool} (hDepth : s.depth = 0)
    (hLines : (s.setOff gap).lines <:+ s'.lines) (stmt : Stmt) :
    s'.lines.reverse =
      s.lines.reverse ++ Piece.written ⟨stmt, gap, s'.linesSince (s.setOff gap)⟩ := by
  rw [State.lines_linesSince hLines]
  cases gap with
  | false => rfl
  | true =>
      change (⟨s.depth, .blank⟩ :: s.lines).reverse ++ _ = _
      rw [hDepth, List.reverse_cons, List.append_assoc]
      rfl

def State.bare : State := ⟨[], 0, [], [], []⟩

/-- Put over a state at depth zero, the bare state is that state. -/
theorem State.bare_over (hDepth : s.depth = 0) : State.bare.over s = s := by
  obtain ⟨lines, depth, frames, scopes, events⟩ := s
  cases hDepth
  rfl

/-- The lines that are written for a function are those that it has alone. -/
theorem linesSince_of_isFunc {stmt : Stmt} (hFunc : stmt.isFunc = true) (hDepth : s.depth = 0)
    (hRun : lower stmt s = .ok () s') :
    ∃ alone, lower stmt State.bare = .ok () alone ∧ s'.linesSince s = alone.lines.reverse := by
  cases stmt with
  | func token name params types result body =>
      have hOver := func_alone token name params types result body State.bare s trivial
      rw [State.bare_over hDepth, hRun] at hOver
      cases hAlone : lower (.func token name params types result body) State.bare with
      | error fault _ =>
          rw [hAlone] at hOver
          cases hOver
      | ok _ alone =>
          rw [hAlone] at hOver
          injection hOver with _ hState
          refine ⟨alone, rfl, ?_⟩
          rw [State.linesSince, hState]
          change ((alone.lines ++ s.lines).take _).reverse = _
          rw [State.over, List.length_append, Nat.add_sub_cancel, List.take_left]
  | _ => cases hFunc

/-- The pieces of top-level statements are what lowering them writes, in order, and the piece of a
function is what is written for it alone. -/
theorem lowerTop_pieces (statements : List Stmt) {previous : Option Stmt} {s s' : State}
    (hDepth : s.depth = 0) (hRun : lowerTop previous statements s = .ok () s') :
    ∃ pieces, Lower.pieces previous statements s = .ok pieces
      ∧ pieces.map Piece.stmt = statements
      ∧ s'.lines.reverse = s.lines.reverse ++ pieces.flatMap Piece.written
      ∧ ∀ piece ∈ pieces, piece.stmt.isFunc = true →
        ∃ alone, lower piece.stmt State.bare = .ok () alone
          ∧ piece.lines = alone.lines.reverse := by
  induction statements generalizing previous s with
  | nil =>
      cases hRun
      exact ⟨[], rfl, rfl, (List.append_nil _).symm, fun _ hMem => nomatch hMem⟩
  | cons stmt rest ih =>
      rw [lowerTop, setOff_run, bind_run] at hRun
      rw [Lower.pieces]
      generalize (previous.map fun p => needsBlankLine p stmt).getD false = gap at hRun ⊢
      have hOff := State.depth_setOff gap s
      cases hFirst : lower stmt (s.setOff gap) with
      | error fault _ =>
          rw [hFirst] at hRun
          cases hRun
      | ok _ after =>
          rw [hFirst] at hRun
          have hSame := (lower_balanced stmt).restores hFirst
          obtain ⟨pieces, hPieces, hStmts, hLines, hAlone⟩ :=
            ih (hSame.depth.trans (hOff.trans hDepth)) hRun
          refine ⟨⟨stmt, gap, after.linesSince (s.setOff gap)⟩ :: pieces, ?_, ?_, ?_, ?_⟩
          · dsimp only
            rw [hPieces]
            rfl
          · rw [List.map_cons, hStmts]
          · rw [hLines, State.lines_piece hDepth hSame.lines stmt, List.flatMap_cons,
              List.append_assoc]
          · intro piece hMem hFunc
            rcases List.mem_cons.mp hMem with rfl | hMem
            · exact linesSince_of_isFunc hFunc (hOff.trans hDepth) hFirst
            · exact hAlone piece hMem hFunc

/-- What is written for a whole program is made of the pieces of its statements, and its functions
have their pieces in order. -/
theorem lower_pieces {program : Program} {lines : List Go.Line}
    (hLines : program.lower.result = .ok lines) :
    ∃ pieces, program.pieces = .ok pieces ∧ lines = pieces.flatMap Piece.written
      ∧ (pieces.map Piece.stmt).filter Stmt.isFunc = program.statements.filter Stmt.isFunc
      ∧ ∀ piece ∈ pieces, piece.stmt.isFunc = true →
        ∃ alone, lower piece.stmt State.bare = .ok () alone
          ∧ piece.lines = alone.lines.reverse := by
  have hStart : lowerProgram program State.init = lowerTop none (withErrorImports program)
      { State.init with events := if (missingPackages program).isEmpty then []
          else [.injectedImports (missingPackages program)] } := by
    rw [lowerProgram]
    cases (missingPackages program).isEmpty <;> rfl
  rw [Program.lower, hStart] at hLines
  split at hLines
  next s' hRun =>
    cases hLines
    obtain ⟨pieces, hPieces, hStmts, hWritten, hAlone⟩ := lowerTop_pieces _ rfl hRun
    refine ⟨pieces, hPieces, hWritten, ?_, hAlone⟩
    rw [hStmts, filter_withErrorImports fun _ _ => rfl]
  next => cases hLines

end Lower

theorem Stmt.isFunc_unplaced (s : Stmt) : s.unplaced.isFunc = s.isFunc := by
  cases s <;> rfl

namespace Lower

/-- Where a statement stands in its source has no influence on its lines. -/
theorem lines_of_unplaced {stmt stmt' : Stmt} {s s' : State}
    (hSame : stmt.unplaced = stmt'.unplaced) (hRun : lower stmt State.bare = .ok () s)
    (hRun' : lower stmt' State.bare = .ok () s') : s.lines = s'.lines := by
  have hLeft := lower_agrees stmt State.bare State.bare rfl
  have hRight := lower_agrees stmt' State.bare State.bare rfl
  rw [hSame, ← hRight, hRun, hRun'] at hLeft
  injection hLeft with _ hSilent
  have hLines : s.silent.lines = s'.silent.lines := congrArg State.lines hSilent
  exact hLines

end Lower

/-- In any two programs the same lines are written for a function, whatever stands around it and
wherever it stands. What is written for a program is made of the pieces of its top-level
statements, each behind the blank line that may set it off, and its functions have their pieces
in order. -/
theorem func_lines_eq {p q : Program} {lines lines' : List Go.Line}
    (hLines : p.lower.result = .ok lines) (hLines' : q.lower.result = .ok lines') :
    ∃ ps qs, p.pieces = .ok ps ∧ lines = ps.flatMap Piece.written
      ∧ (ps.map Piece.stmt).filter Stmt.isFunc = p.statements.filter Stmt.isFunc
      ∧ q.pieces = .ok qs ∧ lines' = qs.flatMap Piece.written
      ∧ (qs.map Piece.stmt).filter Stmt.isFunc = q.statements.filter Stmt.isFunc
      ∧ ∀ x ∈ ps, ∀ y ∈ qs, x.stmt.isFunc = true → x.stmt.unplaced = y.stmt.unplaced →
        x.lines = y.lines := by
  obtain ⟨ps, hPieces, hWritten, hFuncs, hAlone⟩ := Lower.lower_pieces hLines
  obtain ⟨qs, hPieces', hWritten', hFuncs', hAlone'⟩ := Lower.lower_pieces hLines'
  refine ⟨ps, qs, hPieces, hWritten, hFuncs, hPieces', hWritten', hFuncs', ?_⟩
  intro x hx y hy hFunc hSame
  have hFunc' : y.stmt.isFunc = true := by
    rw [← y.stmt.isFunc_unplaced, ← hSame, x.stmt.isFunc_unplaced, hFunc]
  obtain ⟨alone, hRun, hOwn⟩ := hAlone x hx hFunc
  obtain ⟨alone', hRun', hOwn'⟩ := hAlone' y hy hFunc'
  rw [hOwn, hOwn', Lower.lines_of_unplaced hSame hRun hRun']

/-- A function of a program has its piece. -/
theorem Piece.exists_of_filter {pieces : List Piece} {funcs : List Stmt} {f : Stmt}
    (hFuncs : (pieces.map Piece.stmt).filter Stmt.isFunc = funcs) (hMem : f ∈ funcs) :
    ∃ piece ∈ pieces, piece.stmt = f :=
  List.mem_map.mp (List.mem_filter.mp (hFuncs ▸ hMem)).1

/-- A function with a try and a throw, which stands at some token. -/
def raisingFunc (token : Token) : Stmt :=
  let name (text : String) := Expr.ident token text
  let call (callee argument : String) := Stmt.expr token (.call token (name callee) [name argument])
  let clause := Stmt.catchClause token (name "e") none (.block token [.throw token (name "e")])
  .func token (name "f") [name "a"] [some "int"] (some "int")
    (.block token
      [.tryCatch token (.block token [call "h" "a"]) [clause] .missing, .ret token [name "a"]])

/-- The function between a variable and a try that declare the names which it declares itself. -/
def crowdedProgram : Program :=
  let name (text : String) := Expr.ident Token.blank text
  let body := Stmt.block Token.blank [.throw Token.blank (name "a")]
  let clause := Stmt.catchClause Token.blank (name "e") none (.block Token.blank [])
  ⟨Token.blank, [.package Token.blank "p", .decl Token.blank .var (name "err") none (name "a"),
    raisingFunc ⟨.kwFunc, "func", ⟨3, 5, 40⟩⟩, .tryCatch Token.blank body [clause] .missing]⟩

def lonelyProgram : Program := ⟨Token.blank, [raisingFunc ⟨.kwFunc, "func", ⟨1, 1, 0⟩⟩]⟩

/-- A function that throws is written the same in a crowd and alone. -/
theorem func_lines_eq_crowdedProgram :
    ∃ ps qs, crowdedProgram.pieces = .ok ps ∧ lonelyProgram.pieces = .ok qs
      ∧ ∃ x ∈ ps, ∃ y ∈ qs, x.stmt = raisingFunc ⟨.kwFunc, "func", ⟨3, 5, 40⟩⟩
        ∧ y.stmt = raisingFunc ⟨.kwFunc, "func", ⟨1, 1, 0⟩⟩ ∧ x.lines = y.lines := by
  have hCrowded : crowdedProgram.lower.result = .ok _ := eq_ok_getD [] (by decide +kernel)
  have hLonely : lonelyProgram.lower.result = .ok _ := eq_ok_getD [] (by decide +kernel)
  obtain ⟨ps, qs, hPs, -, hFuncs, hQs, -, hFuncs', hSame⟩ := func_lines_eq hCrowded hLonely
  obtain ⟨x, hx, hxStmt⟩ := Piece.exists_of_filter hFuncs List.mem_cons_self
  obtain ⟨y, hy, hyStmt⟩ := Piece.exists_of_filter hFuncs' List.mem_cons_self
  refine ⟨ps, qs, hPs, hQs, x, hx, y, hy, hxStmt, hyStmt, hSame x hx y hy ?_ ?_⟩
  · rw [hxStmt]
    rfl
  · rw [hxStmt, hyStmt]
    rfl

end TryGo
