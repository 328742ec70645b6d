import TryGo.Proofs.Alone.Program
import TryGo.Proofs.Reuse.Lowering

/-! The catch clauses of a try as one conditional. What is written for them is given by their list
alone: an arm with a type test for each clause in front of the first catch-all, then the
catch-all, and nothing for what comes behind it. What is written for the body of a clause is
what lowering writes for it if it starts with nothing written. -/
namespace TryGo

/-! ### What is written -/

/-- Some lines and events, oldest first. -/
structure Written where
  lines : List Go.Line
  events : List Event

namespace Written

def none : Written := ⟨[], []⟩

instance : Append Written := ⟨fun w more => ⟨w.lines ++ more.lines, w.events ++ more.events⟩⟩

def line (depth : Nat) (code : Go.Code) : Written := ⟨[⟨depth, code⟩], []⟩

def all (parts : List Written) : Written := parts.foldr (· ++ ·) none

variable (w more last : Written)

theorem lines_append : (w ++ more).lines = w.lines ++ more.lines := rfl

theorem events_append : (w ++ more).events = w.events ++ more.events := rfl

theorem append_assoc : w ++ more ++ last = w ++ (more ++ last) := by
  change Written.mk _ _ = Written.mk _ _
  simp only [lines_append, events_append, List.append_assoc]

end Written

def Stmt.isCatchAll : Stmt → Bool
  | .catchClause _ _ type _ => !isTyped type
  | _ => false

namespace Lower

/-- A state in which nothing is written yet, in a block that has some names. -/
def State.start (depth : Nat) (frames : List Frame) (names : List String) : State :=
  ⟨[], depth, frames, [names], []⟩

/-- What is written for the contents of a block at a depth, inside some functions, where the block
has some names already. -/
def contents (depth : Nat) (frames : List Frame) (names : List String) (body : Stmt) : Written :=
  match lowerStatements body (State.start depth frames names) with
  | .ok _ s | .error _ s => ⟨s.lines.reverse, s.events.reverse⟩

/-- What is written inside the arm of a clause: its variable, and its body. If there is a type test,
that binds the variable. -/
def clauseWritten (depth : Nat) (frames : List Frame) : Stmt → Written
  | .catchClause _ name type body =>
      let bound := (caughtName name).toList
      let declared := if isTyped type then [] else bound
      ⟨declared.map (fun binding => ⟨depth, .bindErr binding⟩)
        ++ bound.map (fun binding => ⟨depth, .use binding⟩), []⟩
        ++ contents depth frames declared body
  | _ => .none

/-- An arm with a type test, up to its last brace. -/
def armWritten (depth : Nat) (frames : List Frame) (chained : Bool) : Stmt → Written
  | .catchClause token name type body =>
      .line depth (.catchOpen chained (caughtPattern name) (type.getD ""))
        ++ clauseWritten (depth + 1) frames (.catchClause token name type body)
  | _ => .none

/-- The arms of clauses with types. All but the first one are chained to the one before. -/
def armsWritten (depth : Nat) (frames : List Frame) : List Stmt → Written
  | [] => .none
  | first :: later =>
      armWritten depth frames false first ++ .all (later.map (armWritten depth frames true))

/-- What is written behind the arms, from the first catch-all on. If there are arms, it is the last
one, or else only a brace. The clauses behind it are counted in a warning. -/
def lastWritten (depth : Nat) (frames : List Frame) (chained : Bool) : List Stmt → Written
  | .catchClause token name type body :: dropped =>
      (if chained then
        .line depth .elseOpen
          ++ clauseWritten (depth + 1) frames (.catchClause token name type body)
          ++ .line depth .close
      else clauseWritten depth frames (.catchClause token name type body))
        ++ ⟨[], if dropped.isEmpty then [] else [.droppedCatches dropped.length token.pos.line]⟩
  | _ => if chained then .line depth .close else .none

/-- What is written for the catch clauses of a try. -/
def chainWritten (depth : Nat) (frames : List Frame) (catches : List Stmt) : Written :=
  let k := catches.findIdx Stmt.isCatchAll
  .line depth .errCheck
    ++ (armsWritten (depth + 1) frames (catches.take k)
      ++ lastWritten (depth + 1) frames (0 < k) (catches.drop k))
    ++ .line depth .close

/-- What is written for a try with catch clauses, in a block that has some names. -/
def tryWritten (depth : Nat) (frames : List Frame) (names : List String) (body : Stmt)
    (catches : List Stmt) (cleanup : Stmt) : Written :=
  .line depth (.tryOpen (names.contains "err"))
    ++ (contents (depth + 1) (⟨[errorType], false⟩ :: frames) [] body
      ++ .line (depth + 1) (.ret ["nil"]))
    ++ .line depth .tryClose
    ++ chainWritten depth frames catches
    ++ contents depth frames ("err" :: names) cleanup

/-! ### Runs -/

def State.plus (s : State) (w : Written) : State :=
  { s with lines := w.lines.reverse ++ s.lines, events := w.events.reverse ++ s.events }

theorem State.plus_append (s : State) (w more : Written) :
    s.plus (w ++ more) = (s.plus w).plus more := by
  simp only [State.plus, Written.lines_append, Written.events_append, List.reverse_append,
    List.append_assoc]

section Runs

variable {s : State} {scope : List String} {outer : List (List String)}

/-- What is written for the contents of a block does not depend on what is outside. -/
theorem lowerStatements_run {body : Stmt} (hPlace : (body.isMissing || body.isBlock) = true)
    (hShaped : body.Shaped) (hScopes : s.scopes = scope :: outer) :
    ∃ scope', lowerStatements body s =
      .ok () { s.plus (contents s.depth s.frames scope body) with scopes := scope' :: outer } := by
  have hBalanced := lowerStatements_balanced body
  let start := State.start s.depth s.frames scope
  let base : State := ⟨s.lines, 0, [], outer, s.events⟩
  have hOver : start.over base = s := by
    obtain ⟨lines, depth, frames, scopes, events⟩ := s
    cases hScopes
    simp [start, base, State.over, State.start]
  obtain ⟨⟨⟩, alone, hRun⟩ := (lowerStatements_sound body hPlace hShaped False.elim).exists_ok start
  have hSame := hBalanced.restores hRun
  have hWritten : contents s.depth s.frames scope body =
      ⟨alone.lines.reverse, alone.events.reverse⟩ := by
    rw [contents, hRun]
  obtain ⟨scope', hLast⟩ : ∃ scope', alone.scopes = [scope'] := by
    cases hAlone : alone.scopes with
    | nil => exact absurd hAlone (hSame.scopes_ne_nil (List.cons_ne_nil scope []))
    | cons scope' more =>
        have hNone : alone.scopes.tail = [] := hSame.outer
        rw [hAlone] at hNone
        exact ⟨scope', congrArg _ hNone⟩
  refine ⟨scope', ?_⟩
  rw [← hOver, hBalanced.over (List.cons_ne_nil scope []) (.inr rfl), hRun, hOver, hWritten]
  have hFrames : alone.frames = s.frames := hSame.frames
  have hDepth : alone.depth = s.depth := hSame.depth
  simp [resultOver, State.over, State.plus, base, hLast, hFrames, hDepth]

/-- A block adds what is written inside, and leaves the scopes as they were. -/
theorem inBlock_plus {names : List String} {body : LowerM Unit} {w : Written}
    (hBody : ∃ scope', body (s.inside names) =
      .ok () { (s.inside names).plus w with scopes := scope' :: s.scopes }) :
    inBlock names body s = .ok () (s.plus w) := by
  obtain ⟨scope', hRun⟩ := hBody
  rw [inBlock_run, hRun]
  rfl

/-- A clause declares its variable only if there is no type test that binds it. -/
theorem bindCaught_run {name : Expr} (hName : (name.isMissing || name.isIdent) = true)
    (type : Option String) (hScopes : s.scopes = [] :: outer) :
    let bound := (caughtName name).toList
    let declared := if isTyped type then [] else bound
    bindCaught name type s = .ok () { s.plus
      ⟨declared.map (fun binding => ⟨s.depth, .bindErr binding⟩)
        ++ bound.map (fun binding => ⟨s.depth, .use binding⟩), []⟩
      with scopes := declared :: outer } := by
  obtain ⟨lines, depth, frames, scopes, events⟩ := s
  cases hScopes
  rw [bindCaught_eq hName]
  cases caughtName name with
  | none => cases isTyped type <;> rfl
  | some binding => cases isTyped type <;> rfl

/-- The inside of an arm, in a block without names. -/
theorem clause_run (token : Token) {name : Expr} (type : Option String) {body : Stmt}
    (hName : (name.isMissing || name.isIdent) = true) (hBlock : body.isBlock = true)
    (hBody : body.Shaped) (hScopes : s.scopes = [] :: outer) :
    ∃ scope', (do bindCaught name type; lowerStatements body) s =
      .ok () { s.plus (clauseWritten s.depth s.frames (.catchClause token name type body))
        with scopes := scope' :: outer } := by
  have hBind := bindCaught_run hName type hScopes
  dsimp only at hBind
  let declared := if isTyped type then [] else (caughtName name).toList
  let bound : State := { s.plus
      ⟨declared.map (fun binding => ⟨s.depth, .bindErr binding⟩)
        ++ (caughtName name).toList.map (fun binding => ⟨s.depth, .use binding⟩), []⟩
      with scopes := declared :: outer }
  obtain ⟨scope', hRun⟩ := lowerStatements_run (s := bound) (missing_or_block hBlock) hBody rfl
  refine ⟨scope', ?_⟩
  rw [bind_run, hBind]
  change lowerStatements body bound = _
  rw [hRun, clauseWritten, State.plus_append]
  rfl

/-- An arm, and what follows it. -/
theorem typedClause_run (token : Token) {name : Expr} {type : Option String} {body : Stmt}
    {rest : List Stmt} (chained : Bool) (hName : (name.isMissing || name.isIdent) = true)
    (hBlock : body.isBlock = true) (hBody : body.Shaped) (hTyped : isTyped type = true)
    (s : State) :
    lowerCatches chained (.catchClause token name type body :: rest) s = lowerCatches true rest
      (s.plus (armWritten s.depth s.frames chained (.catchClause token name type body))) := by
  let opened := s.plus (.line s.depth (.catchOpen chained (caughtPattern name) (type.getD "")))
  have hArm : inBlock [] (do bindCaught name type; lowerStatements body) opened =
      .ok () (opened.plus (clauseWritten (s.depth + 1) s.frames
        (.catchClause token name type body))) :=
    inBlock_plus (clause_run (s := opened.inside []) token type hName hBlock hBody rfl)
  rw [lowerCatches_typed chained hName hTyped, armWritten, State.plus_append]
  change (inBlock [] _ >>= fun _ => lowerCatches true rest) opened = _
  rw [bind_run, hArm]

/-- The warning about dropped clauses. -/
theorem dropped_run (dropped : List Stmt) (line : Nat) (s : State) :
    (if !dropped.isEmpty then record (.droppedCatches dropped.length line) else pure ()) s =
      .ok () (s.plus
        ⟨[], if dropped.isEmpty then [] else [.droppedCatches dropped.length line]⟩) := by
  cases dropped.isEmpty <;> rfl

theorem findIdx_typed (token : Token) (name : Expr) {type : Option String} (body : Stmt)
    (rest : List Stmt) (hTyped : isTyped type = true) :
    List.findIdx Stmt.isCatchAll (.catchClause token name type body :: rest) =
      rest.findIdx Stmt.isCatchAll + 1 := by
  rw [List.findIdx_cons, Stmt.isCatchAll, hTyped]
  rfl

theorem findIdx_catchAll (token : Token) (name : Expr) {type : Option String} (body : Stmt)
    (rest : List Stmt) (hCatchAll : isTyped type = false) :
    List.findIdx Stmt.isCatchAll (.catchClause token name type body :: rest) = 0 := by
  rw [List.findIdx_cons, Stmt.isCatchAll, hCatchAll]
  rfl

/-- A catch-all behind other clauses is the last arm. -/
theorem lastClause_run (token : Token) {name : Expr} {type : Option String} {body : Stmt}
    (dropped : List Stmt) (hName : (name.isMissing || name.isIdent) = true)
    (hBlock : body.isBlock = true) (hBody : body.Shaped) (hCatchAll : isTyped type = false)
    (s : State) :
    lowerCatches true (.catchClause token name type body :: dropped) s = .ok () (s.plus
      (lastWritten s.depth s.frames true (.catchClause token name type body :: dropped))) := by
  let opened := s.plus (.line s.depth .elseOpen)
  let clause := Stmt.catchClause token name type body
  have hArm : inBlock [] (do bindCaught name type; lowerStatements body) opened =
      .ok () (opened.plus (clauseWritten (s.depth + 1) s.frames clause)) :=
    inBlock_plus (clause_run (s := opened.inside []) token type hName hBlock hBody rfl)
  rw [lowerCatches_catchAll true hCatchAll, lastWritten, if_pos rfl, if_pos rfl,
    State.plus_append, State.plus_append, State.plus_append]
  change (inBlock [] _ >>= fun _ => emit .close >>= fun _ => _) opened = _
  rw [bind_run, hArm]
  exact dropped_run dropped token.pos.line _

/-- A catch-all that comes first is no arm. -/
theorem onlyClause_run (token : Token) {name : Expr} {type : Option String} {body : Stmt}
    (dropped : List Stmt) (hName : (name.isMissing || name.isIdent) = true)
    (hBlock : body.isBlock = true) (hBody : body.Shaped) (hCatchAll : isTyped type = false)
    (hScopes : s.scopes = [] :: outer) :
    ∃ scope', lowerCatches false (.catchClause token name type body :: dropped) s =
      .ok () { s.plus
          (lastWritten s.depth s.frames false (.catchClause token name type body :: dropped))
        with scopes := scope' :: outer } := by
  obtain ⟨scope', hRun⟩ := clause_run token type hName hBlock hBody hScopes
  refine ⟨scope', ?_⟩
  rw [lowerCatches_catchAll false hCatchAll, lastWritten, if_neg Bool.false_ne_true,
    if_neg Bool.false_ne_true, ← bind_assoc, bind_run, hRun, State.plus_append]
  exact dropped_run dropped token.pos.line _

/-- Behind an arm the clauses go on with chained arms, up to the first catch-all or to the brace of
the last one. -/
theorem lowerCatches_true_run (catches : List Stmt) (hClauses : Stmt.AllClausesShaped catches)
    (s : State) :
    let k := catches.findIdx Stmt.isCatchAll
    lowerCatches true catches s = .ok () (s.plus
      (.all ((catches.take k).map (armWritten s.depth s.frames true))
        ++ lastWritten s.depth s.frames true (catches.drop k))) := by
  induction catches generalizing s with
  | nil => rfl
  | cons clause rest ih =>
      cases clause with
      | catchClause token name type body =>
          obtain ⟨hName, hBlock, hBody, hRest⟩ := hClauses
          cases hTyped : isTyped type with
          | true =>
              rw [typedClause_run token true hName hBlock hBody hTyped, ih hRest,
                findIdx_typed token name body rest hTyped, ← State.plus_append,
                ← Written.append_assoc]
              rfl
          | false =>
              rw [lastClause_run token rest hName hBlock hBody hTyped,
                findIdx_catchAll token name body rest hTyped]
              rfl
      | _ => exact hClauses.elim

/-- The first arm is not chained to any other. -/
theorem lowerCatches_false_run (catches : List Stmt) (hClauses : Stmt.AllClausesShaped catches)
    (hScopes : s.scopes = [] :: outer) :
    let k := catches.findIdx Stmt.isCatchAll
    ∃ scope', lowerCatches false catches s = .ok () { s.plus
        (armsWritten s.depth s.frames (catches.take k)
          ++ lastWritten s.depth s.frames (0 < k) (catches.drop k))
      with scopes := scope' :: outer } := by
  cases catches with
  | nil =>
      refine ⟨[], ?_⟩
      rw [← hScopes]
      rfl
  | cons clause rest =>
      cases clause with
      | catchClause token name type body =>
          obtain ⟨hName, hBlock, hBody, hRest⟩ := hClauses
          cases hTyped : isTyped type with
          | true =>
              refine ⟨[], ?_⟩
              rw [typedClause_run token false hName hBlock hBody hTyped,
                lowerCatches_true_run rest hRest, findIdx_typed token name body rest hTyped,
                ← State.plus_append, ← Written.append_assoc, ← hScopes]
              rfl
          | false =>
              obtain ⟨scope', hRun⟩ := onlyClause_run token rest hName hBlock hBody hTyped hScopes
              refine ⟨scope', ?_⟩
              rw [hRun, findIdx_catchAll token name body rest hTyped]
              rfl
      | _ => exact hClauses.elim

/-- The test for an error with the clauses in its block. -/
theorem chain_run (catches : List Stmt) (hClauses : Stmt.AllClausesShaped catches) (s : State) :
    (do
      emit .errCheck
      inBlock [] (lowerCatches false catches)
      emit .close) s = .ok () (s.plus (chainWritten s.depth s.frames catches)) := by
  let opened := s.plus (.line s.depth .errCheck)
  have hInside := inBlock_plus (lowerCatches_false_run (s := opened.inside []) catches hClauses rfl)
  rw [chainWritten, State.plus_append, State.plus_append]
  change (inBlock [] (lowerCatches false catches) >>= fun _ => emit .close) opened = _
  rw [bind_run, hInside]
  rfl

theorem inFrame_plus {frame : Frame} {body : LowerM Unit} {w : Written}
    (hBody : body { s with frames := frame :: s.frames } =
      .ok () (State.plus { s with frames := frame :: s.frames } w)) :
    inFrame frame body s = .ok () (s.plus w) := by
  rw [inFrame_run, hBody]
  rfl

/-- The closure that the body of a try becomes. -/
theorem closure_run {body : Stmt} (hBlock : body.isBlock = true) (hBody : body.Shaped)
    (s : State) :
    inFrame ⟨[errorType], false⟩ (inBlock [] do lowerStatements body; emit (.ret ["nil"])) s =
      .ok () (s.plus (contents (s.depth + 1) (⟨[errorType], false⟩ :: s.frames) [] body
        ++ .line (s.depth + 1) (.ret ["nil"]))) := by
  let framed : State := { s with frames := ⟨[errorType], false⟩ :: s.frames }
  refine inFrame_plus (inBlock_plus ?_)
  obtain ⟨scope', hRun⟩ :=
    lowerStatements_run (s := framed.inside []) (missing_or_block hBlock) hBody rfl
  refine ⟨scope', ?_⟩
  change (lowerStatements body >>= fun _ => emit (.ret ["nil"])) (framed.inside []) = _
  rw [bind_run, hRun, State.plus_append]
  rfl

/-- The statements of a cleanup come behind the conditional. -/
theorem chain_cleanup_run {catches : List Stmt} {cleanup : Stmt} (hSome : catches ≠ [])
    (hClauses : Stmt.AllClausesShaped catches)
    (hPlace : (cleanup.isMissing || cleanup.isBlock) = true) (hCleanup : cleanup.Shaped)
    (hScopes : s.scopes = scope :: outer) :
    ∃ scope', (do
      if catches.isEmpty then
        emit .discardErr
      else
        emit .errCheck
        inBlock [] (lowerCatches false catches)
        emit .close
      lowerStatements cleanup) s =
      .ok () { s.plus (chainWritten s.depth s.frames catches
          ++ contents s.depth s.frames scope cleanup) with scopes := scope' :: outer } := by
  obtain ⟨scope', hRun⟩ := lowerStatements_run
    (s := s.plus (chainWritten s.depth s.frames catches)) hPlace hCleanup hScopes
  have hEmpty : ¬catches.isEmpty = true := by rwa [List.isEmpty_iff]
  have hChain := chain_run catches hClauses s
  refine ⟨scope', ?_⟩
  rw [if_neg hEmpty, State.plus_append]
  rw [← bind_assoc, ← bind_assoc, bind_run]
  rw [bind_assoc, hChain]
  exact hRun

end Runs

end Lower

open Lower in
/-- A try with catch clauses, in any block of any function, is lowered to its closure, one
conditional for its clauses, and its cleanup. The conditional has an arm for each clause in front
of the first catch-all and ends in the catch-all if there is one, and what is dropped behind
that is only counted in a warning. It closes exactly the blocks that it opens. -/
theorem lower_catchChain (token : Token) (body : Stmt) (catches : List Stmt) (cleanup : Stmt)
    (hShaped : (Stmt.tryCatch token body catches cleanup).Shaped) (hSome : catches ≠ [])
    (s : State) (scope : List String) (outer : List (List String))
    (hScopes : s.scopes = scope :: outer) :
    (∃ scope', lower (.tryCatch token body catches cleanup) s =
        .ok () { s.plus (tryWritten s.depth s.frames scope body catches cleanup)
          with scopes := scope' :: outer })
      ∧ Go.openAfter 0 ((chainWritten s.depth s.frames catches).lines.map Go.Line.code) =
        some 0 := by
  obtain ⟨hBlock, hBody, hCatches, hPlace, hCleanup⟩ := hShaped
  constructor
  · obtain ⟨lines, depth, frames, scopes, events⟩ := s
    cases hScopes
    let opened : State := ⟨⟨depth, .tryOpen (scope.contains "err")⟩ :: lines, depth, frames,
      ("err" :: scope) :: outer, events⟩
    let closure := contents (depth + 1) (⟨[errorType], false⟩ :: frames) [] body
      ++ .line (depth + 1) (.ret ["nil"])
    have hClosure := closure_run hBlock hBody opened
    obtain ⟨scope', hRun⟩ := chain_cleanup_run
      (s := (opened.plus closure).plus (.line depth .tryClose)) hSome hCatches hPlace hCleanup rfl
    refine ⟨scope', ?_⟩
    rw [lower]
    change (inFrame ⟨[errorType], false⟩ _ >>= fun _ => _) opened = _
    rw [bind_run, hClosure]
    refine hRun.trans ?_
    simp only [tryWritten, closure, State.plus_append]
    rfl
  · obtain ⟨_, hClauses⟩ := lowerCatches_grows catches hCatches
    obtain ⟨codes, ⟨s', hRun, -, hCodes⟩, hWalk⟩ :=
      Walk.settles_chain hClauses (State.start s.depth s.frames [])
    obtain ⟨_, ⟨⟩, hLead⟩ := hWalk [] [] [] [] rfl
    rw [chain_run catches hCatches] at hRun
    cases hRun
    have hWritten : (chainWritten s.depth s.frames catches).lines.map Go.Line.code = codes := by
      rw [← List.reverse_reverse (chainWritten s.depth s.frames catches).lines, List.map_reverse]
      simpa [State.codes, State.plus, State.start] using hCodes
    rw [hWritten]
    exact (hLead.openAfter (Nat.le_refl 1)).1

/-- Clauses of every sort: with a type and a variable, with a type only and a try inside, without a
type, and behind that. -/
def mixedClauses : List Stmt :=
  let block := Stmt.block Token.blank
  let name (text : String) := Expr.ident Token.blank text
  [.catchClause Token.blank (name "e") (some "*E") (block [.ret Token.blank []]),
    .catchClause Token.blank (name "_") (some "F")
      (block [.tryCatch Token.blank (block []) [] .missing]),
    .catchClause Token.blank (name "x") none (block [.throw Token.blank (name "x")]),
    .catchClause Token.blank .missing (some "G") (block []),
    .catchClause Token.blank .missing none (block [])]

open Lower in
theorem lower_catchChain_mixedClauses :
    let body := Stmt.block Token.blank []
    (∃ scope', lower (.tryCatch Token.blank body mixedClauses .missing) State.init =
        .ok () { State.init.plus (tryWritten 0 [] [] body mixedClauses .missing)
          with scopes := [scope'] })
      ∧ Go.openAfter 0 ((chainWritten 0 [] mixedClauses).lines.map Go.Line.code) = some 0
      ∧ (chainWritten 0 [] mixedClauses).lines =
        [⟨0, .errCheck⟩, ⟨1, .catchOpen false "e" "*E"⟩, ⟨2, .use "e"⟩, ⟨2, .ret []⟩,
          ⟨1, .catchOpen true "_" "F"⟩, ⟨2, .tryOpen false⟩, ⟨3, .ret ["nil"]⟩, ⟨2, .tryClose⟩,
          ⟨2, .discardErr⟩, ⟨1, .elseOpen⟩, ⟨2, .bindErr "x"⟩, ⟨2, .use "x"⟩,
          ⟨2, .throwReturn [] "x"⟩, ⟨1, .close⟩, ⟨0, .close⟩]
      ∧ (chainWritten 0 [] mixedClauses).events =
        [.droppedCatches 2 Token.blank.pos.line] := by
  intro body
  have hShaped : (Stmt.tryCatch Token.blank body mixedClauses .missing).Shaped := by
    simp [body, mixedClauses, Stmt.AllShaped, Stmt.Shaped, Stmt.AllClausesShaped, Stmt.isMissing,
      Stmt.isBlock, Expr.isIdent, Expr.isMissing, Expr.hasLongField, Expr.anyLongField]
  obtain ⟨hRun, hBraces⟩ := lower_catchChain Token.blank body mixedClauses .missing hShaped
    (List.cons_ne_nil _ _) State.init [] [] rfl
  exact ⟨hRun, hBraces, by decide +kernel, by decide +kernel⟩

end TryGo
