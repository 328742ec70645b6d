import TryGo.Proofs.Progress.Forward

/-! The loops of the parser. A loop runs one round after another, and a round either reads a
member of the list and goes on, or ends the list. A round that goes on takes at least one
token, so no loop stands still, not even at the end of the source, where the end mark is
repeated for ever. -/
namespace TryGo.Parse

def State.left (s : State) : Nat := s.cursor.rest.length

/-! ### Tokens taken -/

section Left

variable {α β : Type} {s s' : State}

/-- No reader gives tokens back. -/
theorem Built.left_le {step : ParseM α} [hBuilt : Built step] {a : α}
    (hRun : step s = .ok a s') : s'.left ≤ s.left := by
  have hLater := hBuilt.later s
  rw [hRun] at hLater
  exact hLater.rest.length_le

/-- A current token that is not the end mark is left. -/
theorem left_of_cur (hKind : s.cursor.cur.kind ≠ .eof) : 1 ≤ s.left := by
  obtain ⟨⟨rest, endPos⟩, reports, trailing⟩ := s
  cases rest with
  | nil => exact absurd rfl hKind
  | cons token rest => exact Nat.succ_le_succ (Nat.zero_le _)

/-- A token after the current one that is not the end mark is left, and so is the current one. -/
theorem left_of_peek (hKind : s.cursor.peek.kind ≠ .eof) : 2 ≤ s.left := by
  obtain ⟨⟨rest, endPos⟩, reports, trailing⟩ := s
  match rest with
  | [] | [_] => exact absurd rfl hKind
  | _ :: _ :: rest => exact Nat.succ_le_succ (Nat.succ_le_succ (Nat.zero_le _))

/-- A step forward takes one token, if there is one. -/
theorem left_advance {u : Unit} (hRun : advance s = .ok u s') : s'.left = s.left - 1 := by
  cases hRun
  exact List.length_tail

/-- An expected token is taken, and it is there to be taken. -/
theorem left_expect {kind : TokenKind} {u : Unit} (hEof : kind ≠ .eof)
    (hRun : expect kind s = .ok u s') : 2 ≤ s.left ∧ s'.left = s.left - 1 := by
  obtain ⟨closed, middle, hAccept, hRest⟩ := bind_ok hRun
  rw [accept, peek_bind] at hAccept
  by_cases hKind : s.cursor.peek.kind = kind
  · rw [if_pos (by simpa using hKind)] at hAccept
    obtain ⟨_, after, hAdvance, hTrue⟩ := bind_ok hAccept
    cases hTrue
    cases hRest
    exact ⟨left_of_peek (hKind ▸ hEof), left_advance hAdvance⟩
  · rw [if_neg (by simpa using hKind)] at hAccept
    cases hAccept
    cases hRest

end Left

/-! ### Rounds -/

/-- What a round comes to: the loop goes on with what was read, or it is over. -/
inductive Round (Part Result : Type) where
  | again (part : Part)
  | done (result : Result)

/-- Whether a round that goes on takes a token. -/
def Advances {Part Result : Type} (round : ParseM (Round Part Result)) : Prop :=
  ∀ s part s', round s = .ok (.again part) s' → s'.left < s.left

/-- Whether a loop is made of rounds that advance. The loop may pass fuel to its rounds. -/
structure RunsRounds {Part Result : Type} (loop : Nat → ParseM Result)
    (round : Nat → ParseM (Round Part Result)) (join : Part → Result → Result) : Prop where
  unfolds : ∀ fuel, loop (fuel + 1) = (do
    match ← round fuel with
    | .again part => return join part (← loop fuel)
    | .done result => return result)
  advances : ∀ fuel, Advances (round fuel)

section Rules

variable {α Part Result : Type} {round : α → ParseM (Round Part Result)}

theorem advances_done (result : Result) :
    Advances (pure (.done result) : ParseM (Round Part Result)) := by
  rintro s part s' ⟨⟩

/-- What is done before does not give tokens back. -/
theorem Advances.after {step : ParseM α} [Built step] (hNext : ∀ a, Advances (round a)) :
    Advances (step >>= round) := by
  intro s part s' hRun
  obtain ⟨a, middle, hStep, hRound⟩ := bind_ok hRun
  exact lt_of_lt_of_le (hNext a middle part s' hRound) (Built.left_le hStep)

/-- A choice advances if both of its arms do. -/
theorem Advances.ite {condition : Prop} [Decidable condition]
    {x y : ParseM (Round Part Result)} (hThen : Advances x) (hElse : Advances y) :
    Advances (if condition then x else y) := by
  split
  · exact hThen
  · exact hElse

/-- A round takes the token that it expects, whatever follows. -/
theorem Advances.expect {kind : TokenKind} {next : Unit → ParseM (Round Part Result)}
    (hEof : kind ≠ .eof) (hNext : ∀ u, Built (next u)) : Advances (expect kind >>= next) := by
  intro s part s' hRun
  obtain ⟨u, middle, hExpect, hRest⟩ := bind_ok hRun
  have hTaken := left_expect hEof hExpect
  have hAfter : s'.left ≤ middle.left := (hNext u).left_le hRest
  omega

/-- A round that has seen the next token and moves on takes it, whatever follows. -/
theorem Advances.peekIs {kind : TokenKind} {next : Unit → ParseM (Round Part Result)}
    {other : ParseM (Round Part Result)} (hEof : kind ≠ .eof) (hNext : ∀ u, Built (next u))
    (hOther : Advances other) :
    Advances (peekIs kind >>= fun found => if found = true then advance >>= next else other) := by
  intro s part s' hRun
  rw [peekIs_bind] at hRun
  by_cases hFound : s.cursor.peek.kind = kind
  · rw [if_pos (by simpa using hFound)] at hRun
    obtain ⟨u, middle, hAdvance, hRest⟩ := bind_ok hRun
    have hSeen := left_of_peek (hFound ▸ hEof)
    have hTaken := left_advance hAdvance
    have hAfter : s'.left ≤ middle.left := (hNext u).left_le hRest
    omega
  · rw [if_neg (by simpa using hFound)] at hRun
    exact hOther s part s' hRun

end Rules

/-! ### Lists of statements -/

/-- One member of a statement list, with the comments that waited behind it. -/
def nextItem (fuel : Nat) : ParseM (List Stmt) := do
  let stmt ← statement fuel
  let comments ← takeTrailing
  advance
  return stmt.toList ++ comments

instance (fuel : Nat) : Built (nextItem fuel) := by
  unfold nextItem
  infer_instance

/-- A member of a statement list takes a token, because the current one is left behind. -/
theorem left_nextItem {fuel : Nat} {s s' : State} {stmts : List Stmt}
    (hSome : 1 ≤ s.left) (hRun : nextItem fuel s = .ok stmts s') : s'.left < s.left := by
  obtain ⟨stmt, middle, hStatement, hRest⟩ := bind_ok hRun
  obtain ⟨comments, middle', hTake, hRest⟩ := bind_ok hRest
  obtain ⟨u, middle'', hAdvance, hRest⟩ := bind_ok hRest
  have hFirst := Built.left_le hStatement
  have hSecond := Built.left_le hTake
  have hThird := left_advance hAdvance
  cases hRest
  omega

def programRound (_ : Nat) : ParseM (Round (List Stmt) (List Stmt)) := do
  if (← cur).kind == .eof then
    return .done []
  else
    return .again (← nextItem (stmtFuel (← tokensLeft)))

/-- A program is read in rounds of one statement. -/
theorem runsRounds_programItems : RunsRounds programItems programRound (· ++ ·) where
  unfolds fuel := by
    rw [programItems, programRound]
    simp only [nextItem, bind_assoc, pure_bind]
    congr 1
    funext token
    split <;> simp only [bind_assoc, pure_bind]
  advances _ := by
    intro s part s' hRun
    rw [programRound, cur_bind] at hRun
    by_cases hEof : s.cursor.cur.kind = .eof
    · rw [if_pos (by simpa using hEof)] at hRun
      cases hRun
    · rw [if_neg (by simpa using hEof), tokensLeft_bind] at hRun
      obtain ⟨stmts, middle, hItem, hAgain⟩ := bind_ok hRun
      cases hAgain
      exact left_nextItem (left_of_cur hEof) hItem

def blockRound (fuel : Nat) : ParseM (Round (List Stmt) (List Stmt)) := do
  let kind := (← cur).kind
  if kind == .rbrace then
    return .done []
  else if kind == .eof then
    report (.unexpected .rbrace .eof)
    return .done []
  else
    return .again (← nextItem fuel)

/-- A block is read in rounds of one statement. -/
theorem runsRounds_blockItems : RunsRounds blockItems blockRound (· ++ ·) where
  unfolds fuel := by
    rw [blockItems, blockRound]
    simp only [nextItem, bind_assoc, pure_bind]
    congr 1
    funext token
    split
    · rw [pure_bind]
    · split <;> simp only [bind_assoc, pure_bind]
  advances fuel := by
    intro s part s' hRun
    rw [blockRound, cur_bind] at hRun
    split at hRun
    · cases hRun
    split at hRun
    · cases hRun
    next hEof =>
      obtain ⟨stmts, middle, hItem, hAgain⟩ := bind_ok hRun
      cases hAgain
      exact left_nextItem (left_of_cur (by simpa using hEof)) hItem

/-! ### Lists inside constructs -/

def importRound (_ : Nat) : ParseM (Round String (List String)) := do
  let _ ← skipComments
  if ← peekIs .rparen then
    return .done []
  else
    expect .string
    let path ← cur
    skipSemicolon
    return .again path.literal

/-- An import group is read in rounds of one path. -/
theorem runsRounds_importPaths : RunsRounds importPaths importRound (· :: ·) where
  unfolds fuel := by
    rw [importPaths_succ, importRound]
    simp only [bind_assoc]
    congr 1
    funext _
    congr 1
    funext closed
    split <;> simp
  advances _ :=
    .after fun _ => .after fun _ => .ite (advances_done _) (.expect (by decide) inferInstance)

def parameterRound (_ : Nat) :
    ParseM (Round (Expr × Option String) (List (Expr × Option String))) := do
  expect .ident
  let name ← curIdent
  let type ← parameterType
  if ← peekIs .comma then
    advance
    return .again (name, type.map GoType.text)
  else
    expect .rparen
    return .done [(name, type.map GoType.text)]

/-- Parameters are read in rounds of one. -/
theorem runsRounds_parameters : RunsRounds parameters parameterRound (· :: ·) where
  unfolds fuel := by
    rw [parameters_succ, parameterRound]
    simp only [bind_assoc]
    congr 1
    funext _
    congr 1
    funext name
    congr 1
    funext type
    congr 1
    funext more
    split <;> simp
  advances _ := .expect (by decide) inferInstance

def typeRound (fuel : Nat) : ParseM (Round GoType (List GoType)) := do
  advance
  let type ← goType fuel
  if ← peekIs .comma then
    advance
    return .again type
  else
    return .done [type]

/-- Types are read in rounds of one. -/
theorem runsRounds_typeList : RunsRounds typeList typeRound (· :: ·) where
  unfolds fuel := by
    rw [typeList, typeRound]
    simp only [bind_assoc]
    congr 1
    funext _
    congr 1
    funext type
    congr 1
    funext more
    split <;> simp
  advances _ :=
    .after fun _ => .after fun _ => .peekIs (by decide) inferInstance (advances_done _)

def expressionRound (fuel : Nat) : ParseM (Round Expr (List Expr)) := do
  let first ← expression fuel Precedence.lowest.level
  if first.isMissing then
    abandon
  else if ← peekIs .comma then
    advance
    advance
    return .again first
  else
    return .done [first]

/-- Expressions are read in rounds of one. -/
theorem runsRounds_expressions : RunsRounds expressions expressionRound (· :: ·) where
  unfolds fuel := by
    rw [expressions, expressionRound]
    simp only [bind_assoc]
    congr 1
    funext first
    split
    · rfl
    · simp only [bind_assoc]
      congr 1
      funext more
      split <;> simp
  advances fuel := by
    refine .after fun first => .ite ?_ ?_
    · rintro s part s' ⟨⟩
    · exact .peekIs (by decide) inferInstance (advances_done _)

/-- A round of the loop over catch clauses. A clause that was abandoned adds nothing. -/
def catchRound (fuel : Nat) : ParseM (Round (List Stmt) (List Stmt × List Token)) := do
  let comments ← skipComments
  if ← peekIs .kwCatch then
    advance
    let clause ← attempt (catchClause fuel)
    return .again clause.toList
  else
    return .done ([], comments)

/-- Clauses are read in rounds of one, with the comments in front of it. -/
theorem runsRounds_catchClauses :
    RunsRounds catchClauses catchRound fun clauses rest => (clauses ++ rest.1, rest.2) where
  unfolds fuel := by
    rw [catchClauses, catchRound]
    simp only [bind_assoc]
    congr 1
    funext comments
    congr 1
    funext more
    split <;> simp
  advances fuel := by
    have hClause : Built (catchClause fuel) := (builtStmt fuel).catchClause
    exact .after fun _ => .peekIs (by decide) inferInstance (advances_done _)

/-- A round of the loop over comments, which takes one of them. -/
def commentRound (_ : Nat) : ParseM (Round Token (List Token)) := do
  let next ← peek
  if next.kind.isComment then
    advance
    return .again next
  else
    return .done []

/-- The comments are skipped without fuel, at once. One at a time comes to the same. -/
theorem runsRounds_skipComments : RunsRounds (fun _ => skipComments) commentRound (· :: ·) where
  unfolds fuel := by
    funext s
    obtain ⟨⟨rest, endPos⟩, reports, trailing⟩ := s
    rw [commentRound]
    simp only [bind_assoc, peek_bind]
    match rest with
    | [] | [_] => rfl
    | token :: next :: rest =>
      have hPeek : (Cursor.mk (token :: next :: rest) endPos).peek = next := rfl
      rw [hPeek]
      have hSkip : ∀ tokens, skipComments ⟨⟨token :: tokens, endPos⟩, reports, trailing⟩ =
          .ok (tokens.takeWhile fun token => token.kind.isComment)
            ⟨⟨(token :: tokens).drop (tokens.takeWhile fun token => token.kind.isComment).length,
              endPos⟩, reports, trailing⟩ := fun _ => rfl
      rw [hSkip]
      by_cases hComment : next.kind.isComment = true
      · rw [if_pos hComment, List.takeWhile_cons_of_pos (by exact hComment)]
        rfl
      · rw [if_neg hComment, List.takeWhile_cons_of_neg (by exact hComment)]
        rfl
  advances _ := by
    intro s part s' hRun
    rw [commentRound, peek_bind] at hRun
    split at hRun
    next hComment =>
      obtain ⟨u, middle, hAdvance, hAgain⟩ := bind_ok hRun
      cases hAgain
      have hSeen := left_of_peek (s := s) (by rintro hEof; rw [hEof] at hComment; cases hComment)
      have hTaken := left_advance hAdvance
      omega
    next => cases hRun

end TryGo.Parse
