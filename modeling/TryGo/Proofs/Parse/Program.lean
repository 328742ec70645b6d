import TryGo.Proofs.Parse.StmtSound

/-! Programs are read exactly as their phrases say. A program is a list of statements before
the end of the source. -/
namespace TryGo.Parse

/-! ### From phrases to runs -/

section Forwards

variable {s : State}

/-- The step that a program takes over one of its members. -/
theorem programItems_step (fuel : Nat) (comments : List Token)
    {tokens more : List Token} {last : Token} {result : Option Stmt} (hTrailing : s.trailing = [])
    (hEof : nextKind tokens ≠ .eof)
    (hRun : statement (stmtFuel tokens.length) (s.on tokens) =
      .ok result ((s.on (last :: more)).leaving comments)) :
    programItems (fuel + 1) (s.on tokens) =
      (programItems fuel >>= fun rest =>
        pure (result.toList ++ comments.map commentStmt ++ rest)) (s.on more) := by
  rw [programItems, cur_bind, State.kind_cur_on, if_neg (by simpa using hEof), tokensLeft_bind,
    State.rest_on, bind_of_ok hRun, takeTrailing_bind _ _ _ hTrailing, advance_bind]

/-- Every list of statements that fits is read up to the end of the source. -/
theorem programItems_run (hTrailing : s.trailing = []) :
    (items : ItemsPhrase) → (fuel : Nat) → items.Fits .eof → items.tokens.length < fuel →
      programItems fuel (s.on items.tokens) = .ok items.trees (s.on [])
  | .nil, fuel, _, hFuel => by
      obtain ⟨fuel, rfl⟩ : ∃ n, fuel = n + 1 := ⟨fuel - 1, by omega⟩
      rw [programItems, ItemsPhrase.tokens, cur_bind, State.kind_cur_on]
      rfl
  | .semicolon mark rest, fuel, hFits, hFuel => by
      simp only [ItemsPhrase.tokens, List.length_cons] at hFuel ⊢
      obtain ⟨fuel, rfl⟩ : ∃ n, fuel = n + 1 := ⟨fuel - 1, by omega⟩
      have hStatement := statement_semicolon s (8 * (mark.val :: rest.tokens).length + 7) mark
        rest.tokens
      rw [programItems_step fuel [] hTrailing (by rw [nextKind_cons, mark.property]; decide)
        (hStatement.trans (by rw [State.leaving_nil])),
        bind_of_ok (programItems_run hTrailing rest fuel hFits (by omega))]
      rfl
  | .cons stmt semicolon rest, fuel, hFits, hFuel => by
      have hPositive := List.length_pos_iff.mpr stmt.tokens_ne_nil
      simp only [ItemsPhrase.tokens, List.length_append] at hFuel ⊢
      obtain ⟨fuel, rfl⟩ : ∃ n, fuel = n + 1 := ⟨fuel - 1, by omega⟩
      obtain ⟨hStmtFits, hNext, hRestFits⟩ : stmt.Fits (nextKind
            (tokensIf (fun mark => [mark.val]) semicolon ++ rest.tokens))
          ∧ (semicolon = none → nextKind rest.tokens ≠ .semicolon) ∧ rest.Fits .eof := by
        have hEnd : nextKind rest.tokens = kindBefore .eof rest.tokens := by
          simpa using nextKind_append rest.tokens []
        cases semicolon with
        | some mark =>
            refine ⟨?_, by rintro ⟨⟩, hFits.2⟩
            rw [tokensIf_some, List.singleton_append, nextKind_cons, mark.property]
            exact hFits.1
        | none =>
            rw [tokensIf_none, List.nil_append, hEnd]
            exact ⟨hFits.1, fun _ => hFits.2.1, hFits.2.2⟩
      have hEnough : 8 * stmt.tokens.length ≤ stmtFuel
          (stmt.tokens ++ (tokensIf (fun mark => [mark.val]) semicolon ++ rest.tokens)).length := by
        simp only [stmtFuel, List.length_append]
        omega
      obtain ⟨last, hRun⟩ := statement_run (readAsStmt stmt) s _ semicolon rest.tokens hTrailing
        hStmtFits hNext hEnough
      rw [programItems_step fuel stmt.trailing hTrailing (stmt.nextKind_ne (by decide) _) hRun,
        bind_of_ok (programItems_run hTrailing rest fuel hRestFits (by omega))]
      simp [ItemsPhrase.trees]

/-- A program phrase is read without a report, and its tree comes out. -/
theorem readFrom_run (items : ItemsPhrase) (hFits : items.Fits .eof) (endPos : Position) :
    readFrom ⟨items.tokens, endPos⟩ =
      ⟨.ok ⟨items.tokens.headD (Token.eof endPos), items.trees⟩, []⟩ := by
  let start := State.init ⟨items.tokens, endPos⟩
  have hItems := programItems_run (s := start) rfl items (items.tokens.length + 1) hFits
    (Nat.lt_succ_self _)
  have hRun : readProgram start =
      .ok ⟨items.tokens.headD (Token.eof endPos), items.trees⟩ (start.on []) := by
    rw [readProgram, cur_bind, tokensLeft_bind]
    exact bind_of_ok hItems
  rw [readFrom, hRun]
  rfl

/-- A reading without a report comes to a program if a test of the program says so. -/
theorem Reading.exists_ok (reading : Reading) (test : Program → Bool)
    (hTest : (reading.reports.isEmpty && reading.result.toOption.any test) = true) :
    ∃ program, reading.result = .ok program ∧ reading.reports = [] ∧ test program = true := by
  obtain ⟨hReports, hResult⟩ := Bool.and_eq_true_iff.mp hTest
  obtain ⟨program, hProgram, hHolds⟩ := exists_ok_of_test reading.result test hResult
  exact ⟨program, hProgram, List.isEmpty_iff.mp hReports, hHolds⟩

theorem Reading.eq_of_parts {reading : Reading} {program : Program}
    (hResult : reading.result = .ok program) (hReports : reading.reports = []) :
    reading = ⟨.ok program, []⟩ := by
  rw [← hResult, ← hReports]

end Forwards

/-! ### From runs to phrases -/

section Backwards

theorem explains_programItems : (fuel : Nat) → Explains (programItems fuel)
  | 0 => explains_outOfFuel
  | fuel + 1 => by
      have := explains_programItems fuel
      rw [programItems]
      infer_instance

instance (fuel : Nat) : Explains (programItems fuel) := explains_programItems fuel

/-- What a quiet run over a whole source comes to. A program ends before the first end mark,
and unless the tokens hold one this is the end of the tokens. -/
def ReadsProgram (tokens : List Token) (stmts : List Stmt) : Prop :=
  ∃ (items : ItemsPhrase) (more : List Token),
    tokens = items.tokens ++ more ∧ nextKind more = .eof ∧ stmts = items.trees
      ∧ items.Fits .eof

theorem programItems_quiet {s s' : State} (hTrailing : s.trailing = []) :
    (fuel : Nat) → (tokens : List Token) → (stmts : List Stmt) →
      programItems fuel (s.on tokens) = .ok stmts s' → s'.reports = s.reports →
      ReadsProgram tokens stmts
  | fuel + 1, tokens, stmts, hRun, hQuiet => by
      rw [programItems, cur_bind, State.kind_cur_on] at hRun
      by_cases hEof : nextKind tokens = .eof
      · rw [if_pos (by simpa using hEof)] at hRun
        cases hRun
        exact ⟨.nil, tokens, rfl, hEof, rfl, trivial⟩
      rw [if_neg (by simpa using hEof), tokensLeft_bind] at hRun
      obtain ⟨result, middle, hStatement, hMiddle, hRest⟩ := bind_quiet hRun hQuiet
      rcases (soundWith _).statement s tokens result middle hTrailing trivial hStatement hMiddle with
        ⟨mark, more, rfl, rfl, rfl⟩ | ⟨phrase, semicolon, last, more, rfl, rfl, rfl, hFits, hNext⟩
      · rw [← State.leaving_nil (s.on (mark.val :: more)), takeTrailing_bind _ _ _ hTrailing,
          advance_bind] at hRest
        obtain ⟨others, middle, hOthers, hMiddle, hRest⟩ := bind_quiet hRest hQuiet
        obtain ⟨items, more, rfl, hMore, rfl, hItems⟩ :=
          programItems_quiet hTrailing fuel more others hOthers hMiddle
        cases hRest
        exact ⟨.semicolon mark items, more, rfl, hMore, rfl, hItems⟩
      · rw [takeTrailing_bind _ _ _ hTrailing, advance_bind] at hRest
        obtain ⟨others, middle, hOthers, hMiddle, hRest⟩ := bind_quiet hRest hQuiet
        obtain ⟨items, more, rfl, hMore, rfl, hItems⟩ :=
          programItems_quiet hTrailing fuel more others hOthers hMiddle
        cases hRest
        refine ⟨.cons phrase semicolon items, more, by simp [ItemsPhrase.tokens], hMore,
          by simp [ItemsPhrase.trees], ?_⟩
        cases semicolon with
        | some mark =>
            rw [tokensIf_some, List.singleton_append, nextKind_cons, mark.property] at hFits
            exact ⟨hFits, hItems⟩
        | none =>
            rw [tokensIf_none, List.nil_append, nextKind_append, hMore] at hFits
            rw [nextKind_append, hMore] at hNext
            exact ⟨hFits, hNext rfl, hItems⟩

/-- What is read without a report is a program phrase. -/
theorem readFrom_quiet {cursor : Cursor} {program : Program}
    (hResult : (readFrom cursor).result = .ok program) (hReports : (readFrom cursor).reports = []) :
    ReadsProgram cursor.rest program.statements := by
  rw [readFrom] at hResult hReports
  cases hRun : readProgram (State.init cursor) with
  | error halt s =>
      rw [hRun] at hResult
      cases hResult
  | ok read s =>
      rw [hRun] at hResult hReports
      obtain rfl : read = program := by simpa using hResult
      have hQuiet : s.reports = [] := by simpa using hReports
      rw [readProgram, cur_bind, tokensLeft_bind] at hRun
      obtain ⟨stmts, middle, hItems, hRest⟩ := bind_ok hRun
      cases hRest
      exact programItems_quiet (s := State.init cursor) rfl _ cursor.rest _ hItems hQuiet

end Backwards

end TryGo.Parse
