import TryGo.Proofs.Parse.Source
import TryGo.Proofs.Progress.Fuel

/-! Parsing ends. Whatever the source is, every reader ends and moves forward, every loop takes a
token in each round or is over, and the reports are made at places that do not go back. The parse
stops at the end mark, with one exception: a report that would have to show an integer of too
many decimal digits cuts it off. -/
namespace TryGo.Parse

/-! ### The readers and the loops -/

/-- The functions that read a construct, each with fuel that is enough for `n` tokens. -/
inductive Reader (n : Nat) : {α : Type} → ParseM α → Prop where
  | goType {fuel : Nat} (hFuel : 4 * n + 2 ≤ fuel) : Reader n (goType fuel)
  | funcType {fuel : Nat} (hFuel : 4 * n + 1 ≤ fuel) : Reader n (funcType fuel)
  | typesUntilParen {fuel : Nat} (hFuel : 4 * n + 4 ≤ fuel) : Reader n (typesUntilParen fuel)
  | typeList {fuel : Nat} (hFuel : 4 * n + 3 ≤ fuel) : Reader n (typeList fuel)
  | readType : Reader n readType
  | readResults : Reader n readResults
  | optionalType : Reader n optionalType
  | readResult : Reader n readResult
  | integerLiteral : Reader n integerLiteral
  | floatLiteral : Reader n floatLiteral
  | expression {fuel : Nat} (precedence : Precedence) (hFuel : 4 * n + 2 ≤ fuel) :
      Reader n (expression fuel precedence.level)
  | operators {fuel : Nat} (precedence : Precedence) (left : Expr) (hFuel : 4 * n + 1 ≤ fuel) :
      Reader n (operators fuel precedence.level left)
  | arguments {fuel : Nat} (hFuel : 4 * n + 4 ≤ fuel) : Reader n (arguments fuel)
  | expressions {fuel : Nat} (hFuel : 4 * n + 3 ≤ fuel) : Reader n (expressions fuel)
  | readExpr : Reader n readExpr
  | requireExpr : Reader n requireExpr
  | readExprs : Reader n readExprs
  | packageStmt : Reader n packageStmt
  | importPaths {fuel : Nat} (hFuel : n < fuel) : Reader n (importPaths fuel)
  | importStmt : Reader n importStmt
  | declStmt (kind : DeclKind) : Reader n (declStmt kind)
  | returnStmt : Reader n returnStmt
  | throwStmt : Reader n throwStmt
  | requireIdents (es : List Expr) : Reader n (requireIdents es)
  | expressionStmt : Reader n expressionStmt
  | simpleStmt : Reader n simpleStmt
  | parameters {fuel : Nat} (hFuel : n < fuel) : Reader n (parameters fuel)
  | readParameters : Reader n readParameters
  | statement {fuel : Nat} (hFuel : 8 * n + 3 ≤ fuel) : Reader n (statement fuel)
  | construct {fuel : Nat} (hFuel : 8 * n + 2 ≤ fuel) : Reader n (construct fuel)
  | block {fuel : Nat} (hLeft : 1 ≤ n) (hFuel : 8 * n ≤ fuel) : Reader n (block fuel)
  | blockItems {fuel : Nat} (hFuel : 8 * n + 7 ≤ fuel) : Reader n (blockItems fuel)
  | ifStmt {fuel : Nat} (hFuel : 8 * n + 1 ≤ fuel) : Reader n (ifStmt fuel)
  | forStmt {fuel : Nat} (hLeft : 1 ≤ n) (hFuel : 8 * n + 1 ≤ fuel) : Reader n (forStmt fuel)
  | loopClauses {fuel : Nat} (token : Token) (init : Stmt) (hFuel : 8 * n + 1 ≤ fuel) :
      Reader n (loopClauses fuel token init)
  | functionStmt {fuel : Nat} (hFuel : 8 * n + 1 ≤ fuel) : Reader n (functionStmt fuel)
  | tryStmt {fuel : Nat} (hFuel : 8 * n + 1 ≤ fuel) : Reader n (tryStmt fuel)
  | catchClauses {fuel : Nat} (hFuel : 8 * n + 1 ≤ fuel) : Reader n (catchClauses fuel)
  | catchClause {fuel : Nat} (hFuel : 8 * n + 1 ≤ fuel) : Reader n (catchClause fuel)
  | programItems {fuel : Nat} (hFuel : n < fuel) : Reader n (programItems fuel)
  | readProgram : Reader n readProgram

theorem Reader.built {n : Nat} {α : Type} {step : ParseM α} (hReader : Reader n step) :
    Built step := by
  cases hReader
  case construct => exact (builtStmt _).construct
  case block => exact (builtStmt _).block
  case blockItems => exact (builtStmt _).blockItems
  case ifStmt => exact (builtStmt _).ifStmt
  case forStmt => exact (builtStmt _).forStmt
  case loopClauses token init _ => exact (builtStmt _).loopClauses token init
  case functionStmt => exact (builtStmt _).functionStmt
  case tryStmt => exact (builtStmt _).tryStmt
  case catchClauses => exact (builtStmt _).catchClauses
  case catchClause => exact (builtStmt _).catchClause
  all_goals infer_instance

theorem Reader.endsWithin {n : Nat} {α : Type} {step : ParseM α} (hReader : Reader n step) :
    EndsWithin n step := by
  cases hReader
  case goType hFuel => exact (typeEnds _).goType n hFuel
  case funcType hFuel => exact (typeEnds _).funcType n hFuel
  case typesUntilParen hFuel => exact (typeEnds _).typesUntilParen n hFuel
  case typeList hFuel => exact (typeEnds _).typeList n hFuel
  case expression precedence hFuel =>
    exact (exprEnds _).expression n _ (lowest_le_level precedence) hFuel
  case operators precedence left hFuel =>
    exact (exprEnds _).operators n _ left (lowest_le_level precedence) hFuel
  case arguments hFuel => exact (exprEnds _).arguments n hFuel
  case expressions hFuel => exact (exprEnds _).expressions n hFuel
  case importPaths hFuel => exact importPaths_endsWithin _ n hFuel
  case parameters hFuel => exact parameters_endsWithin _ n hFuel
  case statement hFuel => exact (stmtEnds _).statement n hFuel
  case construct hFuel => exact (stmtEnds _).construct n hFuel
  case block hLeft hFuel => exact (stmtEnds _).block n hLeft hFuel
  case blockItems hFuel => exact (stmtEnds _).blockItems n hFuel
  case ifStmt hFuel => exact (stmtEnds _).ifStmt n hFuel
  case forStmt hLeft hFuel => exact (stmtEnds _).forStmt n hLeft hFuel
  case loopClauses token init hFuel => exact (stmtEnds _).loopClauses n token init hFuel
  case functionStmt hFuel => exact (stmtEnds _).functionStmt n hFuel
  case tryStmt hFuel => exact (stmtEnds _).tryStmt n hFuel
  case catchClauses hFuel => exact (stmtEnds _).catchClauses n hFuel
  case catchClause hFuel => exact (stmtEnds _).catchClause n hFuel
  case programItems hFuel => exact programItems_endsWithin _ n hFuel
  all_goals exact Ends.within

/-- The loops of the parser, round by round. One loop reads the types of parameters and of
results alike. -/
structure LoopsAdvance : Prop where
  program : RunsRounds programItems programRound (· ++ ·)
  block : RunsRounds blockItems blockRound (· ++ ·)
  imports : RunsRounds importPaths importRound (· :: ·)
  parameters : RunsRounds parameters parameterRound (· :: ·)
  types : RunsRounds typeList typeRound (· :: ·)
  expressions : RunsRounds expressions expressionRound (· :: ·)
  catches : RunsRounds catchClauses catchRound fun clauses rest => (clauses ++ rest.1, rest.2)
  comments : RunsRounds (fun _ => skipComments) commentRound (· :: ·)

theorem loopsAdvance : LoopsAdvance where
  program := runsRounds_programItems
  block := runsRounds_blockItems
  imports := runsRounds_importPaths
  parameters := runsRounds_parameters
  types := runsRounds_typeList
  expressions := runsRounds_expressions
  catches := runsRounds_catchClauses
  comments := runsRounds_skipComments

/-! ### The end of a parse -/

theorem attempt_ne_abandoned {α : Type} (step : ParseM α) (s s' : State) :
    attempt step s ≠ .error .abandoned s' := by
  intro hRun
  unfold attempt at hRun
  cases hStep : step s with
  | ok a middle =>
      rw [hStep] at hRun
      cases hRun
  | error halt middle =>
      rw [hStep] at hRun
      cases halt <;> cases hRun

/-- A statement that is abandoned is left out; the list goes on behind it. -/
theorem statement_ne_abandoned (fuel : Nat) (s s' : State) :
    statement fuel s ≠ .error .abandoned s' := by
  cases fuel with
  | zero => nofun
  | succ fuel =>
      intro hRun
      rw [statement_succ, cur_bind] at hRun
      split at hRun
      · cases hRun
      rcases bind_error hRun with hAttempt | ⟨result, middle, -, hRest⟩
      · exact attempt_ne_abandoned _ s s' hAttempt
      · rcases bind_error hRest with hSkip | ⟨_, _, _, hPure⟩
        · unfold skipSemicolon at hSkip
          rw [peekIs_bind] at hSkip
          split at hSkip <;> cases hSkip
        · cases hPure

theorem programItems_ne_abandoned (fuel : Nat) (s s' : State) :
    programItems fuel s ≠ .error .abandoned s' := by
  induction fuel generalizing s with
  | zero => nofun
  | succ fuel ih =>
      intro hRun
      rw [programItems, cur_bind] at hRun
      split at hRun
      · cases hRun
      rw [tokensLeft_bind] at hRun
      rcases bind_error hRun with hStatement | ⟨stmt, middle, -, hRest⟩
      · exact statement_ne_abandoned _ s s' hStatement
      rcases bind_error hRest with hTake | ⟨comments, middle, -, hRest⟩
      · cases hTake
      rcases bind_error hRest with hAdvance | ⟨_, middle, -, hRest⟩
      · cases hAdvance
      rcases bind_error hRest with hItems | ⟨_, _, _, hPure⟩
      · exact ih middle hItems
      · cases hPure

/-- The loop over a program is over only at the end mark. -/
theorem programItems_eof (fuel : Nat) {s s' : State} {stmts : List Stmt}
    (hRun : programItems fuel s = .ok stmts s') : s'.cursor.cur.kind = .eof := by
  induction fuel generalizing s stmts with
  | zero => cases hRun
  | succ fuel ih =>
      rw [runsRounds_programItems.unfolds] at hRun
      obtain ⟨round, middle, hRound, hRest⟩ := bind_ok hRun
      cases round with
      | again part =>
          obtain ⟨rest, after, hItems, hPure⟩ := bind_ok hRest
          cases hPure
          exact ih hItems
      | done result =>
          cases hRest
          rw [programRound, cur_bind] at hRound
          split at hRound
          next hEof =>
            cases hRound
            simpa using hEof
          next =>
            rw [tokensLeft_bind] at hRound
            obtain ⟨item, after, -, hPure⟩ := bind_ok hRound
            cases hPure

/-- A whole run ends at the end mark, or a report could not be worded. -/
theorem readProgram_cases (s : State) :
    (∃ program s', readProgram s = .ok program s' ∧ s'.cursor.cur.kind = .eof)
      ∨ ∃ s', readProgram s = .error (.unrenderable .tooManyDigits) s' := by
  cases hRun : readProgram s with
  | ok program s' =>
      rw [readProgram, cur_bind, tokensLeft_bind] at hRun
      obtain ⟨stmts, middle, hItems, hPure⟩ := bind_ok hRun
      cases hPure
      exact .inl ⟨_, _, rfl, programItems_eof _ hItems⟩
  | error halt s' =>
      have hRegular : halt.IsRegular := Ends.regular s halt s' hRun
      cases halt with
      | unrenderable error =>
          obtain rfl : error = .tooManyDigits := hRegular
          exact .inr ⟨s', rfl⟩
      | outOfFuel => cases hRegular
      | abandoned =>
          rw [readProgram, cur_bind, tokensLeft_bind] at hRun
          rcases bind_error hRun with hItems | ⟨_, _, _, hPure⟩
          · exact absurd hItems (programItems_ne_abandoned _ s s')
          · cases hPure

/-- The tokens of a source stand in order. -/
theorem ordered_init (source : String) :
    (State.init (.ofLexer (.ofString source))).Ordered where
  ahead := by
    have hPlaces := (Lexer.ofString source).pairwise_places
    refine List.pairwise_map.mpr (hPlaces.imp ?_)
    rintro a b ⟨chars, -, hPos⟩
    rw [hPos, Position.offset_advance]
    exact Nat.le_add_right _ _
  behind := List.pairwise_singleton _ _

/-- A definition of an integer cannot be reported if the integer has too many digits. -/
theorem readProgram_integer (s : State) {token op : Token} (more : List Token) {value : Nat}
    (hInteger : token.kind = .int)
    (hValue : Number.integerValue? token.literal.toList = some value)
    (hLong : Number.isUnrenderable value = true) (hOp : op.kind = .define) :
    readProgram (s.on (token :: op :: more)) =
      .error (.unrenderable .tooManyDigits) (s.on (token :: op :: more)) := by
  have hOperand : operand? token = some (.int token value) := by
    simp only [operand?, hInteger, hValue, Option.map_some]
  have hRender : (Expr.int token value).render = .error .tooManyDigits := by
    rw [Expr.render, Expr.hasLongInteger, if_pos (by simpa using hLong)]
  have hSimple : expressionStmt (s.on (token :: op :: more)) =
      .error (.unrenderable .tooManyDigits) (s.on (token :: op :: more)) := by
    rw [expressionStmt, cur_bind, bind_of_ok (readExprs_operand s hOperand rfl
      (by rw [nextKind_cons, hOp]; decide) (by rw [nextKind_cons, hOp]; decide)), peek_bind,
      State.peek_on_cons_cons, if_pos (by simp [hOp])]
    refine bind_of_error ?_
    rw [requireIdents, if_neg (by simp [Expr.isIdent]), hRender]
    rfl
  have hConstruct (fuel : Nat) : construct (fuel + 1) (s.on (token :: op :: more)) =
      .error (.unrenderable .tooManyDigits) (s.on (token :: op :: more)) := by
    rw [construct_simple s (by rw [nextKind_cons, hInteger]; decide), simpleStmt_eq, hSimple]
  have hStatement (fuel : Nat) : statement (fuel + 2) (s.on (token :: op :: more)) =
      .error (.unrenderable .tooManyDigits) (s.on (token :: op :: more)) := by
    rw [statement_succ, cur_bind, State.cur_on_cons, if_neg (by simp [hInteger])]
    refine bind_of_error ?_
    rw [attempt, hConstruct]
  rw [readProgram, cur_bind, tokensLeft_bind]
  refine bind_of_error ?_
  rw [programItems, cur_bind, State.cur_on_cons, if_neg (by simp [hInteger]), tokensLeft_bind]
  exact bind_of_error (hStatement _)

end TryGo.Parse

namespace TryGo

open Parse

/-- The state in which the parse of a source ends. -/
def lastState (source : String) : State :=
  final (readProgram (State.init (.ofLexer (.ofString source))))

/-- Parsing ends, and it only moves forward. The parse of a source gives a program and stops at
the end mark, or else a report was cut off that would show an integer of too many decimal digits.
Either way the reports stand in the order of their places. Every reader ends, given fuel for the
tokens that are left, and leads to a later state; every loop takes a token in each round or is
over. Running out of fuel would go through every reader to the whole parse, so no call does in
it. -/
theorem parse_ends (source : String) :
    ((∃ program, (parse source).result = .ok program)
        ∧ (lastState source).cursor.rest = [] ∧ (lastState source).cursor.cur.kind = .eof
      ∨ (parse source).result = .error (.unrenderable .tooManyDigits))
    ∧ ((parse source).reports.map fun report => report.pos.offset).Pairwise (· ≤ ·)
    ∧ (∀ (n : Nat) (α : Type) (step : ParseM α), Reader n step → ∀ s : State, s.left ≤ n →
        Later s (final (step s)) ∧ ∀ halt s', step s = .error halt s' → halt ≠ .outOfFuel)
    ∧ LoopsAdvance := by
  have hBuilt : Built readProgram := inferInstance
  have hLater : Later _ (lastState source) :=
    hBuilt.later (State.init (.ofLexer (.ofString source)))
  refine ⟨?_, ?_, ?_, loopsAdvance⟩
  · rcases readProgram_cases (State.init (.ofLexer (.ofString source))) with
      ⟨program, s', hRun, hEof⟩ | ⟨s', hRun⟩
    · have hLast : lastState source = s' := by rw [lastState, hRun, final]
      refine .inl ⟨⟨program, by rw [parse, readFrom, hRun]⟩, ?_, by rw [hLast, hEof]⟩
      obtain ⟨read, hRead⟩ := hLater.rest
      cases hRest : (lastState source).cursor.rest with
      | nil => rfl
      | cons token more =>
          rw [hRest] at hRead
          have hCur : s'.cursor.cur = token := by
            rw [← hLast, Cursor.cur, hRest]
            rfl
          rw [hCur] at hEof
          exact absurd hEof (Lexer.nextKind_ne_eof hRead.symm)
    · exact .inr (by rw [parse, readFrom, hRun])
  · have hBehind := (hLater.ordered (ordered_init source)).behind
    have hReports : (parse source).reports = (lastState source).reports.reverse := by
      rw [parse, readFrom, lastState]
      cases readProgram (State.init (.ofLexer (.ofString source))) <;> rfl
    rw [hReports, List.map_reverse, List.pairwise_reverse]
    exact (List.pairwise_cons.mp hBehind).2
  · intro n α step hReader s hLeft
    refine ⟨hReader.built.later s, fun halt s' hRun hFuel => ?_⟩
    have hRegular := hReader.endsWithin s halt s' hLeft hRun
    rw [hFuel] at hRegular
    exact hRegular

/-! ### The exception -/

def hexDigits (count : Nat) : List Char := '0' :: 'x' :: List.replicate count 'f'

/-- A definition with a hexadecimal literal in the place of a name. -/
def hexDefinition (count : Nat) : String := String.ofList (hexDigits count ++ " := 1".toList)

/-- The number that the digits of the literal denote. -/
def hexValue (count : Nat) : Nat := Number.digitsValue 16 (List.replicate count 'f')

theorem integerValue_hexDigits {count : Nat} (hSome : count ≠ 0) :
    Number.integerValue? (hexDigits count) = some (hexValue count) := by
  have hClass : (List.replicate count 'f').all isHexDigit = true := by
    rw [List.all_replicate, if_neg hSome]
    decide
  have hEmpty : (List.replicate count 'f').isEmpty = false := by
    simpa using hSome
  rw [hexDigits, Number.integerValue?, if_pos (by decide), Number.classValue?,
    if_pos (by rw [hClass, hEmpty]; rfl), hexValue]

/-- The tokens of the definition: an integer, the operator and another integer. -/
theorem spellings_hexDefinition (count : Nat) :
    spellings (hexDefinition count).toList =
      [(.int, String.ofList (hexDigits count)), (.define, ":="), (.int, "1")] := by
  have hNumber : isNumber .int (String.ofList (hexDigits count)) = true := by
    have hTake : (List.replicate count 'f').takeWhile isHexDigit = List.replicate count 'f' :=
      List.takeWhile_eq_self_iff.mpr fun c hMem => by
        rw [List.eq_of_mem_replicate hMem]
        decide
    have hScan : Lexeme.number (hexDigits count) = Lexeme.plain .int (hexDigits count) := by
      rw [hexDigits, Lexeme.number_zero]
      exact congrArg (fun digits => Lexeme.plain .int ('0' :: 'x' :: digits)) hTake
    rw [isNumber, String.toList_ofList, hScan]
    simp [hexDigits]
  have hRest : spellings " := 1".toList = [(.define, ":="), (.int, "1")] := by decide +kernel
  have hBreaks : Breaks " := 1".toList := by
    refine ⟨?_, ?_, ?_, ?_⟩ <;> decide
  have hFirst := spellings_number hNumber hBreaks
  rw [String.toList_ofList] at hFirst
  rw [hexDefinition, String.toList_ofList, hFirst, hRest]

/-- A definition of enough hexadecimal digits cuts the parse off before its first token. -/
theorem readProgram_hexDefinition {count : Nat} (hSome : count ≠ 0)
    (hLong : Number.renderBound ≤ hexValue count) :
    ∃ s, readProgram (State.init (.ofLexer (.ofString (hexDefinition count)))) =
        .error (.unrenderable .tooManyDigits) s ∧ s.cursor.cur.kind = .int := by
  have hWords : (Lexer.ofString (hexDefinition count)).words.map Token.spelling =
      [(.int, String.ofList (hexDigits count)), (.define, ":="), (.int, "1")] :=
    (map_spelling_words_eq _).trans (spellings_hexDefinition count)
  obtain ⟨token, more, hTokens, hToken, hMore⟩ := List.map_eq_cons_iff.mp hWords
  obtain ⟨op, last, rfl, hOp, -⟩ := List.map_eq_cons_iff.mp hMore
  have hLiteral : token.literal = String.ofList (hexDigits count) := congrArg Prod.snd hToken
  have hValue : Number.integerValue? token.literal.toList = some (hexValue count) := by
    rw [hLiteral, String.toList_ofList, integerValue_hexDigits hSome]
  have hRun := readProgram_integer
    (State.init (.ofLexer (.ofString (hexDefinition count)))) last (congrArg Prod.fst hToken)
    hValue (decide_eq_true hLong) (congrArg Prod.fst hOp)
  have hStart : (State.init (.ofLexer (.ofString (hexDefinition count)))).on
      (token :: op :: last) = State.init (.ofLexer (.ofString (hexDefinition count))) := by
    rw [← hTokens]
    rfl
  rw [hStart] at hRun
  refine ⟨_, hRun, ?_⟩
  rw [← hStart, State.cur_on_cons]
  exact congrArg Prod.fst hToken

/-- Not every parse arrives at the end mark. -/
theorem parse_ends_early :
    (parse (hexDefinition 3600)).result = .error (.unrenderable .tooManyDigits)
      ∧ (lastState (hexDefinition 3600)).cursor.cur.kind ≠ .eof := by
  have hLong : Number.renderBound ≤ hexValue 3600 := by decide +kernel
  obtain ⟨s, hRun, hKind⟩ := readProgram_hexDefinition (by decide) hLong
  constructor
  · rw [parse, readFrom, hRun]
  · rw [lastState, hRun, final, hKind]
    decide

end TryGo
