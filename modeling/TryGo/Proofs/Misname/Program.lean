import TryGo.Proofs.Misname.Integer
import TryGo.Proofs.Progress.Program

/-! The one way in which a parse is cut off. The parser would report that an expression on the left
side of a definition is no identifier, and the report shows the expression, but a number in it has
too many decimal digits to be shown. -/
namespace TryGo.Parse

/-- The expression that will be reported if a simple statement is read now: a definition comes, and
this is the first expression on its left side that is no identifier. -/
def State.misnamed? (s : State) : Option Expr :=
  match readExprs s with
  | .ok exprs s' =>
      if s'.cursor.peek.kind == .define then exprs.find? fun e => !e.isIdent else none
  | .error _ _ => none

/-- Whether the expression that will be reported shows a number with too many decimal digits. -/
def State.misnamesLong (s : State) : Bool := s.misnamed?.any Expr.showsLong

/-- The first expression that is no identifier is reported, if its text can be had. -/
theorem requireIdents_find {es : List Expr} {e : Expr}
    (hFind : es.find? (fun e => !e.isIdent) = some e) (s : State) :
    requireIdents es s =
      match e.render with
      | .ok text =>
          .error .abandoned
            { s with reports := ⟨s.cursor.cur.pos, .notIdentifier text⟩ :: s.reports }
      | .error error => .error (.unrenderable error) s := by
  induction es with
  | nil => cases hFind
  | cons first es ih =>
      rw [List.find?_cons] at hFind
      rw [requireIdents]
      cases hIdent : first.isIdent with
      | true =>
          rw [hIdent] at hFind
          rw [if_pos rfl]
          exact ih hFind
      | false =>
          rw [hIdent] at hFind
          cases hFind
          rw [if_neg Bool.false_ne_true]
          cases hRender : e.render <;> rfl

theorem State.misnamed?_eq_some {s : State} {e : Expr} : s.misnamed? = some e ↔
    ∃ es s', readExprs s = .ok es s' ∧ s'.cursor.peek.kind = .define
      ∧ es.find? (fun e => !e.isIdent) = some e := by
  unfold misnamed?
  cases hRun : readExprs s with
  | error halt s' => simp
  | ok es s' =>
      simp only [Option.ite_none_right_eq_some, beq_iff_eq]
      constructor
      · exact fun hFound => ⟨es, s', rfl, hFound⟩
      · rintro ⟨_, _, hSame, hFound⟩
        cases hSame
        exact hFound

theorem State.misnamesLong_iff {s : State} :
    s.misnamesLong = true ↔ ∃ e, s.misnamed? = some e ∧ e.showsLong = true := by
  unfold misnamesLong
  cases s.misnamed? <;> simp

/-- Where an expression is misnamed, the reader of simple statements comes to report it. -/
theorem simpleStmt_misnamed {s : State} {e : Expr} (hMisnamed : s.misnamed? = some e) :
    ∃ middle, simpleStmt s =
      match e.render with
      | .ok text =>
          .error .abandoned { middle with
            reports := ⟨middle.cursor.cur.pos, .notIdentifier text⟩ :: middle.reports }
      | .error error => .error (.unrenderable error) middle := by
  obtain ⟨es, middle, hRun, hDefine, hFind⟩ := State.misnamed?_eq_some.mp hMisnamed
  have hSimple : simpleStmt s = expressionStmt s := simpleStmt_eq s s.cursor.rest
  refine ⟨middle, ?_⟩
  rw [hSimple, expressionStmt, cur_bind, bind_of_ok hRun, peek_bind,
    if_pos (beq_iff_eq.mpr hDefine), bind_run, requireIdents_find hFind middle]
  cases e.render <;> rfl

/-- The reader of simple statements is cut off only where an expression is misnamed that has no
text. -/
theorem simpleStmt_unrenderable {s s' : State} {error : RenderError}
    (hRun : simpleStmt s = .error (.unrenderable error) s') :
    ∃ e, s.misnamed? = some e ∧ e.hasLongInteger = true := by
  have hSimple : simpleStmt s = expressionStmt s := simpleStmt_eq s s.cursor.rest
  rw [hSimple, expressionStmt, cur_bind] at hRun
  rcases bind_error hRun with hExprs | ⟨es, middle, hExprs, hRest⟩
  · exact absurd hExprs ((inferInstance : Worded readExprs).halts s error s')
  rw [peek_bind] at hRest
  by_cases hDefine : (middle.cursor.peek.kind == .define) = true
  · rw [if_pos hDefine] at hRest
    rcases bind_error hRest with hIdents | ⟨_, after, -, hValues⟩
    · cases hFind : es.find? fun e => !e.isIdent with
      | none =>
          have hAll : ∀ e ∈ es, e.isIdent = true := by simpa using hFind
          rw [requireIdents_run middle es hAll] at hIdents
          cases hIdents
      | some e =>
          refine ⟨e, State.misnamed?_eq_some.mpr
            ⟨es, middle, hExprs, beq_iff_eq.mp hDefine, hFind⟩, ?_⟩
          by_contra hShort
          rw [requireIdents_find hFind, Expr.render, if_neg hShort] at hIdents
          cases hIdents
    · refine absurd hValues ((?_ : Worded _).halts after error s')
      infer_instance
  · rw [if_neg hDefine] at hRest
    refine absurd hRest ((?_ : Worded _).halts middle error s')
    split
    · infer_instance
    · split <;> infer_instance

/-- A misnamed expression was read from the tokens that are left. -/
theorem readFrom_misnamed {s : State} {e : Expr} (hMisnamed : s.misnamed? = some e) :
    ReadFrom s.cursor.rest e := by
  obtain ⟨es, middle, hRun, -, hFind⟩ := State.misnamed?_eq_some.mp hMisnamed
  exact readFrom_readExprs hRun e (List.mem_of_find?_eq_some hFind)

/-- The reader of simple statements may be made to halt where a long number is misnamed. -/
theorem watched_simpleStmt :
    Watched State.misnamesLong simpleStmt (haltWhere State.misnamesLong) where
  same s := by
    unfold haltWhere
    split
    next hLong =>
      obtain ⟨e, hMisnamed, hShows⟩ := State.misnamesLong_iff.mp hLong
      obtain ⟨middle, hReported⟩ := simpleStmt_misnamed hMisnamed
      rw [Expr.render, if_pos ((readFrom_misnamed hMisnamed).long.trans hShows)] at hReported
      exact .inr ⟨⟨s, hLong, .of_rest List.suffix_rfl rfl rfl, rfl⟩,
        .unrenderable .tooManyDigits, middle, Halt.noConfusion, hReported⟩
    next => exact .inl rfl
  worded := by
    refine ⟨fun s error s' hRun => ?_⟩
    unfold haltWhere at hRun
    split at hRun
    next => cases hRun
    next hShort =>
      obtain ⟨e, hMisnamed, hLong⟩ := simpleStmt_unrenderable hRun
      refine hShort (State.misnamesLong_iff.mpr ⟨e, hMisnamed, ?_⟩)
      exact (readFrom_misnamed hMisnamed).long.symm.trans hLong
  built := inferInstance

/-- The whole parse may be made to halt where a long number is misnamed. -/
theorem watched_readProgram : Watched State.misnamesLong readProgram
    (readProgramBy (.halting State.misnamesLong)) := by
  have hWatched := watched_readProgramBy watched_simpleStmt
  rwa [readProgramBy_parserHoles] at hWatched

section Source

variable {source : String} {s : State}

/-- Where a parse comes to a long number that is misnamed, it is behind its start and is cut off. -/
theorem ComesTo.cutOff (hComes : ComesTo source State.misnamesLong s) :
    Later (State.init (.ofLexer (.ofString source))) s
      ∧ ∃ s', readProgram (State.init (.ofLexer (.ofString source))) =
          .error (.unrenderable .tooManyDigits) s' := by
  have hCases := readProgram_cases (State.init (.ofLexer (.ofString source)))
  rcases watched_readProgram.same (State.init (.ofLexer (.ofString source))) with
    hSame | ⟨⟨s', -, hLater, hHalt⟩, halt, last, -, hFails⟩
  · rw [hComes.2] at hSame
    rcases hCases with ⟨program, s', hRun, -⟩ | ⟨s', hRun⟩ <;> cases hSame.trans hRun
  · rw [hComes.2] at hHalt
    cases hHalt
    refine ⟨hLater, ?_⟩
    rcases hCases with ⟨program, s', hRun, -⟩ | hCut
    · rw [hRun] at hFails
      cases hFails
    · exact hCut

/-- A parse that is cut off comes to a long number that is misnamed. -/
theorem exists_comesTo {s' : State}
    (hCut : readProgram (State.init (.ofLexer (.ofString source))) =
      .error (.unrenderable .tooManyDigits) s') :
    ∃ s, ComesTo source State.misnamesLong s := by
  rcases watched_readProgram.same (State.init (.ofLexer (.ofString source))) with
    hSame | ⟨⟨s, hLong, -, hHalt⟩, -⟩
  · exact absurd (hSame.trans hCut) (watched_readProgram.worded.halts _ _ _)
  · exact ⟨s, hLong, hHalt⟩

/-- The result of a parse is that of its run. -/
theorem result_parse_eq_unrenderable :
    (parse source).result = .error (.unrenderable .tooManyDigits)
      ↔ ∃ s', readProgram (State.init (.ofLexer (.ofString source))) =
          .error (.unrenderable .tooManyDigits) s' := by
  rw [parse, readFrom]
  cases readProgram (State.init (.ofLexer (.ofString source))) <;> simp

end Source

end TryGo.Parse

namespace TryGo

open Parse

/-- Parsing is cut off in one case only. The parse of a source gives a program, or else its end is
that a text could not be rendered. This is so exactly if the parse comes to a statement in which it
would report that an expression on the left side of a definition is no identifier, and the text of
that expression shows an integer of too many decimal digits. The integers of the expression stand in
its text and are the values of integer tokens of the source, and the literal of one with too many
digits is hexadecimal, octal or binary. -/
theorem parse_misnamed (source : String) :
    ((∃ program, (parse source).result = .ok program)
      ∨ (parse source).result = .error (.unrenderable .tooManyDigits))
    ∧ ((parse source).result = .error (.unrenderable .tooManyDigits) ↔
      ∃ s, ComesTo source State.misnamesLong s)
    ∧ ∀ s e, ComesTo source State.misnamesLong s → s.misnamed? = some e →
      ∀ entry ∈ e.integers, entry.1 ∈ (Lexer.ofString source).words ∧ entry.1.kind = .int
        ∧ (toString entry.2).toList <:+: e.text.toList
        ∧ (Number.isLong entry.2 = true → Number.isBased entry.1.literal.toList = true) := by
  refine ⟨?_, ?_, fun s e hComes hMisnamed entry hMem => ?_⟩
  · rcases readProgram_cases (State.init (.ofLexer (.ofString source))) with
      ⟨program, s', hRun, -⟩ | hCut
    · exact .inl ⟨program, by rw [parse, readFrom, hRun]⟩
    · exact .inr (result_parse_eq_unrenderable.mpr hCut)
  · rw [result_parse_eq_unrenderable]
    constructor
    · rintro ⟨s', hCut⟩
      exact exists_comesTo hCut
    · rintro ⟨s, hComes⟩
      exact hComes.cutOff.2
  · obtain ⟨hToken, hKind, value, hEntry, hValue⟩ :=
      (readFrom_misnamed hMisnamed).spelled entry hMem
    refine ⟨hComes.cutOff.1.rest.subset hToken, hKind, e.infix_text entry hMem, fun hLong => ?_⟩
    rw [hEntry] at hLong
    exact Number.isBased_of_isLong hValue hLong

/-- The case occurs: a definition of enough hexadecimal digits is cut off. -/
theorem parse_misnamed_hex :
    ∃ s, ComesTo (hexDefinition 3600) State.misnamesLong s := by
  have hLong : Number.renderBound ≤ hexValue 3600 := by decide +kernel
  obtain ⟨s, hRun, -⟩ := readProgram_hexDefinition (by decide) hLong
  exact (parse_misnamed _).2.1.mp (result_parse_eq_unrenderable.mpr ⟨s, hRun⟩)

end TryGo
