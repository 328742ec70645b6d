import TryGo.Proofs.Parse.Program
import TryGo.Proofs.Token.Literal
import TryGo.Transpile

/-! Sources that are read without a report. Such a source has a phrase of all its tokens, which is
what it is read as, and it is transpiled if its program is lowered. -/
namespace TryGo

/-- No token of a text is an end mark. -/
theorem Lexer.nextKind_ne_eof {lexer : Lexer} {read : List Token} {token : Token}
    {more : List Token} (hWords : lexer.words = read ++ token :: more) : token.kind ≠ .eof := by
  have hMem : token ∈ lexer.words := by
    rw [hWords]
    exact List.mem_append_right read List.mem_cons_self
  exact (lexer.lexed token hMem).inside

/-- A source that is read without a report has a phrase of all its tokens. -/
theorem exists_items_of_parse {source : String} {program : Program}
    (hResult : (parse source).result = .ok program) (hReports : (parse source).reports = []) :
    ∃ items : ItemsPhrase, items.tokens = (Lexer.ofString source).words ∧ items.Fits .eof
      ∧ items.trees = program.statements := by
  obtain ⟨items, more, hTokens, hMore, hTrees, hFits⟩ := Parse.readFrom_quiet hResult hReports
  cases more with
  | nil => exact ⟨items, by rw [List.append_nil] at hTokens; exact hTokens.symm, hFits, hTrees.symm⟩
  | cons token more => exact absurd hMore (Lexer.nextKind_ne_eof hTokens)

/-- A phrase of all the tokens of a source is what the source is read as. -/
theorem parse_of_items {source : String} {items : ItemsPhrase}
    (hTokens : items.tokens = (Lexer.ofString source).words) (hFits : items.Fits .eof) :
    parse source =
      ⟨.ok ⟨items.tokens.headD (Token.eof (Lexer.ofString source).endPos), items.trees⟩, []⟩ := by
  rw [← Parse.readFrom_run items hFits, hTokens]
  rfl

theorem trees_of_parse {source : String} {program : Program} {items : ItemsPhrase}
    (hResult : (parse source).result = .ok program)
    (hTokens : items.tokens = (Lexer.ofString source).words) (hFits : items.Fits .eof) :
    items.trees = program.statements := by
  rw [parse_of_items hTokens hFits] at hResult
  cases hResult
  rfl

/-- A source that is read without a report is transpiled if its program is lowered. -/
theorem goSource_of_program {source : String} {program : Program} {output : String}
    (hResult : (parse source).result = .ok program) (hReports : (parse source).reports = [])
    (hLowered : program.goSource = .ok output) (filename : Option String) :
    goSource source filename = .ok output := by
  have hProgram : (parse source).program = .ok program := by
    rw [Parse.Reading.program, hResult]
    rfl
  rw [Program.goSource] at hLowered
  cases hLines : program.lower.result with
  | error fault =>
      rw [hLines] at hLowered
      cases hLowered
  | ok lines =>
      rw [hLines] at hLowered
      cases hLowered
      simp only [goSource, transpile, hProgram, hReports, List.isEmpty_nil, if_true, hLines]

end TryGo
