import TryGo.Proofs.Layout.Lowering

/-! The way from source to output does not depend on layout. Sources whose tokens say the same are
read with the same errors, as programs that are the same but for positions, and are written as the
same output. -/
namespace TryGo

/-- A token that says what a spelling does, at the start of a source. -/
def Spelling.token (spelling : Spelling) : Token := ⟨spelling.1, spelling.2, Position.start⟩

/-- What tokens say is all that is left of them without positions. -/
theorem map_unplaced_eq_map_spelling (tokens : List Token) :
    tokens.map Token.unplaced = (tokens.map Token.spelling).map Spelling.token := by
  rw [List.map_map]
  rfl

theorem map_spelling_words_of_tokenize {source other : String}
    (hSame : (tokenize source).map Token.spelling = (tokenize other).map Token.spelling) :
    (Lexer.ofString source).words.map Token.spelling =
      (Lexer.ofString other).words.map Token.spelling := by
  rw [tokenize, tokenize, Lexer.tokens, Lexer.tokens, List.map_append, List.map_append] at hSame
  exact List.append_cancel_right hSame

theorem unplaced_ofLexer {source other : String}
    (hSame : (tokenize source).map Token.spelling = (tokenize other).map Token.spelling) :
    (Parse.Cursor.ofLexer (Lexer.ofString source)).unplaced =
      (Parse.Cursor.ofLexer (Lexer.ofString other)).unplaced := by
  have hWords := map_spelling_words_of_tokenize hSame
  change Parse.Cursor.mk ((Lexer.ofString source).words.map Token.unplaced) Position.start =
    Parse.Cursor.mk ((Lexer.ofString other).words.map Token.unplaced) Position.start
  rw [map_unplaced_eq_map_spelling, map_unplaced_eq_map_spelling, hWords]

/-- Programs that are the same but for positions have the same lines or the same fault. -/
theorem Program.result_lower_of_unplaced {program other : Program}
    (hSame : program.unplaced = other.unplaced) : program.lower.result = other.lower.result := by
  rw [← program.result_lower_unplaced, hSame, other.result_lower_unplaced]

/-- What becomes of a source is settled by what it was read as and by the errors. -/
theorem goSource_eq (source : String) (filename : Option String) :
    goSource source filename =
      match (parse source).result with
      | .error halt => .error (.crash (Crash.ofHalt halt))
      | .ok program =>
          if (parse source).errors.isEmpty then
            (program.lower.result.map Go.sourceText).mapError fun fault => .crash (.lowering fault)
          else .error (.errors ⟨(parse source).errors, filename⟩) := by
  have hErrors : (parse source).errors.isEmpty = (parse source).reports.isEmpty := List.isEmpty_map
  rw [goSource, transpile, Parse.Reading.program, hErrors]
  cases (parse source).result with
  | error halt => rfl
  | ok program =>
      dsimp only [Except.mapError]
      cases (parse source).reports.isEmpty with
      | true =>
          rw [if_pos rfl, if_pos rfl]
          cases program.lower.result <;> rfl
      | false => rfl

/-- Readings that are the same but for positions come to the same. -/
theorem goSource_of_unplaced {source other : String}
    (hErrors : (parse source).errors = (parse other).errors)
    (hResult :
      (parse source).result.map Program.unplaced = (parse other).result.map Program.unplaced)
    (filename : Option String) : goSource source filename = goSource other filename := by
  rw [goSource_eq, goSource_eq, hErrors]
  cases hSource : (parse source).result with
  | error halt =>
      cases hOther : (parse other).result with
      | error halt' =>
          rw [hSource, hOther] at hResult
          cases hResult
          rfl
      | ok program =>
          rw [hSource, hOther] at hResult
          cases hResult
  | ok program =>
      cases hOther : (parse other).result with
      | error halt =>
          rw [hSource, hOther] at hResult
          cases hResult
      | ok program' =>
          rw [hSource, hOther] at hResult
          dsimp only
          rw [Program.result_lower_of_unplaced (Except.ok.inj hResult)]

/-- Sources whose tokens agree in kinds and literals, wherever they stand, have the same errors.
They are read as programs that are the same but for positions, from which the same text is
generated. Both have the same output, the same errors raised or the same crash. -/
theorem layout_independent (source other : String)
    (hSame : (tokenize source).map Token.spelling = (tokenize other).map Token.spelling) :
    (parse source).errors = (parse other).errors
      ∧ (parse source).result.map Program.unplaced = (parse other).result.map Program.unplaced
      ∧ (∀ program program', (parse source).result = .ok program →
          (parse other).result = .ok program' → program.goSource = program'.goSource)
      ∧ ∀ filename, goSource source filename = goSource other filename := by
  have hCursor := unplaced_ofLexer hSame
  obtain ⟨hErrors, hResult⟩ := Parse.readFrom_unplaced (.ofLexer (Lexer.ofString source))
  obtain ⟨hErrors', hResult'⟩ := Parse.readFrom_unplaced (.ofLexer (Lexer.ofString other))
  have hSameErrors : (parse source).errors = (parse other).errors := by
    rw [parse, parse, ← hErrors, ← hErrors', hCursor]
  have hSameResult :
      (parse source).result.map Program.unplaced = (parse other).result.map Program.unplaced := by
    rw [parse, parse, ← hResult, ← hResult', hCursor]
  refine ⟨hSameErrors, hSameResult, fun program program' hProgram hProgram' => ?_,
    goSource_of_unplaced hSameErrors hSameResult⟩
  rw [hProgram, hProgram'] at hSameResult
  rw [Program.goSource, Program.result_lower_of_unplaced (Except.ok.inj hSameResult),
    Program.goSource]

/-- Two layouts of one function that throws. -/
def denseSource : String := "func f(a,b int) string \x7b throw a+b \x7d"

def airySource : String :=
  "func f ( a , b int )\n  string\n\x7b\n\tthrow  a\n\t\t+ b\n\x7d\n"

theorem layout_independent_airySource :
    (tokenize denseSource).map Token.spelling = (tokenize airySource).map Token.spelling
      ∧ tokenize denseSource ≠ tokenize airySource
      ∧ goSource denseSource none = goSource airySource none := by
  have hSame :
      (tokenize denseSource).map Token.spelling = (tokenize airySource).map Token.spelling := by
    decide +kernel
  exact ⟨hSame, by decide +kernel, (layout_independent denseSource airySource hSame).2.2.2 none⟩

end TryGo
