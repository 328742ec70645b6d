import TryGo.Proofs.Again.Text
import TryGo.Proofs.Layout.Program

/-! Transpiling what was printed. A source without a try or a throw is printed as text that is
read as its printed phrase, and that phrase is printed as the same text. -/
namespace TryGo

/-- Whether a phrase of all the tokens of a source is printed so that it can be read as before. No
quoted literal breaks off behind a backslash, the size of an array is one token where it stands
bare, and no statement is continued by what the next one is written as. -/
structure ItemsPhrase.PrintsApart (items : ItemsPhrase) (source : String) : Prop where
  covers : items.tokens = (Lexer.ofString source).words
  fits : items.Fits .eof
  closed : ∀ token ∈ items.tokens, token.isClosed = true
  sizes : SizesStand items.leaves
  apart : items.Apart .eof

/-- A text whose tokens say what those of a phrase do is read without a report, as the program of
the phrase but for positions. -/
theorem parse_of_spellings {text : String} {items : ItemsPhrase} (hFits : items.Fits .eof)
    (hWords : (Lexer.ofString text).words.map Token.spelling =
      items.tokens.map Token.spelling) :
    (parse text).errors = [] ∧ ∃ token,
      (parse text).result.map Program.unplaced =
        .ok (Program.unplaced ⟨token, items.trees⟩) := by
  let cursor : Parse.Cursor := ⟨items.tokens, (Lexer.ofString text).endPos⟩
  have hCursor : (Parse.Cursor.ofLexer (Lexer.ofString text)).unplaced = cursor.unplaced := by
    change Parse.Cursor.mk ((Lexer.ofString text).words.map Token.unplaced) Position.start =
      Parse.Cursor.mk (items.tokens.map Token.unplaced) Position.start
    rw [map_unplaced_eq_map_spelling, map_unplaced_eq_map_spelling, hWords]
  obtain ⟨hErrors, hResult⟩ := Parse.readFrom_unplaced (.ofLexer (Lexer.ofString text))
  obtain ⟨hErrors', hResult'⟩ := Parse.readFrom_unplaced cursor
  have hRead := Parse.readFrom_run items hFits (Lexer.ofString text).endPos
  change Parse.readFrom cursor = _ at hRead
  refine ⟨?_, items.tokens.headD (Token.eof (Lexer.ofString text).endPos), ?_⟩
  · rw [parse, ← hErrors, hCursor, hErrors', hRead]
    rfl
  · rw [parse, ← hResult, hCursor, hResult', hRead]
    rfl

/-- A text that is read as a program is printed as the program is. -/
theorem goSource_of_unplaced_program {text output : String} {program : Program}
    (hErrors : (parse text).errors = [])
    (hResult : (parse text).result.map Program.unplaced = .ok program.unplaced)
    (hOutput : program.goSource = .ok output) (filename : Option String) :
    goSource text filename = .ok output := by
  rw [goSource_eq, hErrors]
  cases hRead : (parse text).result with
  | error halt =>
      rw [hRead] at hResult
      cases hResult
  | ok read =>
      rw [hRead] at hResult
      dsimp only
      rw [Program.result_lower_of_unplaced (Except.ok.inj hResult), List.isEmpty_nil, if_pos rfl]
      rw [Program.goSource] at hOutput
      rw [hOutput]
      rfl

/-- The text of the lines of a program without a try or a throw has the tokens of the printed
phrase. -/
theorem map_spelling_sourceText {items : ItemsPhrase} {program : Program}
    (hSound : AllSound items.tokens) (hSizes : SizesStand items.leaves)
    (hTrees : items.trees = program.statements) (hPlain : program.isPlain = true) :
    (Lexer.ofString (Go.sourceText program.lines)).words.map Token.spelling =
      items.printed.tokens.map Token.spelling := by
  have hItemsPlain : Stmt.allPlain items.trees = true := by
    rw [hTrees]
    exact hPlain
  have hSpell : LinesSpell (Stmt.topLines none items.trees 0)
      (items.printed.tokens.map Token.spelling) :=
    items.linesSpell_top none hSound hSizes hItemsPlain
  have hText := hSpell []
  rw [List.append_nil, spellings_nil, List.append_nil, hTrees] at hText
  rw [map_spelling_words_eq]
  exact hText

/-- What is printed for a program without a try or a throw is printed again as it is. -/
theorem goSource_lines {source : String} {items : ItemsPhrase} {program : Program}
    (hPrints : items.PrintsApart source) (hTrees : items.trees = program.statements)
    (hPlain : program.isPlain = true) (filename : Option String) :
    goSource (Go.sourceText program.lines) filename = .ok (Go.sourceText program.lines) := by
  have hSound : AllSound items.tokens := by
    rw [hPrints.covers]
    refine (Lexer.ofString source).sound ?_
    rw [← hPrints.covers]
    exact hPrints.closed
  have hItemsPlain : Stmt.allPlain items.trees = true := by
    rw [hTrees]
    exact hPlain
  have hAlike := items.alike_printed hSound
  have hFits : items.printed.Fits .eof :=
    items.fits_printed (by decide) hSound.lexed hPrints.apart
  have hLines : Stmt.topLines none items.printed.trees 0 = program.lines := by
    rw [hAlike.topLines none none rfl, hTrees, Program.lines]
  have hWords : (Lexer.ofString (Go.sourceText program.lines)).words.map Token.spelling =
      items.printed.tokens.map Token.spelling :=
    map_spelling_sourceText hSound hPrints.sizes hTrees hPlain
  obtain ⟨hErrors, token, hResult⟩ := parse_of_spellings hFits hWords
  -- The program of the printed phrase has the same lines.
  let printed : Program := ⟨token, items.printed.trees⟩
  have hPrintedPlain : printed.isPlain = true := hAlike.allPlain.trans hItemsPlain
  have hShaped := Parse.allShaped_readFrom
    (congrArg Parse.Reading.result (Parse.readFrom_run items.printed hFits Position.start))
  have hOutput : printed.goSource = .ok (Go.sourceText program.lines) := by
    rw [printed.goSource_of_isPlain hPrintedPlain hShaped, Program.lines, hLines]
  exact goSource_of_unplaced_program hErrors hResult hOutput filename

/-- A source without a try or a throw that is read without a report has a phrase of all its tokens
and is transpiled. If the phrase prints apart, transpiling the output again changes nothing. -/
theorem goSource_again (source : String) (filename : Option String) (program : Program)
    (hResult : (parse source).result = .ok program) (hReports : (parse source).reports = [])
    (hPlain : program.isPlain = true) :
    (∃ items : ItemsPhrase, items.tokens = (Lexer.ofString source).words ∧ items.Fits .eof
      ∧ items.trees = program.statements)
    ∧ ∃ output, goSource source filename = .ok output
      ∧ ∀ items : ItemsPhrase, items.PrintsApart source →
          ∀ other, goSource output other = .ok output := by
  have hOutput := program.goSource_of_isPlain hPlain (Parse.allShaped_readFrom hResult)
  refine ⟨exists_items_of_parse hResult hReports, Go.sourceText program.lines,
    goSource_of_program hResult hReports hOutput filename, fun items hPrints other => ?_⟩
  exact goSource_lines hPrints (trees_of_parse hResult hPrints.covers hPrints.fits) hPlain other

/-- Whether a source without a try or a throw is read without a report, but what is printed for
it is transpiled to something else or not at all. -/
def ChangesAgain (source : String) : Prop :=
  (parse source).reports = [] ∧ (parse source).result.toOption.map Program.isPlain = some true
    ∧ ∃ output, goSource source none = .ok output ∧ (goSource output none).toOption ≠ some output

theorem goSource_of_toOption {source output : String}
    (hOutput : (goSource source none).toOption = some output) :
    goSource source none = .ok output := by
  cases hSource : goSource source none with
  | error failure =>
      rw [hSource] at hOutput
      cases hOutput
  | ok text =>
      rw [hSource] at hOutput
      exact congrArg Except.ok (Option.some.inj hOutput)

theorem changesAgain_of_output {source : String} (output : String)
    (hReports : (parse source).reports = [])
    (hPlain : (parse source).result.toOption.map Program.isPlain = some true)
    (hOutput : (goSource source none).toOption = some output)
    (hAgain : (goSource output none).toOption ≠ some output) : ChangesAgain source :=
  ⟨hReports, hPlain, output, goSource_of_toOption hOutput, hAgain⟩

/-- Newlines carry no meaning, so a statement that starts with a minus continues the one before it
once the semicolon between them is gone. The size of an array loses its quotes, and a literal that
breaks off behind a backslash takes in the quote that is printed behind it. -/
theorem goSource_again_changes :
    ChangesAgain "a; -b" ∧ ChangesAgain "var x [\"y z\"]int" ∧ ChangesAgain "a := \"b\\" := by
  refine ⟨changesAgain_of_output "a\n-b\n" ?_ ?_ ?_ ?_,
    changesAgain_of_output "var x [y z]int\n" ?_ ?_ ?_ ?_,
    changesAgain_of_output "a := \"b\\\"\n" ?_ ?_ ?_ ?_⟩ <;> decide +kernel

/-- A token on the first line of a source. -/
def Mark.inline (kind : TokenKind) (literal : String) (offset : Nat) : Mark kind :=
  ⟨⟨kind, literal, ⟨1, offset + 1, offset⟩⟩, rfl⟩

def ExprPhrase.inline (name : String) (offset : Nat) : ExprPhrase :=
  .atom (Mark.inline .ident name offset).val (.ident (Mark.inline .ident name offset).val name) rfl

/-- A source with an array, a loop whose semicolons and parentheses are not printed, and a
comment. -/
def inlineSource : String := "var t [4]int; for ; (t); \x7b x++; break \x7d // done"

def inlineDecl : StmtPhrase :=
  .decl .var (.inline .kwVar "var" 0) (.inline .ident "t" 4)
    (some (.array (.inline .lbracket "[" 6) (Mark.inline .int "4" 7).val (by decide)
      (.inline .rbracket "]" 8) (.named (.inline .ident "int" 9)))) none

def inlineLoop : StmtPhrase :=
  .loop (.inline .kwFor "for" 14)
    (.clauses none (.inline .semicolon ";" 18)
      (some (.group (.inline .lparen "(" 20) (.inline "t" 21) (.inline .rparen ")" 22)))
      (.inline .semicolon ";" 23) none)
    (.mk (.inline .lbrace "\x7b" 25)
      (.cons (.simple (.incr (.inline "x" 27) (Mark.inline .inc "++" 28).val (Or.inl rfl)))
        (some (.inline .semicolon ";" 30))
        (.cons (.branch (Mark.inline .kwBreak "break" 32).val (Or.inl rfl)) none .nil))
      (.inline .rbrace "\x7d" 38))

def inlineItems : ItemsPhrase :=
  .cons inlineDecl (some (.inline .semicolon ";" 12))
    (.cons inlineLoop none
      (.cons (.comment (Mark.inline .comment "// done" 40).val rfl) none .nil))

theorem inlineItems_printsApart : inlineItems.PrintsApart inlineSource := by
  have hDecl (next : TokenKind) (hDot : next ≠ .dot) (hAssign : next ≠ .assign) :
      inlineDecl.Fits next := ⟨rfl, rfl, hDot, hAssign⟩
  have hLoop (next : TokenKind) : inlineLoop.Fits next :=
    ⟨⟨fun _ hPhrase => absurd hPhrase (Option.some_ne_none _).symm,
      fun _ hPhrase => Option.some.inj hPhrase ▸ trivial,
      fun _ hPhrase => absurd hPhrase (Option.some_ne_none _).symm⟩, trivial, trivial, by decide,
      trivial⟩
  refine ⟨by decide +kernel, ?_, by decide +kernel, ?_, ?_⟩
  · exact ⟨hDecl _ (by decide) (by decide), hLoop _, by decide, trivial, by decide, trivial⟩
  · intro size hMem
    have hSize : size = (Mark.inline .int "4" 7).val := by
      simpa [inlineItems, inlineDecl, inlineLoop, ItemsPhrase.leaves, StmtPhrase.leaves,
        BlockPhrase.leaves, TypePhrase.leaves, LoopPhrase.tokens, SimplePhrase.tokens, words]
        using hMem
    rw [hSize]
    exact standsBare_int (by decide)
  · exact ⟨hDecl _ (by decide) (by decide), trivial, hLoop _,
      ⟨trivial, trivial, trivial, trivial, trivial⟩, trivial, trivial, trivial⟩

/-- Transpiling the output of that source changes nothing. -/
theorem goSource_again_inlineSource :
    ∃ program output, (parse inlineSource).result = .ok program
      ∧ (parse inlineSource).reports = [] ∧ program.isPlain = true
      ∧ inlineItems.PrintsApart inlineSource ∧ goSource inlineSource none = .ok output
      ∧ goSource output none = .ok output := by
  have hParse := parse_of_items inlineItems_printsApart.covers inlineItems_printsApart.fits
  have hResult := congrArg Parse.Reading.result hParse
  have hReports := congrArg Parse.Reading.reports hParse
  have hPlain : Stmt.allPlain inlineItems.trees = true := by decide
  obtain ⟨-, output, hOutput, hAgain⟩ :=
    goSource_again inlineSource none _ hResult hReports hPlain
  exact ⟨_, output, hResult, hReports, hPlain, inlineItems_printsApart, hOutput,
    hAgain inlineItems inlineItems_printsApart none⟩

end TryGo
