import TryGo.Proofs.Parse.Source
import TryGo.Proofs.PassThrough.Stmt

/-! Sources without a try or a throw pass through. What is written for such a source says what
its tokens do, in their order and with nothing added. -/
namespace TryGo

/-- The lines of a program without a try or a throw say what its leaves do. -/
theorem lines_kept {program : Program} (hPlain : program.isPlain = true) (items : ItemsPhrase)
    (hLexed : AllLexed items.tokens) (hTrees : items.trees = program.statements) :
    kept (Go.sourceText program.lines) = keptLeaves items.leaves := by
  rw [Lower.kept_sourceText, Program.lines, Lower.topLines_kept, ← hTrees]
  exact Lower.items_kept items hLexed (hTrees ▸ hPlain) 0

/-- A source without a try or a throw that is read without a report has a phrase of all its tokens
and is transpiled. Whichever such phrase tells the parts that the tokens play, the output
and the spellings of the tokens agree but for white space, parentheses and semicolons. -/
theorem goSource_squash (source : String) (filename : Option String) (program : Program)
    (hResult : (parse source).result = .ok program) (hReports : (parse source).reports = [])
    (hPlain : program.isPlain = true) :
    (∃ items : ItemsPhrase, items.tokens = (Lexer.ofString source).words ∧ items.Fits .eof
      ∧ items.trees = program.statements)
    ∧ ∃ output, goSource source filename = .ok output
      ∧ ∀ items : ItemsPhrase, items.tokens = (Lexer.ofString source).words → items.Fits .eof →
          items.leaves.map Leaf.token = (Lexer.ofString source).words
            ∧ squash output.toList = squash (items.leaves.flatMap Leaf.spelled) := by
  obtain ⟨items, hTokens, hFits, hTrees⟩ := exists_items_of_parse hResult hReports
  have hLexed : AllLexed (Lexer.ofString source).words := (Lexer.ofString source).lexed
  have hOutput := program.goSource_of_isPlain hPlain (Parse.allShaped_readFrom hResult)
  refine ⟨⟨items, hTokens, hFits, hTrees⟩, Go.sourceText program.lines,
    goSource_of_program hResult hReports hOutput filename, ?_⟩
  intro other hOther hOtherFits
  refine ⟨other.map_token_leaves.trans hOther, ?_⟩
  exact lines_kept hPlain other (by rw [hOther]; exact hLexed)
    (trees_of_parse hResult hOther hOtherFits)

/-- A source with a comment in an import group, the size of an array, parentheses that are not
printed, and a comment that breaks off. -/
def plainSource : String :=
  "import ( // first\n \"fmt\"; \"os\" ) "
    ++ "func f(a, b [4]int) string \x7b return (a) + (b * 2) \x7d /* end"

theorem goSource_squash_plainSource :
    ∃ program output, (parse plainSource).result = .ok program ∧ (parse plainSource).reports = []
      ∧ program.isPlain = true ∧ goSource plainSource none = .ok output
      ∧ ∃ items : ItemsPhrase, items.tokens = (Lexer.ofString plainSource).words
        ∧ squash output.toList = squash (items.leaves.flatMap Leaf.spelled) := by
  obtain ⟨program, hResult, hReports, hPlain⟩ :=
    Parse.Reading.exists_ok (parse plainSource) Program.isPlain (by decide +kernel)
  obtain ⟨⟨items, hTokens, hFits, -⟩, output, hOutput, hSays⟩ :=
    goSource_squash plainSource none program hResult hReports hPlain
  exact ⟨program, output, hResult, hReports, hPlain, hOutput, items, hTokens,
    (hSays items hTokens hFits).2⟩

end TryGo
