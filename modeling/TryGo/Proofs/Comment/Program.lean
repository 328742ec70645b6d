import TryGo.Proofs.Comment.Buffer
import TryGo.Proofs.Comment.Phrase
import TryGo.Proofs.Comment.Walk
import TryGo.Proofs.Parse.Source

/-! The comments of a source and those of the program that it is read as. -/
namespace TryGo

/-- The comments of a program are those of its source that are not dropped, in their order, each
in the innermost braces around it. The walk through the program meets the same ones. While the
source is read, nothing waits whenever a list of statements takes the next one: whatever would be
done then if something waited, the outcome is the same. -/
theorem comments_kept {source : String} {program : Program}
    (hResult : (parse source).result = .ok program) (hReports : (parse source).reports = []) :
    program.comments = keptComments (Lexer.ofString source).words
      ∧ commentLiterals (program.walk []) = literalsOf program.comments
      ∧ Parse.readFromBy id (.ofLexer (.ofString source)) = parse source
      ∧ ∀ other, Parse.readFromBy (Parse.onlyClear other) (.ofLexer (.ofString source)) =
        parse source := by
  obtain ⟨items, hTokens, hFits, hTrees⟩ := exists_items_of_parse hResult hReports
  have hComplete : program.Complete := by
    rw [Program.Complete, ← hTrees]
    exact items.allComplete_trees .eof hFits
  refine ⟨?_, Program.commentLiterals_walk hComplete, Parse.readFromBy_id _, fun other =>
    Parse.readFromBy_onlyClear other _⟩
  have hScans : Scans .eof [] items.tokens (Stmt.allComments .program items.trees) :=
    items.scans [] rfl
  obtain ⟨hKept, -⟩ := hScans .eof ⟨by decide, by decide⟩
  rw [keptComments, ← hTokens]
  exact (congrArg (Stmt.allComments .program) hTrees.symm).trans hKept.symm

/-- A source with a comment in every role. -/
def commentedSource : String :=
  "// top\nimport ( // grouped\n\"fmt\" )\nvar a [ /* size */ ]int\nfunc f() \x7b try \x7b g() // inner\n"
    ++ "\x7d // between\ncatch \x7b \x7d // behind\n/* again */ h() \x7d\n// end"

theorem comments_kept_commentedSource :
    ∃ program, (parse commentedSource).result = .ok program ∧ (parse commentedSource).reports = []
      ∧ commentLiterals (program.walk []) =
        ["// top", "// inner", "// behind", "/* again */", "// end"]
      ∧ Parse.readFromBy (Parse.onlyClear Parse.abandon) (.ofLexer (.ofString commentedSource)) =
        ⟨.ok program, []⟩ := by
  obtain ⟨program, hResult, hReports, -⟩ :=
    Parse.Reading.exists_ok (parse commentedSource) (fun _ => true) (by decide +kernel)
  obtain ⟨hKept, hWalk, -, hClear⟩ := comments_kept hResult hReports
  refine ⟨program, hResult, hReports, ?_, ?_⟩
  · rw [hWalk, hKept]
    decide +kernel
  · rw [hClear, Parse.Reading.eq_of_parts hResult hReports]

end TryGo
