import TryGo.Proofs.Layout.Program
import TryGo.Proofs.Written.Text

/-! Which texts are read back as an expression. It takes a levelled phrase with the tokens of the
text that stands for the expression, and where these tokens stand does not matter. -/
namespace TryGo

mutual

/-- Erasing the tokens of an expression erases their positions as well. -/
theorem Expr.erase_unplaced : (e : Expr) → e.unplaced.erase = e.erase
  | .missing | .ident _ _ | .int _ _ | .float _ _ | .str _ _ _ | .char _ _ | .bool _ _ | .nil _
  | .foreign _ _ _ => rfl
  | .unary _ _ operand => by
      rw [Expr.unplaced, Expr.erase, Expr.erase, operand.erase_unplaced]
  | .binary _ left _ right => by
      rw [Expr.unplaced, Expr.erase, Expr.erase, left.erase_unplaced, right.erase_unplaced]
  | .call _ callee args => by
      rw [Expr.unplaced, Expr.erase, Expr.erase, callee.erase_unplaced, Expr.eraseAll_unplaced args]
  | .select _ left field => by
      rw [Expr.unplaced, Expr.erase, Expr.erase, left.erase_unplaced, field.erase_unplaced]
  | .index _ left position => by
      rw [Expr.unplaced, Expr.erase, Expr.erase, left.erase_unplaced, position.erase_unplaced]

theorem Expr.eraseAll_unplaced :
    (es : List Expr) → Expr.eraseAll (Expr.allUnplaced es) = Expr.eraseAll es
  | [] => rfl
  | e :: es => by
      rw [Expr.allUnplaced, Expr.eraseAll, Expr.eraseAll, e.erase_unplaced,
        Expr.eraseAll_unplaced es]

end

namespace Parse

/-- Whether a text is read as an expression, up to tokens: the whole text is read, and nothing is
reported. -/
def ReadsBack (text : String) (e : Expr) : Prop :=
  ∃ read s last, readExpr (State.init (Cursor.ofLexer (Lexer.ofString text))) = .ok read s
    ∧ s.cursor.rest = [last] ∧ s.reports = [] ∧ read.same e = true

section ReadsBack

variable {text : String} {e : Expr} {phrase : ExprPhrase}

/-- What is read back has a levelled phrase with all tokens of the text. -/
theorem ReadsBack.exists_phrase (hReads : ReadsBack text e) :
    ∃ phrase : ExprPhrase, phrase.tokens = (Lexer.ofString text).words
      ∧ phrase.Levelled TokenKind.level ∧ phrase.tree.erase = e.erase := by
  obtain ⟨read, s, last, hRun, hRest, hReports, hSame⟩ := hReads
  have hQuiet : ReadsExpr (State.init (Cursor.ofLexer (Lexer.ofString text))) _
      (Lexer.ofString text).words read s := readExpr_quiet hRun hReports
  obtain ⟨phrase, other, more, hTokens, rfl, rfl, hLevelled, -, -⟩ := hQuiet
  obtain rfl : more = [] := (List.cons.inj hRest).2
  rw [List.append_nil] at hTokens
  exact ⟨phrase, hTokens.symm, hLevelled, (Expr.same_iff _ _).mp hSame⟩

/-- A text whose tokens say what those of a levelled phrase say is read as the tree of the
phrase. -/
theorem readsBack_of_spellings (hLevelled : phrase.Levelled TokenKind.level)
    (hWords : (Lexer.ofString text).words.map Token.spelling =
      phrase.tokens.map Token.spelling)
    (hErased : phrase.tree.erase = e.erase) : ReadsBack text e := by
  generalize hInit : State.init (Cursor.ofLexer (Lexer.ofString text)) = start
  obtain ⟨end', hRead⟩ := readExpr_run start [] phrase hLevelled (by decide)
  rw [List.append_nil] at hRead
  have hMirror := mirrors_readExpr (start.on phrase.tokens)
  have hStart : (start.on phrase.tokens).unplaced = start.unplaced := by
    have hTokens : phrase.tokens.map Token.unplaced =
        (Lexer.ofString text).words.map Token.unplaced := by
      rw [map_unplaced_eq_map_spelling, map_unplaced_eq_map_spelling, hWords]
    subst hInit
    exact congrArg (fun rest => State.mk ⟨rest, Position.start⟩ [] []) hTokens
  rw [hStart, mirrors_readExpr start, hRead] at hMirror
  cases hRun : readExpr start with
  | error halt s =>
      rw [hRun] at hMirror
      cases hMirror
  | ok read s =>
      rw [hRun] at hMirror
      injection hMirror with hTree hState
      have hRest : s.cursor.rest.map Token.unplaced = [end'.unplaced] :=
        congrArg (fun s => s.cursor.rest) hState
      obtain ⟨last, hLast, -⟩ := List.map_eq_singleton_iff.mp hRest
      have hReports : s.reports.map (fun report => { report with pos := Position.start }) = [] := by
        subst hInit
        exact congrArg State.reports hState
      refine ⟨read, s, last, hInit ▸ hRun, hLast, List.map_eq_nil_iff.mp hReports, ?_⟩
      rw [Expr.same_iff, ← read.erase_unplaced, ← hErased, ← phrase.tree.erase_unplaced]
      exact congrArg Expr.erase hTree

end ReadsBack

end Parse

end TryGo
