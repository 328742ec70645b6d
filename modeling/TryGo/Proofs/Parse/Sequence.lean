import TryGo.Proofs.Parse.Program

/-! Parsing is compositional over semicolons. A semicolon ends a statement wherever the end of
the source would, and what one statement leaves behind it is placed before the next one is read.
So the phrases of two programs with a semicolon between them are the phrase of one program. -/
namespace TryGo

section Ending

/-! ### A semicolon ends what the end of the source ends -/

theorem SimplePhrase.fits_semicolon {phrase : SimplePhrase} (hFits : phrase.Fits .eof) :
    phrase.Fits .semicolon := by
  cases phrase with
  | define names op values =>
      exact ⟨hFits.1, hFits.2.1, hFits.2.2.1, by decide, by decide⟩
  | assign targets op hOp values => exact ⟨hFits.1, hFits.2.1, by decide, by decide⟩
  | incr target op hOp => exact hFits
  | expr value => exact ⟨hFits.1, by decide, by decide⟩

theorem IfPhrase.fits_semicolon : (chain : IfPhrase) → chain.Fits .eof → chain.Fits .semicolon
  | .plain _ _ _, hFits => ⟨hFits.1, hFits.2.1, by decide⟩
  | .elseIf _ _ _ _ chain, hFits => ⟨hFits.1, hFits.2.1, chain.fits_semicolon hFits.2.2⟩
  | .elseBlock _ _ _ _ _, hFits => hFits

/-- A statement that ends at the end of the source ends before a semicolon. -/
theorem StmtPhrase.fits_semicolon {stmt : StmtPhrase} (hFits : stmt.Fits .eof) :
    stmt.Fits .semicolon := by
  cases stmt with
  | package | importOne | importGroup | branch | comment => trivial
  | decl kind keyword name type init =>
      cases init with
      | some init => exact ⟨hFits.1, hFits.2.1, by decide⟩
      | none =>
          cases type with
          | some type =>
              have hCloses : TokenKind.semicolon.ClosesType := ⟨by decide, by decide, by decide⟩
              exact ⟨hFits.1, hFits.2.1, hFits.2.2.1.of_closesType hCloses, by decide⟩
          | none => exact ⟨hFits.1, by decide, by decide⟩
  | simple phrase => exact SimplePhrase.fits_semicolon hFits
  | ret keyword values =>
      cases values with
      | none => exact (by decide : TokenKind.semicolon ∈ TokenKind.bareReturnFollowers)
      | some values => exact ⟨hFits.1, by decide, by decide⟩
  | throw keyword value => exact ⟨hFits.1, by decide⟩
  | ifElse chain => exact chain.fits_semicolon hFits
  | block | func | loop | tryFinally => exact hFits
  | tryCatch keyword body catches comments =>
      exact ⟨hFits.1, hFits.2.1, by decide, by decide, by decide⟩

end Ending

namespace ItemsPhrase

/-! ### Two lists of statements in sequence -/

/-- The statements of one list and then those of another with a semicolon between them. The
semicolon belongs to the last statement if that has none yet. -/
def sequence : ItemsPhrase → Mark .semicolon → ItemsPhrase → ItemsPhrase
  | .nil, mark, later => .semicolon mark later
  | .semicolon lone rest, mark, later => .semicolon lone (rest.sequence mark later)
  | .cons stmt none .nil, mark, later => .cons stmt (some mark) later
  | .cons stmt own rest, mark, later => .cons stmt own (rest.sequence mark later)

theorem sequence_cons {stmt : StmtPhrase} {own : Option (Mark .semicolon)} {rest : ItemsPhrase}
    (hMore : ¬(own = none ∧ rest = .nil)) (mark : Mark .semicolon) (later : ItemsPhrase) :
    (ItemsPhrase.cons stmt own rest).sequence mark later =
      .cons stmt own (rest.sequence mark later) := by
  rw [sequence]
  exact fun hOwn hRest => hMore ⟨hOwn, hRest⟩

theorem tokens_sequence (mark : Mark .semicolon) (later items : ItemsPhrase) :
    (items.sequence mark later).tokens = items.tokens ++ mark.val :: later.tokens := by
  cases items with
  | nil => rfl
  | semicolon lone rest =>
      simp only [sequence, tokens, tokens_sequence mark later rest, List.cons_append]
  | cons stmt own rest =>
      by_cases hLast : own = none ∧ rest = .nil
      · obtain ⟨rfl, rfl⟩ := hLast
        simp [sequence, tokens]
      · rw [sequence_cons hLast]
        simp only [tokens, tokens_sequence mark later rest, List.append_assoc]

theorem trees_sequence (mark : Mark .semicolon) (later items : ItemsPhrase) :
    (items.sequence mark later).trees = items.trees ++ later.trees := by
  cases items with
  | nil => rfl
  | semicolon lone rest => exact trees_sequence mark later rest
  | cons stmt own rest =>
      by_cases hLast : own = none ∧ rest = .nil
      · obtain ⟨rfl, rfl⟩ := hLast
        simp [sequence, trees]
      · rw [sequence_cons hLast]
        simp only [trees, trees_sequence mark later rest, List.append_assoc, List.cons_append]

theorem tokens_ne_nil : {items : ItemsPhrase} → items ≠ .nil → items.tokens ≠ []
  | .nil, hItems => absurd rfl hItems
  | .semicolon _ _, _ => List.cons_ne_nil _ _
  | .cons stmt _ _, _ => List.append_ne_nil_of_left_ne_nil stmt.tokens_ne_nil _

/-- In front of more tokens the kind that comes first is the same, if there is a first one. -/
theorem kindBefore_append {tokens : List Token} (hTokens : tokens ≠ []) (after before : TokenKind)
    (more : List Token) : kindBefore after (tokens ++ more) = kindBefore before tokens := by
  cases tokens with
  | nil => exact absurd rfl hTokens
  | cons token rest => rfl

/-- What follows a statement of the first list is what followed it before, except that the
semicolon takes the place of the end of the source. -/
theorem fits_sequence {after : TokenKind} (mark : Mark .semicolon) {later : ItemsPhrase}
    (hLater : later.Fits after) :
    (items : ItemsPhrase) → items.Fits .eof → (items.sequence mark later).Fits after
  | .nil, _ => hLater
  | .semicolon lone rest, hFits => fits_sequence mark hLater rest hFits
  | .cons stmt (some own) rest, hFits => ⟨hFits.1, fits_sequence mark hLater rest hFits.2⟩
  | .cons stmt none rest, hFits => by
      by_cases hRest : rest = .nil
      · subst hRest
        exact ⟨StmtPhrase.fits_semicolon hFits.1, hLater⟩
      have hMore := fits_sequence mark hLater rest hFits.2.2
      have hNext := kindBefore_append (tokens_ne_nil hRest) after .eof (mark.val :: later.tokens)
      rw [← tokens_sequence] at hNext
      rw [sequence_cons fun hLast => hRest hLast.2, Fits, hNext]
      exact ⟨hFits.1, hFits.2.1, hMore⟩

end ItemsPhrase

namespace Parse

/-- A source without an end mark in it is read as one phrase if it is read without a report. -/
theorem exists_items_of_readFrom {cursor : Cursor} {program : Program}
    (hRead : readFrom cursor = ⟨.ok program, []⟩) (hEof : ∀ token ∈ cursor.rest, token.kind ≠ .eof) :
    ∃ items : ItemsPhrase, items.tokens = cursor.rest ∧ items.Fits .eof
      ∧ items.trees = program.statements := by
  obtain ⟨items, more, hTokens, hMore, hTrees, hFits⟩ :=
    readFrom_quiet (congrArg Reading.result hRead) (congrArg Reading.reports hRead)
  cases more with
  | nil => exact ⟨items, by rw [hTokens, List.append_nil], hFits, hTrees.symm⟩
  | cons token more => exact absurd hMore (hEof token (by rw [hTokens]; simp))

end Parse

open Parse in
/-- Parsing is compositional over semicolons. If two sequences of tokens are each read without a
report, then so is the first one, a semicolon and the second one, and the statements are those of
the first followed by those of the second, each with the tokens that it had. Comments behind a
last try of the first are statements of it and keep their place. Where the ends of the three
sources are marked makes no difference. -/
theorem readFrom_semicolon (first second : List Token) (semicolon : Token)
    (firstEnd secondEnd bothEnd : Position) (before later : Program)
    (hFirstEof : ∀ token ∈ first, token.kind ≠ .eof)
    (hSecondEof : ∀ token ∈ second, token.kind ≠ .eof)
    (hSemicolon : semicolon.kind = .semicolon)
    (hFirst : readFrom ⟨first, firstEnd⟩ = ⟨.ok before, []⟩)
    (hSecond : readFrom ⟨second, secondEnd⟩ = ⟨.ok later, []⟩) :
    ∃ program, readFrom ⟨first ++ semicolon :: second, bothEnd⟩ = ⟨.ok program, []⟩
      ∧ program.statements = before.statements ++ later.statements := by
  obtain ⟨items, rfl, hFits, hTrees⟩ := exists_items_of_readFrom hFirst hFirstEof
  obtain ⟨others, rfl, hOthers, hLater⟩ := exists_items_of_readFrom hSecond hSecondEof
  let mark : Mark .semicolon := ⟨semicolon, hSemicolon⟩
  have hRun := readFrom_run (items.sequence mark others)
    (ItemsPhrase.fits_sequence mark hOthers items hFits) bothEnd
  rw [ItemsPhrase.tokens_sequence, ItemsPhrase.trees_sequence, hTrees, hLater] at hRun
  exact ⟨_, hRun, rfl⟩

/-- A source that ends with comments behind a try, and one that would continue an operand. -/
def tryTokens : List Token :=
  (Lexer.ofString "x := a; try \x7b g() \x7d catch (e) \x7b h(e) \x7d // late").words

def minusTokens : List Token := (Lexer.ofString "-b; // early").words

theorem readFrom_semicolon_try :
    ∃ before later program : Program,
      (∀ token ∈ tryTokens, token.kind ≠ .eof) ∧ (∀ token ∈ minusTokens, token.kind ≠ .eof)
        ∧ Parse.readFrom ⟨tryTokens, .start⟩ = ⟨.ok before, []⟩
        ∧ Parse.readFrom ⟨minusTokens, .start⟩ = ⟨.ok later, []⟩
        ∧ before.statements.length = 3 ∧ later.statements.length = 2
        ∧ Parse.readFrom ⟨tryTokens ++ ⟨.semicolon, ";", .start⟩ :: minusTokens, .start⟩ =
          ⟨.ok program, []⟩
        ∧ program.statements = before.statements ++ later.statements := by
  obtain ⟨before, hBefore, hReports, hThree⟩ := Parse.Reading.exists_ok
    (Parse.readFrom ⟨tryTokens, .start⟩) (fun program => program.statements.length == 3)
    (by decide +kernel)
  obtain ⟨later, hLater, hReports', hTwo⟩ := Parse.Reading.exists_ok
    (Parse.readFrom ⟨minusTokens, .start⟩) (fun program => program.statements.length == 2)
    (by decide +kernel)
  have hBefore := Parse.Reading.eq_of_parts hBefore hReports
  have hLater := Parse.Reading.eq_of_parts hLater hReports'
  have hFirst : ∀ token ∈ tryTokens, token.kind ≠ .eof := by decide +kernel
  have hSecond : ∀ token ∈ minusTokens, token.kind ≠ .eof := by decide +kernel
  obtain ⟨program, hProgram, hStatements⟩ := readFrom_semicolon tryTokens minusTokens
    ⟨.semicolon, ";", .start⟩ .start .start .start before later hFirst hSecond rfl hBefore hLater
  exact ⟨before, later, program, hFirst, hSecond, hBefore, hLater, beq_iff_eq.mp hThree,
    beq_iff_eq.mp hTwo, hProgram, hStatements⟩

end TryGo
