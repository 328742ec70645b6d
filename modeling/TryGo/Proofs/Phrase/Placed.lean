import TryGo.Proofs.Phrase.Layout
import TryGo.Proofs.Phrase.Unique

/-! Where the tokens of a phrase stand. If a text is that of a phrase and is divided into the tokens
of the phrase, each token stands where the tiles of the phrase put it. -/
namespace TryGo

/-- Whether a tile has blanks in front of its token and the characters of the token. -/
structure Tile.Laid (tile : Tile) : Prop where
  blank : ∀ c ∈ tile.gap, isBlank c = true
  spells : tile.span = tile.token.source

theorem Token.laid_tile {gap : List Char} (hGap : ∀ c ∈ gap, isBlank c = true) (token : Token) :
    (token.tile gap).Laid := ⟨hGap, rfl⟩

theorem Token.laid_behind (token : Token) : (token.tile []).Laid :=
  token.laid_tile (List.forall_mem_nil _)

theorem isBlank_blank : ∀ c ∈ [' '], isBlank c = true := by simp [isBlank]

mutual

/-- The tiles of a phrase have the characters of its tokens. -/
theorem ExprPhrase.laid_tiles {gap : List Char} (hGap : ∀ c ∈ gap, isBlank c = true) :
    (phrase : ExprPhrase) → ∀ tile ∈ phrase.tiles gap, tile.Laid
  | .atom token _ _ => List.forall_mem_singleton.mpr (token.laid_tile hGap)
  | .group opening inner closing =>
      List.forall_mem_cons.mpr ⟨opening.val.laid_tile hGap, List.forall_mem_append.mpr
        ⟨inner.laid_tiles (List.forall_mem_nil _),
          List.forall_mem_singleton.mpr closing.val.laid_behind⟩⟩
  | .unary op _ operand =>
      List.forall_mem_cons.mpr ⟨op.laid_tile hGap, operand.laid_tiles (List.forall_mem_nil _)⟩
  | .binary left op _ right =>
      List.forall_mem_append.mpr ⟨left.laid_tiles hGap, List.forall_mem_cons.mpr
        ⟨op.laid_tile isBlank_blank, right.laid_tiles isBlank_blank⟩⟩
  | .callEmpty callee opening closing =>
      List.forall_mem_append.mpr ⟨callee.laid_tiles hGap, List.forall_mem_cons.mpr
        ⟨opening.val.laid_behind, List.forall_mem_singleton.mpr closing.val.laid_behind⟩⟩
  | .call callee opening args closing =>
      List.forall_mem_append.mpr ⟨callee.laid_tiles hGap, List.forall_mem_cons.mpr
        ⟨opening.val.laid_behind, List.forall_mem_append.mpr
          ⟨args.laid_tiles (List.forall_mem_nil _),
            List.forall_mem_singleton.mpr closing.val.laid_behind⟩⟩⟩
  | .select left dot field =>
      List.forall_mem_append.mpr ⟨left.laid_tiles hGap, List.forall_mem_cons.mpr
        ⟨dot.val.laid_behind, List.forall_mem_singleton.mpr field.val.laid_behind⟩⟩
  | .index left opening position closing =>
      List.forall_mem_append.mpr ⟨left.laid_tiles hGap, List.forall_mem_cons.mpr
        ⟨opening.val.laid_behind, List.forall_mem_append.mpr
          ⟨position.laid_tiles (List.forall_mem_nil _),
            List.forall_mem_singleton.mpr closing.val.laid_behind⟩⟩⟩

theorem ExprsPhrase.laid_tiles {gap : List Char} (hGap : ∀ c ∈ gap, isBlank c = true) :
    (phrase : ExprsPhrase) → ∀ tile ∈ phrase.tiles gap, tile.Laid
  | .last e => e.laid_tiles hGap
  | .more e comma rest =>
      List.forall_mem_append.mpr ⟨e.laid_tiles hGap, List.forall_mem_cons.mpr
        ⟨comma.val.laid_behind, rest.laid_tiles isBlank_blank⟩⟩

end

/-- A token has the characters that it covers, but for a closing delimiter that is absent at the end
of the text. -/
theorem Token.Covers.source_eq {token : Token} {span rest : List Char}
    (hCovers : token.Covers span rest) :
    token.source = span ∨ rest = [] ∧ ∃ mark, token.source = span ++ [mark] := by
  rw [Token.Covers] at hCovers
  rw [Token.source]
  cases hDelimiter : token.kind.delimiter? with
  | none =>
      rw [hDelimiter] at hCovers
      exact .inl hCovers.symm
  | some mark =>
      rw [hDelimiter] at hCovers
      rcases hCovers with rfl | ⟨rfl, hEnd⟩
      · exact .inl rfl
      · exact .inr ⟨hEnd, mark, rfl⟩

namespace Lexer

variable {lexer : Lexer}

/-- The characters of a token that is read start with no blank. -/
theorem exists_source (hMore : lexer.skipBlanks.rest ≠ []) :
    ∃ c tail, lexer.next.1.source = c :: tail ∧ isBlank c = false := by
  obtain ⟨c, chars, hRest⟩ := List.exists_cons_of_ne_nil hMore
  obtain ⟨rest, hSplit, hCovers⟩ := Lexeme.heads_scan c chars
  have hToken : lexer.next.1 = (Lexeme.scan (c :: chars)).token lexer.skipBlanks.pos := by
    rw [next, take, hRest]
    rfl
  have hBlank : isBlank c = false := by
    have hNot := List.head?_dropWhile_not isBlank lexer.rest
    rw [← rest_skipBlanks, hRest] at hNot
    simpa using hNot
  obtain ⟨d, span, hSpan⟩ := List.exists_cons_of_ne_nil (Lexeme.span_scan_ne_nil c chars)
  rw [hSpan] at hSplit
  obtain rfl : c = d := (List.cons.inj hSplit).1
  rw [hToken]
  rcases (hCovers lexer.skipBlanks.pos).source_eq with hSource | ⟨-, mark, hSource⟩
  · exact ⟨c, span, hSource.trans hSpan, hBlank⟩
  · exact ⟨c, span ++ [mark], by rw [hSource, hSpan]; rfl, hBlank⟩

/-- The first tile of a text that is laid out is the one that is read. -/
theorem next_of_laid {tile : Tile} {text : List Char} (hMore : lexer.skipBlanks.rest ≠ [])
    (hToken : lexer.next.1 = tile.token) (hLaid : tile.Laid)
    (hRest : lexer.rest = tile.chars ++ text) :
    tile.token.pos.offset = lexer.pos.offset + tile.gap.length
      ∧ lexer.next.2.rest = text
      ∧ lexer.next.2.pos.offset = lexer.pos.offset + tile.chars.length := by
  obtain ⟨read, hRead, hText, hOffset, hFits⟩ := exists_tile hMore
  obtain ⟨c, tail, hSource, hBlank⟩ := exists_source hMore
  rw [hToken] at hRead hSource
  obtain ⟨d, span, hSpan⟩ := List.exists_cons_of_ne_nil hFits.inhabited
  have hCovers := hFits.covers.source_eq
  rw [hRead] at hCovers
  have hHead : d = c := by
    rcases hCovers with hSame | ⟨-, mark, hSame⟩ <;> rw [hSource, hSpan] at hSame <;>
      exact (List.cons.inj hSame).1.symm
  subst hHead
  have hTexts : tile.gap ++ d :: (tail ++ text) = read.gap ++ d :: (span ++ lexer.next.2.rest) := by
    rw [Tile.chars, hLaid.spells, hSource] at hRest
    rw [Tile.chars, hSpan, hRest] at hText
    simpa using hText
  have hBlanks {gap : List Char} (hGap : ∀ c ∈ gap, isBlank c = true) :
      gap.countP (fun c => !isBlank c) = 0 :=
    List.countP_eq_zero.mpr fun c hMem => by simp [hGap c hMem]
  have hGap : tile.gap = read.gap := by
    refine eq_of_countP_eq ?_ ?_ ((hBlanks hLaid.blank).trans (hBlanks hFits.blank).symm) hTexts <;>
      simp [hBlank]
  have hBehind : tail ++ text = span ++ lexer.next.2.rest := by
    rw [hGap] at hTexts
    exact (List.cons.inj (List.append_cancel_left hTexts)).2
  -- A delimiter that is absent from the text would stand at its end.
  have hSame : tile.span = read.span ∧ text = lexer.next.2.rest := by
    rcases hCovers with hSame | ⟨hEnd, mark, hSame⟩
    · rw [hSource, hSpan] at hSame
      obtain rfl := (List.cons.inj hSame).2
      exact ⟨by rw [hLaid.spells, hSource, hSpan], List.append_cancel_left hBehind⟩
    · rw [hSource, hSpan] at hSame
      obtain rfl : tail = span ++ [mark] := (List.cons.inj hSame).2
      rw [hEnd, List.append_assoc] at hBehind
      cases List.append_cancel_left hBehind
  refine ⟨?_, hSame.2.symm, ?_⟩
  · rw [← hRead, hFits.offset, hGap]
  · rw [hOffset, Tile.chars, Tile.chars, hGap, hSame.1]

/-- The tokens of a text that is laid out stand where their tiles put them. -/
theorem offset_of_laid {tiles : List Tile} (hWords : lexer.words = tiles.map Tile.token)
    (hLaid : ∀ tile ∈ tiles, tile.Laid) (hRest : lexer.rest = tiles.flatMap Tile.chars) :
    ∀ front tile back, tiles = front ++ tile :: back → tile.token.pos.offset =
      lexer.pos.offset + (front.flatMap Tile.chars).length + tile.gap.length := by
  fun_induction words lexer generalizing tiles with
  | case1 lexer hEnd =>
      intro front tile back hSplit
      rw [List.map_eq_nil_iff.mp hWords.symm] at hSplit
      exact absurd hSplit.symm (List.append_ne_nil_of_right_ne_nil front (List.cons_ne_nil _ _))
  | case2 lexer hMore ih =>
      obtain ⟨first, rest, rfl, hToken, hNext⟩ := List.map_eq_cons_iff.mp hWords.symm
      obtain ⟨hFirst, hOthers⟩ := List.forall_mem_cons.mp hLaid
      obtain ⟨hPlace, hText, hOffset⟩ := next_of_laid hMore hToken.symm hFirst hRest
      intro front tile back hSplit
      cases front with
      | nil =>
          obtain ⟨rfl, rfl⟩ := List.cons.inj hSplit
          exact hPlace
      | cons other front =>
          obtain ⟨rfl, hRest⟩ := List.cons.inj hSplit
          rw [ih hNext.symm hOthers hText front tile back hRest, hOffset, List.flatMap_cons,
            List.length_append, Nat.add_assoc, Nat.add_assoc, Nat.add_assoc, Nat.add_assoc]

end Lexer

/-- If the tokens of a phrase are those of its text, they stand where its tiles put them. -/
theorem ExprPhrase.offset_of_tiles {phrase : ExprPhrase} {text : String}
    (hTokens : phrase.tokens = (Lexer.ofString text).words)
    (hSource : phrase.source = text.toList) {front back : List Tile} {tile : Tile}
    (hSplit : phrase.tiles [] = front ++ tile :: back) :
    tile.token.pos.offset = (front.flatMap Tile.chars).length + tile.gap.length := by
  have hWords : (Lexer.ofString text).words = (phrase.tiles []).map Tile.token := by
    rw [phrase.map_token_tiles, hTokens]
  have hRest : (Lexer.ofString text).rest = (phrase.tiles []).flatMap Tile.chars := by
    rw [phrase.flatMap_tiles, hSource]
    rfl
  have hLaid := phrase.laid_tiles (List.forall_mem_nil _)
  have hOffset := Lexer.offset_of_laid hWords hLaid hRest front tile back hSplit
  rw [hOffset]
  exact congrArg (· + tile.gap.length) (Nat.zero_add _)

end TryGo
