import Mathlib.Data.List.Induction
import TryGo.Proofs.Token.Tiling

/-! The position of a token says where in its source the token stands. Lexing counts lines and
columns as it goes; here they are what one would count afterwards, from the offset and the text
alone. -/
namespace TryGo

/-- The line of an offset: one more than the newlines in front of it. -/
def lineAt (chars : List Char) (offset : Nat) : Nat := 1 + (chars.take offset).count '\n'

/-- The column of an offset: one more than the characters between it and the last newline in
front of it, or the start of the text. -/
def columnAt (chars : List Char) (offset : Nat) : Nat :=
  1 + ((chars.take offset).reverse.takeWhile (· != '\n')).length

namespace Position

/-- Whether a position comes before another in the order of lines and columns. -/
def Before (a b : Position) : Prop := a.line < b.line ∨ a.line = b.line ∧ a.column < b.column

theorem Before.trans {a b c : Position} (hFirst : a.Before b) (hThen : b.Before c) :
    a.Before c := by
  unfold Before at hFirst hThen ⊢
  omega

theorem before_step (pos : Position) (c : Char) : pos.Before (pos.step c) := by
  unfold Before step
  split
  · exact .inl (Nat.lt_succ_self _)
  · exact .inr ⟨rfl, Nat.lt_succ_self _⟩

/-- Whatever is read leads to a later place. -/
theorem before_advance (chars : List Char) (hSome : chars ≠ []) (pos : Position) :
    pos.Before (pos.advance chars) := by
  induction chars generalizing pos with
  | nil => exact absurd rfl hSome
  | cons c rest ih =>
      rw [advance_cons]
      cases rest with
      | nil => exact pos.before_step c
      | cons d more => exact (pos.before_step c).trans (ih (List.cons_ne_nil d more) _)

theorem line_step (pos : Position) (c : Char) :
    (pos.step c).line = pos.line + [c].count '\n' := by
  unfold step
  split
  next hNewline =>
    rw [hNewline]
    rfl
  next hOther => simp [hOther]

theorem line_advance (chars : List Char) (pos : Position) :
    (pos.advance chars).line = pos.line + chars.count '\n' := by
  induction chars generalizing pos with
  | nil => rfl
  | cons c rest ih =>
      calc ((pos.step c).advance rest).line
        _ = pos.line + [c].count '\n' + rest.count '\n' := by rw [ih, line_step]
        _ = pos.line + (c :: rest).count '\n' := by
          rw [Nat.add_assoc, ← List.count_append, List.singleton_append]

/-- The column counts the characters behind the last newline. A newline that is read last starts
it anew, so the induction takes the characters off from behind. -/
theorem column_advance_start (chars : List Char) :
    (start.advance chars).column = 1 + (chars.reverse.takeWhile (· != '\n')).length := by
  induction chars using List.reverseRecOn with
  | nil => rfl
  | append_singleton chars c ih =>
      rw [advance_append, advance_cons, advance_nil, List.reverse_append, List.reverse_singleton,
        List.singleton_append]
      by_cases hNewline : c = '\n'
      · rw [hNewline]
        rfl
      · have hColumn : ((start.advance chars).step c).column =
            (start.advance chars).column + 1 := by
          rw [step, if_neg hNewline]
        rw [hColumn, ih, List.takeWhile_cons_of_pos (by simpa using hNewline), List.length_cons]
        rfl

end Position

namespace Lexer

/-- Whether one gets from a lexer to another by reading some characters. -/
def Reads (lexer : Lexer) (chars : List Char) (later : Lexer) : Prop :=
  lexer.rest = chars ++ later.rest ∧ later.pos = lexer.pos.advance chars

theorem Reads.trans {lexer middle later : Lexer} {front back : List Char}
    (hFirst : lexer.Reads front middle) (hThen : middle.Reads back later) :
    lexer.Reads (front ++ back) later := by
  constructor
  · rw [hFirst.1, hThen.1, List.append_assoc]
  · rw [hThen.2, hFirst.2, Position.advance_append]

theorem reads_drop (lexer : Lexer) (count : Nat) :
    lexer.Reads (lexer.rest.take count) (lexer.drop count) :=
  ⟨(List.take_append_drop count lexer.rest).symm, rfl⟩

/-- A step reads at least one character behind the place of its token. -/
theorem reads_next {lexer : Lexer} (hMore : lexer.skipBlanks.rest ≠ []) :
    lexer.next.1.pos = lexer.skipBlanks.pos
      ∧ ∃ chars, chars ≠ [] ∧ lexer.skipBlanks.Reads chars lexer.next.2 := by
  obtain ⟨c, rest, hRest⟩ := List.exists_cons_of_ne_nil hMore
  rw [next, take, hRest]
  refine ⟨rfl, _, ?_, reads_drop _ _⟩
  have hSpan := List.length_pos_iff.mpr (Lexeme.span_scan_ne_nil c rest)
  rw [hRest, ne_eq, List.take_eq_nil_iff]
  rintro (hNone | hNone)
  · omega
  · exact absurd hNone (List.cons_ne_nil c rest)

/-- Every token stands where some characters of the text have been read. -/
theorem exists_place (lexer : Lexer) :
    ∀ token ∈ lexer.tokens, ∃ front later, lexer.Reads front later ∧ token.pos = later.pos := by
  fun_induction words lexer with
  | case1 lexer hEnd =>
      intro token hMem
      rw [tokens_of_blank hEnd, List.mem_singleton] at hMem
      exact ⟨lexer.rest, lexer.exhausted, ⟨(List.append_nil _).symm, rfl⟩, congrArg Token.pos hMem⟩
  | case2 lexer hMore ih =>
      intro token hMem
      obtain ⟨hPos, chars, -, hNext⟩ := reads_next hMore
      have hSkip : lexer.Reads _ lexer.skipBlanks := reads_drop lexer _
      rw [tokens_of_more hMore, List.mem_cons] at hMem
      rcases hMem with rfl | hMem
      · exact ⟨_, lexer.skipBlanks, hSkip, hPos⟩
      · obtain ⟨front, later, hLater, hPlace⟩ := ih token hMem
        exact ⟨_, later, (hSkip.trans hNext).trans hLater, hPlace⟩

/-- Between a token and each later one some characters are read. -/
theorem pairwise_places (lexer : Lexer) :
    lexer.tokens.Pairwise fun a b => ∃ chars, chars ≠ [] ∧ b.pos = a.pos.advance chars := by
  fun_induction words lexer with
  | case1 lexer hEnd =>
      rw [tokens_of_blank hEnd]
      exact List.pairwise_singleton _ _
  | case2 lexer hMore ih =>
      rw [tokens_of_more hMore, List.pairwise_cons]
      refine ⟨fun token hMem => ?_, ih⟩
      obtain ⟨hPos, chars, hSome, hNext⟩ := reads_next hMore
      obtain ⟨front, later, hLater, hPlace⟩ := exists_place lexer.next.2 token hMem
      refine ⟨chars ++ front, List.append_ne_nil_of_left_ne_nil hSome front, ?_⟩
      rw [hPlace, hPos]
      exact (hNext.trans hLater).2

end Lexer

/-- Every token of a source, the end mark included, has the line and the column of its offset.
Along the tokens the offsets increase, and so do the places in the order of lines and
columns. -/
theorem tokenize_places (source : String) :
    (∀ token ∈ tokenize source,
      token.pos.offset ≤ source.toList.length
        ∧ token.pos.line = lineAt source.toList token.pos.offset
        ∧ token.pos.column = columnAt source.toList token.pos.offset)
      ∧ (tokenize source).Pairwise fun a b => a.pos.offset < b.pos.offset ∧ a.pos.Before b.pos := by
  constructor
  · intro token hMem
    obtain ⟨front, later, ⟨hRest, hPos⟩, hPlace⟩ := (Lexer.ofString source).exists_place token hMem
    have hSource : source.toList = front ++ later.rest := hRest
    have hStart : token.pos = Position.start.advance front := hPlace.trans hPos
    have hOffset : token.pos.offset = front.length := by
      rw [hStart, Position.offset_advance]
      exact Nat.zero_add _
    have hFront : source.toList.take token.pos.offset = front := by
      rw [hSource, hOffset, List.take_left]
    refine ⟨?_, ?_, ?_⟩
    · rw [hOffset, hSource, List.length_append]
      exact Nat.le_add_right _ _
    · rw [lineAt, hFront, hStart, Position.line_advance]
      rfl
    · rw [columnAt, hFront, hStart, Position.column_advance_start]
  · refine (Lexer.ofString source).pairwise_places.imp ?_
    rintro a b ⟨chars, hSome, hPos⟩
    have hLength := List.length_pos_iff.mpr hSome
    rw [hPos, Position.offset_advance]
    exact ⟨by omega, a.pos.before_advance chars hSome⟩

end TryGo
