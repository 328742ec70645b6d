import TryGo.Proofs.Token.Literal
import TryGo.Session

/-! Tokens tile their source. Each token covers a span that starts where the token stands, the
spans follow one another, and only blanks are left between them. The tokens are the same in
whatever portions they are taken, and the end mark is never used up. -/
namespace TryGo

/-- The delimiter that the literal of a token of some kind leaves out. -/
def TokenKind.delimiter? : TokenKind → Option Char
  | .string => some '"'
  | .char => some '\''
  | .rawString => some backtick
  | _ => none

/-- Whether a token covers a span in front of the rest of the text. The span is the literal, with
its delimiters if the kind has them. The closing one is absent only at the end of the text. -/
def Token.Covers (token : Token) (span rest : List Char) : Prop :=
  match token.kind.delimiter? with
  | none => span = token.literal.toList
  | some mark =>
      span = mark :: (token.literal.toList ++ [mark])
        ∨ span = mark :: token.literal.toList ∧ rest = []

/-! ### The span of one lexeme -/

namespace Lexeme

/-- Whether the span of a lexeme starts a text and is covered by its token. -/
def Heads (lexeme : Lexeme) (chars : List Char) : Prop :=
  ∃ rest, chars = lexeme.span ++ rest ∧ ∀ pos, (lexeme.token pos).Covers lexeme.span rest

section Spans

variable {kind : TokenKind} {mark : Char} {span chars content rest : List Char}

/-- A word that is spelled as it stands heads the text it was taken from. -/
theorem heads_plain (hKind : kind.delimiter? = none) (hSpan : span <+: chars) :
    (plain kind span).Heads chars := by
  obtain ⟨rest, rfl⟩ := hSpan
  refine ⟨rest, rfl, fun pos => ?_⟩
  simp only [Token.Covers, token, plain, hKind, String.toList_ofList]

/-- A delimited lexeme is closed, or nothing follows it. -/
theorem heads_delimited (hKind : kind.delimiter? = some mark)
    (hEnd : ∀ c, rest.head? = some c → c = mark) :
    (delimited kind mark content (content ++ rest)).Heads (mark :: (content ++ rest)) := by
  cases rest with
  | nil =>
      refine ⟨[], by simp [delimited], fun pos => ?_⟩
      simp [Token.Covers, token, delimited, hKind]
  | cons c rest =>
      obtain rfl := hEnd c rfl
      refine ⟨rest, by simp [delimited], fun pos => ?_⟩
      simp [Token.Covers, token, delimited, hKind]

/-- The content of a quoted literal starts the text behind its quote and stops at the next one. -/
theorem exists_quotedContent (quote : Char) (chars : List Char) :
    ∃ rest, chars = quotedContent quote chars ++ rest
      ∧ ∀ c, rest.head? = some c → c = quote := by
  fun_induction quotedContent quote chars with
  | case1 => exact ⟨[], rfl, nofun⟩
  | case2 chars =>
      refine ⟨quote :: chars, rfl, fun c hHead => ?_⟩
      exact (Option.some.inj hHead).symm
  | case3 => exact ⟨[], rfl, nofun⟩
  | case4 d chars _ ih =>
      obtain ⟨rest, hChars, hEnd⟩ := ih
      exact ⟨rest, by rw [List.cons_append, List.cons_append, ← hChars], hEnd⟩
  | case5 c chars _ _ ih =>
      obtain ⟨rest, hChars, hEnd⟩ := ih
      exact ⟨rest, by rw [List.cons_append, ← hChars], hEnd⟩

/-- A literal in quotes heads the text with its marks. -/
theorem heads_quoted (hKind : kind.delimiter? = some mark) (chars : List Char) :
    (delimited kind mark (quotedContent mark chars) chars).Heads (mark :: chars) := by
  obtain ⟨rest, hChars, hEnd⟩ := exists_quotedContent mark chars
  have hHeads : (delimited kind mark (quotedContent mark chars)
      (quotedContent mark chars ++ rest)).Heads (mark :: (quotedContent mark chars ++ rest)) :=
    heads_delimited hKind hEnd
  rwa [← hChars] at hHeads

theorem heads_raw (chars : List Char) :
    (delimited .rawString backtick (chars.takeWhile (· != backtick)) chars).Heads
      (backtick :: chars) := by
  have hEnd : ∀ c, (chars.dropWhile (· != backtick)).head? = some c → c = backtick := by
    intro c hHead
    have hStop := List.head?_dropWhile_not (· != backtick) chars
    rw [hHead] at hStop
    simpa using hStop
  have hChars : chars.takeWhile (· != backtick) ++ chars.dropWhile (· != backtick) = chars :=
    List.takeWhile_append_dropWhile
  have hHeads : (delimited .rawString backtick (chars.takeWhile (· != backtick))
      (chars.takeWhile (· != backtick) ++ chars.dropWhile (· != backtick))).Heads
        (backtick :: (chars.takeWhile (· != backtick) ++ chars.dropWhile (· != backtick))) :=
    heads_delimited rfl hEnd
  rwa [hChars] at hHeads

/-- Two pieces that follow one another at the start of a text start it together. -/
theorem append_isPrefix (hFront : span <+: chars) (hNext : rest <+: chars.drop span.length) :
    span ++ rest <+: chars := by
  obtain ⟨tail, rfl⟩ := hFront
  rw [List.drop_left] at hNext
  exact List.prefix_append_right_inj span |>.mpr hNext

/-- A fraction is taken from the front. -/
theorem fraction_isPrefix (chars : List Char) : fraction chars <+: chars := by
  unfold fraction
  split
  · split
    · exact (List.prefix_cons_inj _).mpr <| List.takeWhile_prefix _
    · exact List.nil_prefix
  · exact List.nil_prefix

theorem exponentDigits_isPrefix (chars : List Char) : exponentDigits chars <+: chars := by
  unfold exponentDigits
  split
  · exact List.nil_prefix
  · split
    · exact (List.prefix_cons_inj _).mpr <| List.takeWhile_prefix _
    · exact List.takeWhile_prefix _

/-- An exponent is taken from the front. -/
theorem exponent_isPrefix (chars : List Char) : exponent chars <+: chars := by
  unfold exponent
  split
  · exact List.nil_prefix
  · split
    · exact (List.prefix_cons_inj _).mpr (exponentDigits_isPrefix _)
    · exact List.nil_prefix

/-- A decimal number is taken from the front. -/
theorem span_decimal_isPrefix (chars : List Char) : (decimal chars).span <+: chars := by
  refine append_isPrefix (append_isPrefix ?_ (fraction_isPrefix _)) ?_
  · exact List.takeWhile_prefix _
  rw [List.length_append]
  exact exponent_isPrefix _

/-- A number heads the text it was taken from. -/
theorem heads_number (chars : List Char) : (number chars).Heads chars := by
  have hDecimal : ∀ chars, (decimal chars).Heads chars := by
    intro chars
    refine heads_plain ?_ (span_decimal_isPrefix chars)
    split <;> rfl
  unfold number
  split
  · split
    · refine heads_plain rfl ((List.prefix_cons_inj _).mpr ((List.prefix_cons_inj _).mpr ?_))
      exact List.takeWhile_prefix _
    · exact hDecimal _
  · exact hDecimal _

theorem heads_word (chars : List Char) : (word chars).Heads chars := by
  refine heads_plain ?_ <| List.takeWhile_prefix _
  have hTable : ∀ entry ∈ TokenKind.keywords, entry.2.delimiter? = none := by decide
  rw [TokenKind.ofWord]
  cases hFound : TokenKind.keywords.lookup (String.ofList (chars.takeWhile isWordChar)) with
  | none => rfl
  | some kind =>
      obtain ⟨before, after, hSplit, -⟩ := List.lookup_eq_some_iff.mp hFound
      have hMem : (String.ofList (chars.takeWhile isWordChar), kind) ∈ TokenKind.keywords := by
        rw [hSplit]
        exact List.mem_append_right before List.mem_cons_self
      exact hTable _ hMem

theorem heads_operator (chars : List Char) : (operator chars).Heads chars := by
  have hTable : ∀ entry ∈ TokenKind.operators, entry.2.delimiter? = none := by decide
  unfold operator
  split
  next span kind hFound =>
    have hStarts := List.find?_some hFound
    refine heads_plain (hTable _ (List.mem_of_find?_eq_some hFound)) ?_
    exact List.isPrefixOf_iff_prefix.mp hStarts
  next => exact heads_plain rfl (List.take_prefix 1 chars)

/-- A group comment is taken from the front. -/
theorem blockCommentTail_isPrefix (chars : List Char) : blockCommentTail chars <+: chars := by
  fun_induction blockCommentTail chars with
  | case1 => exact List.nil_prefix
  | case2 rest => exact ⟨rest, rfl⟩
  | case3 c rest _ ih => exact (List.prefix_cons_inj c).mpr ih

/-- A division or a comment heads the text it was taken from. -/
theorem heads_slash (chars : List Char) : (slash chars).Heads ('/' :: chars) := by
  unfold slash
  split
  · refine heads_plain rfl ((List.prefix_cons_inj _).mpr ((List.prefix_cons_inj _).mpr ?_))
    exact List.takeWhile_prefix _
  · refine heads_plain rfl ((List.prefix_cons_inj _).mpr ((List.prefix_cons_inj _).mpr ?_))
    exact blockCommentTail_isPrefix _
  · exact heads_operator _

/-- The first lexeme of a text stands at its start and is covered by its token. -/
theorem heads_scan (c : Char) (chars : List Char) : (scan (c :: chars)).Heads (c :: chars) := by
  rw [scan]
  split
  · exact heads_word _
  split
  · exact heads_number _
  split
  next hQuote =>
    rw [hQuote]
    exact heads_quoted rfl chars
  split
  next hQuote =>
    rw [hQuote]
    exact heads_quoted rfl chars
  split
  next hQuote =>
    rw [hQuote]
    exact heads_raw chars
  split
  next hSlash =>
    rw [hSlash]
    exact heads_slash chars
  · exact heads_operator _

end Spans

end Lexeme

/-! ### The spans of all tokens -/

/-- A token with the span that it covers and the blanks in front of it. -/
structure Tile where
  gap : List Char
  span : List Char
  token : Token

def Tile.chars (tile : Tile) : List Char := tile.gap ++ tile.span

/-- Whether a tile may stand at an offset in front of the rest of a text. -/
structure Tile.Fits (tile : Tile) (start : Nat) (rest : List Char) : Prop where
  blank : ∀ c ∈ tile.gap, isBlank c = true
  inhabited : tile.span ≠ []
  offset : tile.token.pos.offset = start + tile.gap.length
  covers : tile.token.Covers tile.span rest
  inside : tile.token.kind ≠ .eof

/-- Whether tiles and the blanks behind them make up a text that starts at an offset. -/
structure Tiles (tiles : List Tile) (tail : List Char) (start : Nat) (chars : List Char) :
    Prop where
  whole : chars = tiles.flatMap Tile.chars ++ tail
  blank : ∀ c ∈ tail, isBlank c = true
  fits : ∀ before tile after, tiles = before ++ tile :: after →
    tile.Fits (start + (before.flatMap Tile.chars).length) (after.flatMap Tile.chars ++ tail)

/-- A tile in front of tiles makes tiles of the longer text. -/
theorem Tiles.cons {tile : Tile} {tiles : List Tile} {tail chars : List Char} {start : Nat}
    (hFits : tile.Fits start chars) (hTiles : Tiles tiles tail (start + tile.chars.length) chars) :
    Tiles (tile :: tiles) tail start (tile.chars ++ chars) := by
  refine ⟨?_, hTiles.blank, ?_⟩
  · rw [List.flatMap_cons, List.append_assoc, ← hTiles.whole]
  · rintro before other after hSplit
    cases before with
    | nil =>
        obtain ⟨rfl, rfl⟩ := List.cons.inj hSplit
        rw [← hTiles.whole]
        exact hFits
    | cons first before =>
        obtain ⟨rfl, hRest⟩ := List.cons.inj hSplit
        rw [List.flatMap_cons, List.length_append, ← Nat.add_assoc]
        exact hTiles.fits before other after hRest

namespace Lexer

theorem endPos_drop (lexer : Lexer) (count : Nat) : (lexer.drop count).endPos = lexer.endPos := by
  rw [endPos, drop, ← Position.advance_append, List.take_append_drop]
  rfl

/-- At the end of the text the answer is the end mark, and the lexer comes to rest there. -/
theorem next_of_blank {lexer : Lexer} (hEnd : lexer.skipBlanks.rest = []) :
    lexer.next = (Token.eof lexer.endPos, lexer.exhausted) := by
  have hRest : lexer.skipBlanks = lexer.exhausted := by
    have hPos : lexer.skipBlanks.pos = lexer.endPos := by
      rw [← endPos_drop lexer (lexer.rest.takeWhile isBlank).length, endPos]
      exact congrArg lexer.skipBlanks.pos.advance hEnd.symm
    rw [exhausted, ← hPos, ← hEnd]
  rw [next, take, hEnd, hRest]
  rfl

/-- A lexer that took some characters stands behind them. -/
theorem offset_drop {lexer : Lexer} {front rest : List Char} (hRest : lexer.rest = front ++ rest) :
    lexer.drop front.length = ⟨rest, lexer.pos.advance front⟩ := by
  rw [drop, hRest, List.drop_left, List.take_left]

/-- One step over a token takes up a tile of the text. -/
theorem exists_tile {lexer : Lexer} (hMore : lexer.skipBlanks.rest ≠ []) :
    ∃ tile : Tile, tile.token = lexer.next.1 ∧ lexer.rest = tile.chars ++ lexer.next.2.rest
      ∧ lexer.next.2.pos.offset = lexer.pos.offset + tile.chars.length
      ∧ tile.Fits lexer.pos.offset lexer.next.2.rest := by
  obtain ⟨c, chars, hRest⟩ := List.exists_cons_of_ne_nil hMore
  obtain ⟨rest, hSplit, hCovers⟩ := Lexeme.heads_scan c chars
  have hLexed := Lexeme.lexed_scan lexer.skipBlanks.pos c chars
  have hGap : lexer.rest = lexer.rest.takeWhile isBlank ++ (c :: chars) := by
    rw [← hRest, rest_skipBlanks, List.takeWhile_append_dropWhile]
  have hPos : lexer.skipBlanks.pos.offset =
      lexer.pos.offset + (lexer.rest.takeWhile isBlank).length := by
    rw [skipBlanks, offset_drop hGap, Position.offset_advance]
  have hNext : lexer.next = ((Lexeme.scan (c :: chars)).token lexer.skipBlanks.pos,
      ⟨rest, lexer.skipBlanks.pos.advance (Lexeme.scan (c :: chars)).span⟩) := by
    rw [next, take, hRest]
    exact congrArg (Prod.mk _) (offset_drop (hRest.trans hSplit))
  rw [hNext]
  refine ⟨⟨lexer.rest.takeWhile isBlank, (Lexeme.scan (c :: chars)).span, _⟩, rfl, ?_, ?_, ?_⟩
  · rw [Tile.chars, List.append_assoc, ← hSplit]
    exact hGap
  · rw [Position.offset_advance, hPos, Tile.chars, List.length_append, Nat.add_assoc]
  · exact ⟨fun _ => List.mem_takeWhile_imp, Lexeme.span_scan_ne_nil c chars, hPos, hCovers _,
      hLexed.inside⟩

/-- The tokens of a text are tiles of it. -/
theorem exists_tiles (lexer : Lexer) : ∃ tiles tail,
    lexer.words = tiles.map Tile.token ∧ Tiles tiles tail lexer.pos.offset lexer.rest := by
  fun_induction words lexer with
  | case1 lexer hEnd =>
      refine ⟨[], lexer.rest, rfl, rfl, ?_, fun before _ _ hSplit => ?_⟩
      · rw [rest_skipBlanks, List.dropWhile_eq_nil_iff] at hEnd
        exact hEnd
      · exact absurd hSplit.symm (List.append_ne_nil_of_right_ne_nil before (List.cons_ne_nil _ _))
  | case2 lexer hMore ih =>
      obtain ⟨tiles, tail, hWords, hTiles⟩ := ih
      obtain ⟨tile, hToken, hRest, hOffset, hFits⟩ := exists_tile hMore
      refine ⟨tile :: tiles, tail, by rw [List.map_cons, hToken, hWords], ?_⟩
      rw [hRest]
      rw [hOffset] at hTiles
      exact hTiles.cons hFits

/-! ### Taking tokens in portions -/

/-- The tokens are never all used up: the last of them, the end mark, is left for ever. -/
def leftAfter (count : Nat) (tokens : List Token) : List Token :=
  tokens.drop (min count (tokens.length - 1))

@[simp] theorem length_tokens (lexer : Lexer) : lexer.tokens.length = lexer.words.length + 1 := by
  rw [tokens, List.length_append, List.length_singleton]

/-- A lexer with nothing left gives the end mark. -/
theorem tokens_exhausted (lexer : Lexer) : lexer.exhausted.tokens = [Token.eof lexer.endPos] := by
  rw [tokens, words_of_blank _ rfl]
  rfl

/-- A step hands out the first token that is left. -/
theorem tokens_of_more {lexer : Lexer} (hMore : lexer.skipBlanks.rest ≠ []) :
    lexer.tokens = lexer.next.1 :: lexer.next.2.tokens := by
  have hEnd : lexer.next.2.endPos = lexer.endPos := by
    obtain ⟨c, rest, hRest⟩ := List.exists_cons_of_ne_nil hMore
    rw [next, take, hRest]
    exact (endPos_drop _ _).trans (endPos_drop lexer _)
  rw [tokens, words, dif_neg hMore, tokens, hEnd]
  rfl

/-- Blanks alone give the end mark. -/
theorem tokens_of_blank {lexer : Lexer} (hEnd : lexer.skipBlanks.rest = []) :
    lexer.tokens = [Token.eof lexer.endPos] := by
  rw [tokens, words, dif_pos hEnd]
  rfl

/-- One token that is taken is the first of all, and the rest is left. -/
theorem tokens_next (lexer : Lexer) :
    [lexer.next.1] = lexer.tokens.take 1 ∧ lexer.next.2.tokens = leftAfter 1 lexer.tokens := by
  by_cases hEnd : lexer.skipBlanks.rest = []
  · rw [next_of_blank hEnd, tokens_of_blank hEnd]
    exact ⟨rfl, tokens_exhausted lexer⟩
  · rw [tokens_of_more hEnd]
    refine ⟨rfl, ?_⟩
    simp [leftAfter]

/-- Words that are skipped are dropped from the front. -/
theorem tokens_skip : (count : Nat) → (lexer : Lexer) → count ≤ lexer.words.length →
    (lexer.skip count).tokens = lexer.tokens.drop count
  | 0, _, _ => rfl
  | count + 1, lexer, hCount => by
      have hMore : lexer.skipBlanks.rest ≠ [] := by
        intro hEnd
        rw [words, dif_pos hEnd] at hCount
        exact absurd hCount (Nat.not_succ_le_zero count)
      have hFewer : count ≤ lexer.next.2.words.length := by
        rw [words, dif_neg hMore, List.length_cons] at hCount
        exact Nat.le_of_succ_le_succ hCount
      rw [skip, tokens_skip count lexer.next.2 hFewer, tokens_of_more hMore, List.drop_succ_cons]

/-- However many tokens are taken, the rest is left and the end mark stays. -/
theorem tokens_afterTokens (lexer : Lexer) (count : Nat) :
    (Session.afterTokens lexer count).tokens = leftAfter count lexer.tokens := by
  rw [Session.afterTokens, leftAfter, length_tokens, Nat.add_sub_cancel]
  split
  next hMore =>
    rw [Nat.min_eq_right (Nat.le_of_lt hMore), tokens_exhausted, tokens, List.drop_left]
  next hFew =>
    have hCount : count ≤ lexer.words.length := Nat.le_of_not_lt hFew
    rw [Nat.min_eq_left hCount, tokens_skip count lexer hCount]

end Lexer

namespace Session

/-- The steps that take tokens: one, a number of them, or all. -/
inductive Pull where
  | next
  | take (count : Nat)
  | all

namespace Pull

def step : Pull → Step
  | .next => .next
  | .take count => .take count
  | .all => .all

/-- How many of the tokens that are left a step asks for. -/
def asked (left : List Token) : Pull → Nat
  | .next => 1
  | .take count => count
  | .all => left.length

end Pull

/-- The tokens that an answer hands out. -/
def Answer.handed : Answer → List Token
  | .token one => [one]
  | .tokens several => several
  | _ => []

/-- Portions of some tokens, each taken from the front of what the earlier ones left. -/
def portions (left : List Token) : List Pull → List (List Token)
  | [] => []
  | pull :: rest =>
      left.take (pull.asked left) :: portions (Lexer.leftAfter (pull.asked left) left) rest

/-- One step hands out a portion and leaves the rest. -/
theorem handed_step (session : Session) (pull : Pull) :
    (session.step pull.step).1.handed =
        session.lexer.tokens.take (pull.asked session.lexer.tokens)
      ∧ (session.step pull.step).2.lexer.tokens =
        Lexer.leftAfter (pull.asked session.lexer.tokens) session.lexer.tokens := by
  cases pull with
  | next => exact session.lexer.tokens_next
  | take count => exact ⟨rfl, session.lexer.tokens_afterTokens count⟩
  | all =>
      refine ⟨List.take_length.symm, ?_⟩
      change session.lexer.exhausted.tokens = _
      rw [Lexer.tokens_exhausted, Pull.asked, Lexer.leftAfter, Lexer.length_tokens,
        Nat.min_eq_right (Nat.sub_le _ _), Nat.add_sub_cancel, Lexer.tokens, List.drop_left]

/-- A run hands out the tokens in portions. -/
theorem handed_run (pulls : List Pull) : (session : Session) →
    (session.run (pulls.map Pull.step)).map (fun answer => answer.1.handed) =
      portions session.lexer.tokens pulls := by
  induction pulls with
  | nil => exact fun _ => rfl
  | cons pull rest ih =>
      intro session
      obtain ⟨hHanded, hLeft⟩ := handed_step session pull
      rw [List.map_cons, run, List.map_cons, ih, portions, hHanded, hLeft]

/-- Portions of a token list that ends in a mark are an initial part of it, continued by that
mark for as long as tokens are asked for. -/
theorem portions_isPrefix (last : Token) (pulls : List Pull) : (front : List Token) →
    ∃ count, (portions (front ++ [last]) pulls).flatten <+:
      front ++ [last] ++ List.replicate count last := by
  induction pulls with
  | nil => exact fun _ => ⟨0, List.nil_prefix⟩
  | cons pull rest ih =>
      intro front
      rw [portions, List.flatten_cons]
      generalize pull.asked (front ++ [last]) = asked
      by_cases hAsked : asked ≤ front.length
      · obtain ⟨count, hRest⟩ := ih (front.drop asked)
        refine ⟨count, ?_⟩
        have hLeft : Lexer.leftAfter asked (front ++ [last]) = front.drop asked ++ [last] := by
          simp [Lexer.leftAfter, hAsked, List.drop_append_of_le_length]
        rw [hLeft, List.take_append_of_le_length hAsked]
        have hFront : front ++ [last] ++ List.replicate count last =
            front.take asked ++ (front.drop asked ++ [last] ++ List.replicate count last) := by
          simp only [← List.append_assoc, List.take_append_drop]
        rw [hFront]
        exact (List.prefix_append_right_inj _).mpr hRest
      · obtain ⟨count, hRest⟩ := ih []
        refine ⟨count + 1, ?_⟩
        have hLeft : Lexer.leftAfter asked (front ++ [last]) = [] ++ [last] := by
          have hMin : min asked ((front ++ [last]).length - 1) = front.length := by
            rw [List.length_append, List.length_singleton]
            omega
          rw [Lexer.leftAfter, hMin, List.drop_left, List.nil_append]
        have hAll : (front ++ [last]).take asked = front ++ [last] := by
          rw [List.take_of_length_le]
          rw [List.length_append, List.length_singleton]
          omega
        rw [hLeft, hAll]
        exact (List.prefix_append_right_inj _).mpr hRest

end Session

/-- The tokens of a source tile it, up to the one end mark at its end. Whatever mix of steps takes
the tokens, each step gets the next portion of them, and after the end mark only the end
mark again. -/
theorem tokenize_tiles (source : String) :
    ∃ tiles tail endPos,
      tokenize source = tiles.map Tile.token ++ [Token.eof endPos]
        ∧ endPos.offset = source.toList.length
        ∧ Tiles tiles tail 0 source.toList
        ∧ ∀ pulls : List Session.Pull,
            ((Session.start source).run (pulls.map Session.Pull.step)).map
                (fun answer => answer.1.handed) = Session.portions (tokenize source) pulls
              ∧ ∃ count, (Session.portions (tokenize source) pulls).flatten <+:
                  tokenize source ++ List.replicate count (Token.eof endPos) := by
  obtain ⟨tiles, tail, hWords, hTiles⟩ := (Lexer.ofString source).exists_tiles
  refine ⟨tiles, tail, (Lexer.ofString source).endPos, ?_, ?_, hTiles, fun pulls => ⟨?_, ?_⟩⟩
  · rw [tokenize, Lexer.tokens, hWords]
  · rw [Lexer.endPos, Position.offset_advance]
    exact Nat.zero_add _
  · exact Session.handed_run pulls (Session.start source)
  · exact Session.portions_isPrefix _ pulls (Lexer.ofString source).words

end TryGo
