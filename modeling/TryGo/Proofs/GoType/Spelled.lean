import TryGo.Proofs.Again.Type
import TryGo.Proofs.GoType.Zero
import TryGo.Proofs.Layout.Program
import TryGo.Proofs.Progress.Forward
import TryGo.Proofs.Token.EndMark

/-! What the text of a type says of the tokens it was read from. The text is put together from the
literals of these tokens, so it stands for them if every literal stands for its token. That fails
for the size of an array only, which may be any token: the literal of a quoted size lacks its
quotes, and that of a line comment the end of its line. The text then lacks the characters that end
these tokens, so it cannot be divided into them. -/
namespace TryGo

mutual

def GoType.sizes : GoType → List Token
  | .named _ | .qualified _ _ | .interface | .struct => []
  | .pointer elem | .variadic elem | .slice elem | .chan elem | .receiveChan elem => elem.sizes
  | .array size elem => size :: elem.sizes
  | .map key value => key.sizes ++ value.sizes
  | .func params | .tuple params => GoType.allSizes params
  | .funcTo params result => GoType.allSizes params ++ result.sizes

def GoType.allSizes : List GoType → List Token
  | [] => []
  | type :: types => type.sizes ++ GoType.allSizes types

end

mutual

/-- The sizes of a type are the tokens that stand as such among its leaves. -/
theorem TypePhrase.mem_sizes {size : Token} : (phrase : TypePhrase) →
    (size ∈ phrase.type.sizes ↔ Leaf.size size ∈ phrase.leaves)
  | .named _ | .qualified _ _ _ | .interface _ _ _ | .struct _ _ _ => by
      simp [TypePhrase.type, GoType.sizes, TypePhrase.leaves]
  | .pointer _ elem | .variadic _ elem | .slice _ _ elem | .array _ _ _ _ elem | .chan _ elem
  | .receiveChan _ _ elem => by
      simp [TypePhrase.type, GoType.sizes, TypePhrase.leaves, elem.mem_sizes]
  | .map _ _ key _ value => by
      simp [TypePhrase.type, GoType.sizes, TypePhrase.leaves, key.mem_sizes, value.mem_sizes]
  | .func _ params => by
      simp [TypePhrase.type, GoType.sizes, TypePhrase.leaves, params.mem_sizes]
  | .funcTo _ params result => by
      simp [TypePhrase.type, GoType.sizes, TypePhrase.leaves, params.mem_sizes, result.mem_sizes]
  | .funcToTuple _ params results => by
      simp [TypePhrase.type, GoType.sizes, TypePhrase.leaves, params.mem_sizes, results.mem_sizes]

theorem TuplePhrase.mem_sizes {size : Token} : (phrase : TuplePhrase) →
    (size ∈ GoType.allSizes phrase.types ↔ Leaf.size size ∈ phrase.leaves)
  | .empty _ _ => by simp [TuplePhrase.types, GoType.allSizes, TuplePhrase.leaves]
  | .full _ types _ => by simp [TuplePhrase.types, TuplePhrase.leaves, types.mem_sizes]

theorem TypesPhrase.mem_sizes {size : Token} : (phrase : TypesPhrase) →
    (size ∈ GoType.allSizes phrase.types ↔ Leaf.size size ∈ phrase.leaves)
  | .last type => by
      simp [TypesPhrase.types, GoType.allSizes, TypesPhrase.leaves, type.mem_sizes]
  | .more type _ rest => by
      simp [TypesPhrase.types, GoType.allSizes, TypesPhrase.leaves, type.mem_sizes, rest.mem_sizes]

end

/-! ### End marks in the text of a type -/

mutual

/-- A type shows its words and blanks between them. -/
theorem GoType.countP_text : (type : GoType) →
    type.text.toList.countP isEndMark = endMarks type.written
  | .named name => by simp [GoType.text, GoType.written]
  | .qualified package name => by
      simp [GoType.text, GoType.written, isEndMark, backtick]
  | .pointer elem | .variadic elem | .slice elem | .chan elem | .receiveChan elem
  | .array _ elem => by
      simp [GoType.text, GoType.written, isEndMark, backtick, elem.countP_text]
  | .map key value => by
      simp [GoType.text, GoType.written, isEndMark, backtick, key.countP_text,
        value.countP_text]
  | .interface | .struct => by decide
  | .func params | .tuple params => by
      simp [GoType.text, GoType.written, isEndMark, backtick, GoType.countP_texts params]
  | .funcTo params result => by
      simp [GoType.text, GoType.written, isEndMark, backtick, GoType.countP_texts params,
        result.countP_text]

/-- The texts of types have the end marks of their words. -/
theorem GoType.countP_texts : (types : List GoType) →
    (Text.commaSeparated (GoType.texts types)).toList.countP isEndMark =
      endMarks (GoType.writtenAll types)
  | [] => rfl
  | [type] => type.countP_text
  | type :: next :: types => by
      have hText : Text.commaSeparated (GoType.texts (type :: next :: types)) =
          type.text ++ ", " ++ Text.commaSeparated (GoType.texts (next :: types)) := by
        simp only [GoType.texts, Text.commaSeparated, Text.joinWith_cons_cons]
      rw [hText, GoType.writtenAll]
      simp [isEndMark, backtick, type.countP_text, GoType.countP_texts (next :: types)]

end

/-! ### Where the sizes of a type stand -/

/-- Whether the sizes among some leaves are no brackets, and none of them comes last. -/
structure SizesInside (leaves : List Leaf) : Prop where
  last : ∀ size, leaves.getLast? ≠ some (Leaf.size size)
  kind : ∀ size, Leaf.size size ∈ leaves → size.kind ≠ .rbracket

namespace SizesInside

variable {leaves more : List Leaf} {size : Token}

/-- Leaves in a row have their sizes inside brackets if each part has. -/
theorem append (hLeaves : SizesInside leaves) (hMore : SizesInside more) :
    SizesInside (leaves ++ more) := by
  refine ⟨fun size hLast => ?_, fun size hMem => ?_⟩
  · rw [List.getLast?_append, Option.or_eq_some_iff] at hLast
    rcases hLast with hLast | ⟨-, hLast⟩
    · exact hMore.last size hLast
    · exact hLeaves.last size hLast
  · rcases List.mem_append.mp hMem with hMem | hMem
    · exact hLeaves.kind size hMem
    · exact hMore.kind size hMem

/-- A size has a leaf behind it. -/
theorem exists_next (hLeaves : SizesInside leaves) (hMem : Leaf.size size ∈ leaves) :
    ∃ front next back, leaves = front ++ Leaf.size size :: next :: back := by
  obtain ⟨front, back, rfl⟩ := List.append_of_mem hMem
  cases back with
  | nil => exact absurd (by simp) (hLeaves.last size)
  | cons next back => exact ⟨front, next, back, rfl⟩

end SizesInside

/-- Leaves without a size have none outside of brackets. -/
theorem sizesInside_of_not_mem {leaves : List Leaf} (hNone : ∀ size, Leaf.size size ∉ leaves) :
    SizesInside leaves :=
  ⟨fun size hLast => hNone size (List.mem_of_getLast? hLast),
    fun size hMem => absurd hMem (hNone size)⟩

theorem sizesInside_words (tokens : List Token) : SizesInside (words tokens) :=
  sizesInside_of_not_mem fun _ => by simp [words]

theorem sizesInside_groupComments (tokens : List Token) :
    SizesInside (tokens.map Leaf.groupComment) :=
  sizesInside_of_not_mem fun _ => by simp

theorem sizesInside_word (token : Token) {leaves : List Leaf} (hLeaves : SizesInside leaves) :
    SizesInside (.word token :: leaves) := (sizesInside_words [token]).append hLeaves

/-- A size stands in front of the bracket that closes it. -/
theorem sizesInside_size {size closing : Token} (hSize : size.kind ≠ .rbracket) :
    SizesInside [.size size, .word closing] := by
  refine ⟨fun other hLast => ?_, fun other hMem => ?_⟩
  · simp at hLast
  · obtain rfl : other = size := by simpa using hMem
    exact hSize

mutual

/-- Every size of a type stands in the brackets of an array. -/
theorem TypePhrase.sizesInside : (phrase : TypePhrase) → SizesInside phrase.leaves
  | .named name => sizesInside_words [name.val]
  | .qualified package dot name => sizesInside_words [package.val, dot.val, name.val]
  | .interface keyword opening closing | .struct keyword opening closing =>
      sizesInside_words [keyword.val, opening.val, closing.val]
  | .pointer star elem => sizesInside_word star.val elem.sizesInside
  | .variadic dots elem => sizesInside_word dots.val elem.sizesInside
  | .slice opening closing elem =>
      sizesInside_word opening.val (sizesInside_word closing.val elem.sizesInside)
  | .array opening _ hSize _ elem =>
      sizesInside_word opening.val ((sizesInside_size hSize).append elem.sizesInside)
  | .map keyword opening key closing value =>
      sizesInside_word keyword.val (sizesInside_word opening.val
        (key.sizesInside.append (sizesInside_word closing.val value.sizesInside)))
  | .chan keyword elem => sizesInside_word keyword.val elem.sizesInside
  | .receiveChan arrow keyword elem =>
      sizesInside_word arrow.val (sizesInside_word keyword.val elem.sizesInside)
  | .func keyword params => sizesInside_word keyword.val params.sizesInside
  | .funcTo keyword params result =>
      sizesInside_word keyword.val (params.sizesInside.append result.sizesInside)
  | .funcToTuple keyword params results =>
      sizesInside_word keyword.val (params.sizesInside.append results.sizesInside)

theorem TuplePhrase.sizesInside : (phrase : TuplePhrase) → SizesInside phrase.leaves
  | .empty opening closing => sizesInside_words [opening.val, closing.val]
  | .full opening types closing =>
      sizesInside_word opening.val (types.sizesInside.append (sizesInside_words [closing.val]))

theorem TypesPhrase.sizesInside : (phrase : TypesPhrase) → SizesInside phrase.leaves
  | .last type => type.sizesInside
  | .more type comma rest =>
      type.sizesInside.append (sizesInside_word comma.val rest.sizesInside)

end

/-! ### What the sizes of a type stand for -/

/-- Whether the sizes among some leaves stand for themselves where they are printed. -/
def SizesBare (leaves : List Leaf) : Prop := ∀ size, Leaf.size size ∈ leaves → size.bare = size

@[simp] theorem sizesBare_word {token : Token} {leaves : List Leaf} :
    SizesBare (.word token :: leaves) ↔ SizesBare leaves := by
  simp [SizesBare]

@[simp] theorem sizesBare_append {leaves more : List Leaf} :
    SizesBare (leaves ++ more) ↔ SizesBare leaves ∧ SizesBare more := by
  simp only [SizesBare, List.mem_append, or_imp, forall_and]

/-- A token with others behind it stands for itself in front of a bracket, unless its literal leaves
out its end. -/
theorem Lexer.standsBare {lexer : Lexer} {front back : List Token} {size next : Token}
    (hWords : lexer.words = front ++ size :: next :: back) (hKind : size.kind ≠ .rbracket)
    (hWhole : size.kind.omitsEnd = false) : size.StandsBare ∧ size.bare = size := by
  obtain ⟨c, rest, lexeme, pos, hHead, hLexical, rfl, hClosed⟩ := lexer.exists_closed _ _ _ hWords
  have hRead (tail : List Char) :
      spellings ((lexeme.token pos).literal.toList ++ ']' :: tail) =
        (lexeme.token pos).spelling :: (.rbracket, "]") :: spellings tail := by
    simpa [Lexeme.token] using
      hLexical.spellings_bracket hHead (hClosed (List.cons_ne_nil next back)) hWhole pos tail
  refine ⟨⟨_, hKind, hRead⟩, ?_⟩
  rw [Token.bare, hRead []]
  exact if_neg hKind

/-- So do the sizes in a part of a source. -/
theorem SizesInside.stand {lexer : Lexer} {leaves : List Leaf} (hLeaves : SizesInside leaves)
    (hWords : leaves.map Leaf.token <:+: lexer.words)
    (hWhole : ∀ size, Leaf.size size ∈ leaves → size.kind.omitsEnd = false) :
    SizesStand leaves ∧ SizesBare leaves := by
  obtain ⟨before, after, hSplit⟩ := hWords
  have hSize {size : Token} (hMem : Leaf.size size ∈ leaves) :
      size.StandsBare ∧ size.bare = size := by
    obtain ⟨front, next, back, rfl⟩ := hLeaves.exists_next hMem
    have hAll : lexer.words = (before ++ front.map Leaf.token)
        ++ size :: next.token :: (back.map Leaf.token ++ after) := by
      rw [← hSplit]
      simp [Leaf.token]
    exact Lexer.standsBare hAll (hLeaves.kind size hMem) (hWhole size hMem)
  exact ⟨fun size hMem => (hSize hMem).1, fun size hMem => (hSize hMem).2⟩

/-- A leaf as it is read again once it is printed. -/
def Leaf.bare : Leaf → Leaf
  | .word token => .word token
  | .size token => .size token.bare
  | .groupComment token => .groupComment token

mutual

/-- Printing a type keeps everything but the kinds of its sizes. -/
theorem TypePhrase.leaves_printed : (phrase : TypePhrase) →
    phrase.printed.leaves = phrase.leaves.map Leaf.bare
  | .named _ | .qualified _ _ _ | .interface _ _ _ | .struct _ _ _ => rfl
  | .pointer _ elem | .variadic _ elem | .slice _ _ elem | .array _ _ _ _ elem | .chan _ elem
  | .receiveChan _ _ elem => by
      simp only [TypePhrase.printed, TypePhrase.leaves, List.map_cons, Leaf.bare,
        elem.leaves_printed]
  | .map _ _ key _ value => by
      simp only [TypePhrase.printed, TypePhrase.leaves, List.map_cons, List.map_append, Leaf.bare,
        key.leaves_printed, value.leaves_printed]
  | .func _ params => by
      simp only [TypePhrase.printed, TypePhrase.leaves, List.map_cons, Leaf.bare,
        params.leaves_printed]
  | .funcTo _ params result => by
      simp only [TypePhrase.printed, TypePhrase.leaves, List.map_cons, List.map_append, Leaf.bare,
        params.leaves_printed, result.leaves_printed]
  | .funcToTuple _ params results => by
      simp only [TypePhrase.printed, TypePhrase.leaves, List.map_cons, List.map_append, Leaf.bare,
        params.leaves_printed, results.leaves_printed]

theorem TuplePhrase.leaves_printed : (phrase : TuplePhrase) →
    phrase.printed.leaves = phrase.leaves.map Leaf.bare
  | .empty _ _ => rfl
  | .full _ types _ => by
      simp only [TuplePhrase.printed, TuplePhrase.leaves, List.map_cons, List.map_append,
        List.map_nil, Leaf.bare, types.leaves_printed]

theorem TypesPhrase.leaves_printed : (phrase : TypesPhrase) →
    phrase.printed.leaves = phrase.leaves.map Leaf.bare
  | .last type => type.leaves_printed
  | .more type _ rest => by
      simp only [TypesPhrase.printed, TypesPhrase.leaves, List.map_cons, List.map_append, Leaf.bare,
        type.leaves_printed, rest.leaves_printed]

end

/-- A type is printed with its sizes bare and all else as it stands. -/
theorem TypePhrase.tokens_printed (phrase : TypePhrase) :
    phrase.printed.tokens = phrase.leaves.map fun leaf => leaf.bare.token := by
  rw [← phrase.printed.map_token_leaves, phrase.leaves_printed, List.map_map]
  rfl

/-- Printing a type changes no literal. -/
theorem TypePhrase.endMarks_printed (phrase : TypePhrase) :
    endMarks (phrase.printed.tokens.map Token.spelling) =
      endMarks (phrase.tokens.map Token.spelling) := by
  have hLeaf (leaf : Leaf) : leaf.bare.token.literal = leaf.token.literal := by
    cases leaf with
    | size size => exact size.literal_bare
    | _ => rfl
  rw [phrase.tokens_printed, ← phrase.map_token_leaves]
  simp [endMarks, List.flatMap_map, Token.spelling, hLeaf]

/-- Sizes that stand for themselves are printed as they are. -/
theorem map_bare_leaves {leaves : List Leaf} (hBare : SizesBare leaves) :
    leaves.map Leaf.bare = leaves := by
  refine (List.map_congr_left fun leaf hMem => ?_).trans leaves.map_id
  cases leaf with
  | size size => exact congrArg Leaf.size (hBare size hMem)
  | _ => rfl

/-- A type whose sizes stand bare is printed as it stands. -/
theorem TypePhrase.tokens_printed_of_bare {phrase : TypePhrase}
    (hBare : SizesBare phrase.leaves) :
    phrase.printed.tokens = phrase.tokens := by
  rw [← phrase.printed.map_token_leaves, phrase.leaves_printed, map_bare_leaves hBare,
    phrase.map_token_leaves]

theorem TuplePhrase.tokens_printed_of_bare {phrase : TuplePhrase}
    (hBare : SizesBare phrase.leaves) :
    phrase.printed.tokens = phrase.tokens := by
  rw [← phrase.printed.map_token_leaves, phrase.leaves_printed, map_bare_leaves hBare,
    phrase.map_token_leaves]

/-! ### Types that are read back -/

/-- Whether the text of a type is divided into some tokens, and is read as a whole as a type with
the same text. -/
structure GoType.ReadsBack (type : GoType) (tokens : List Token) : Prop where
  spelled : (Lexer.ofString type.text).words.map Token.spelling = tokens.map Token.spelling
  again : ∃ other last, Parse.readType (typeStart type.text) =
      .ok other ((typeStart type.text).on [last]) ∧ other.text = type.text

/-- A text with the tokens of a phrase is read as a whole as the type of the phrase, but for
positions. -/
theorem readType_of_spellings {text : String} {phrase : TypePhrase} (hFits : phrase.Fits .eof)
    (hWords : (Lexer.ofString text).words.map Token.spelling =
      phrase.tokens.map Token.spelling) :
    ∃ other last, Parse.readType (typeStart text) = .ok other ((typeStart text).on [last])
      ∧ other.text = phrase.type.text := by
  obtain ⟨end', hRead⟩ := Parse.readType_run (typeStart text) [] phrase hFits
  rw [List.append_nil] at hRead
  have hMirror := Parse.mirrors_readType ((typeStart text).on phrase.tokens)
  have hStart : ((typeStart text).on phrase.tokens).unplaced = (typeStart text).unplaced := by
    have hTokens : phrase.tokens.map Token.unplaced =
        (Lexer.ofString text).words.map Token.unplaced := by
      rw [map_unplaced_eq_map_spelling, map_unplaced_eq_map_spelling, hWords]
    exact congrArg (fun rest => Parse.State.mk ⟨rest, Position.start⟩ [] []) hTokens
  rw [hStart, Parse.mirrors_readType (typeStart text), hRead] at hMirror
  cases hRun : Parse.readType (typeStart text) with
  | error halt s' =>
      rw [hRun] at hMirror
      cases hMirror
  | ok other s' =>
      rw [hRun] at hMirror
      injection hMirror with hOther hState
      have hReads : Parse.ReadsType (typeStart text) (typeStart text).cursor.rest other s' :=
        Parse.readType_ok hRun
      obtain ⟨-, last, more, -, rfl, -, -⟩ := hReads
      have hRest : (last :: more).map Token.unplaced = [end'.unplaced] :=
        congrArg (fun s => s.cursor.rest) hState
      obtain rfl : more = [] := List.map_eq_nil_iff.mp (List.cons.inj hRest).2
      refine ⟨other, last, rfl, ?_⟩
      rw [← other.text_unplaced, ← phrase.type.text_unplaced]
      exact congrArg GoType.text hOther

namespace TypePhrase

variable {phrase : TypePhrase}

/-- The text of a type is divided into the tokens it was read from only if no size leaves out its
end. The text has no more end marks than these tokens, and every size has a token behind it. -/
theorem omitsEnd_of_spelled (hLexed : AllLexed phrase.tokens)
    (hSpelled : spellings phrase.type.text.toList = phrase.tokens.map Token.spelling) :
    ∀ size, Leaf.size size ∈ phrase.leaves → size.kind.omitsEnd = false := by
  have hCount : phrase.type.text.toList.countP isEndMark =
      endMarks (spellings phrase.type.text.toList) := by
    calc phrase.type.text.toList.countP isEndMark
        = endMarks phrase.printed.type.written := by
          rw [← phrase.text_printed, GoType.countP_text]
      _ = endMarks (phrase.printed.tokens.map Token.spelling) := by
          rw [phrase.map_spelling_printed hLexed]
      _ = endMarks (phrase.tokens.map Token.spelling) := phrase.endMarks_printed
      _ = endMarks (spellings phrase.type.text.toList) := by rw [hSpelled]
  intro size hMem
  obtain ⟨front, next, back, hLeaves⟩ := phrase.sizesInside.exists_next hMem
  refine omitsEnd_of_countP hCount size.spelling ?_
  rw [hSpelled, ← phrase.map_token_leaves, hLeaves]
  simp [Leaf.token, List.dropLast_append_of_ne_nil]

/-- A type whose sizes keep their ends is read back. -/
theorem readsBack {lexer : Lexer} {next : TokenKind} (hLexed : AllLexed phrase.tokens)
    (hFits : phrase.Fits next) (hWords : phrase.tokens <:+: lexer.words)
    (hWhole : ∀ size, Leaf.size size ∈ phrase.leaves → size.kind.omitsEnd = false) :
    phrase.type.ReadsBack phrase.tokens := by
  obtain ⟨hStand, hBare⟩ :=
    phrase.sizesInside.stand (phrase.map_token_leaves ▸ hWords) hWhole
  have hEnds : ∀ c, ([] : List Char).head? = some c → isWordChar c = false := nofun
  have hText := phrase.spellings_text hLexed hStand hEnds
  rw [List.append_nil, spellings_nil, List.append_nil,
    TypePhrase.tokens_printed_of_bare hBare] at hText
  have hSpelled : (Lexer.ofString phrase.type.text).words.map Token.spelling =
      phrase.tokens.map Token.spelling := (map_spelling_words_eq _).trans hText
  have hEnd : phrase.Fits .eof := hFits.of_closesType ⟨by decide, by decide, by decide⟩
  exact ⟨hSpelled, readType_of_spellings hEnd hSpelled⟩

end TypePhrase

/-- The text of a type that is read stands for the tokens the type was read from, unless an array
has a quoted literal or a line comment for its size. The size is copied without its quotes, or
without the end of its line. Otherwise the text is divided into the same tokens, and they are read
as a type with the same text. -/
theorem readsBack_iff {source : String} {fuel : Nat} {s s' : Parse.State} {type : GoType}
    (hRest : s.cursor.rest <:+ (Lexer.ofString source).words)
    (hRun : Parse.goType fuel s = .ok type s') :
    ∃ front last more, s.cursor.rest = front ++ last :: more ∧ s' = s.on (last :: more)
      ∧ (type.ReadsBack (front ++ [last]) ↔
          ∀ size ∈ type.sizes, size.kind ∉ [.string, .rawString, .char, .comment]) := by
  obtain ⟨phrase, last, more, hTokens, hState, rfl, hFits⟩ :=
    (Parse.type_sound_aux fuel).1 s s.cursor.rest type s' hRun
  have hBuilt : Parse.Built (Parse.goType fuel) := inferInstance
  obtain ⟨front, hLast⟩ := hBuilt.exists_front hTokens (hState ▸ hRun)
  refine ⟨front, last, more, by simp [hTokens, hLast], hState, ?_⟩
  have hLexed : AllLexed phrase.tokens := fun token hMem =>
    (Lexer.ofString source).lexed token
      (hRest.subset (hTokens ▸ List.mem_append_left more hMem))
  have hWords : phrase.tokens <:+: (Lexer.ofString source).words := by
    refine List.IsInfix.trans ?_ hRest.isInfix
    rw [hTokens]
    exact (List.prefix_append phrase.tokens more).isInfix
  have hKinds : (∀ size, Leaf.size size ∈ phrase.leaves → size.kind.omitsEnd = false)
      ↔ ∀ size ∈ phrase.type.sizes, size.kind ∉ [.string, .rawString, .char, .comment] := by
    refine forall_congr' fun size => ?_
    rw [phrase.mem_sizes]
    refine imp_congr_right fun _ => ?_
    cases size.kind <;> decide
  rw [← hLast, ← hKinds]
  exact ⟨fun hBack => TypePhrase.omitsEnd_of_spelled hLexed
      ((map_spelling_words_eq _).symm.trans hBack.spelled),
    TypePhrase.readsBack hLexed hFits hWords⟩

/-- A type in which most forms occur, with more tokens behind it. -/
def nestedType : String :=
  "map [ pkg.K ][ 0x1F ] func(chan string, ...[]*T) ( <-chan [n]int, interface\x7b\x7d ) = v"

/-- A type with every form in another is read back. -/
theorem readsBack_iff_nestedType :
    ∃ type s' front last, Parse.goType 20 (typeStart nestedType) = .ok type s'
      ∧ type.text = "map[pkg.K][0x1F]func(chan string, ...[]*T) (<-chan [n]int, interface\x7b\x7d)"
      ∧ (typeStart nestedType).cursor.rest = front ++ last :: s'.cursor.rest.tail
      ∧ type.ReadsBack (front ++ [last]) := by
  obtain ⟨type, s', hRun, hRead⟩ := Parse.exists_run_of_test (Parse.goType 20)
    (typeStart nestedType)
    (fun type _ => type.text
        == "map[pkg.K][0x1F]func(chan string, ...[]*T) (<-chan [n]int, interface\x7b\x7d)"
      && type.sizes.map (fun size => size.kind) == [.int, .ident]) (by decide +kernel)
  obtain ⟨hText, hSizes⟩ := Bool.and_eq_true_iff.mp hRead
  have hKinds : ∀ size ∈ type.sizes,
      size.kind ∉ [.string, .rawString, .char, .comment] := by
    intro size hMem
    have hKind : size.kind ∈ [.int, .ident] :=
      beq_iff_eq.mp hSizes ▸ List.mem_map_of_mem hMem
    revert hKind
    cases size.kind <;> decide
  obtain ⟨front, last, more, hRest, rfl, hBack⟩ := readsBack_iff (List.suffix_refl _) hRun
  exact ⟨type, _, front, last, hRun, beq_iff_eq.mp hText, hRest, hBack.mpr hKinds⟩

/-- The size of an array loses its quotes. -/
theorem not_readsBack_charSize :
    ∃ type s', Parse.goType 9 (typeStart "['a']int") = .ok type s' ∧ s'.cursor.rest.length = 1
      ∧ type.text = "[a]int"
      ∧ ¬ type.ReadsBack (Lexer.ofString "['a']int").words := by
  obtain ⟨type, s', hRun, hRead⟩ := Parse.exists_run_of_test (Parse.goType 9)
    (typeStart "['a']int") (fun type s' => s'.cursor.rest.length == 1 && type.text == "[a]int")
    (by decide +kernel)
  obtain ⟨hWhole, hText⟩ := Bool.and_eq_true_iff.mp hRead
  have hText := beq_iff_eq.mp hText
  refine ⟨type, s', hRun, beq_iff_eq.mp hWhole, hText, fun hBack => ?_⟩
  have hSpelled := hBack.spelled
  rw [hText] at hSpelled
  revert hSpelled
  decide +kernel

end TryGo
