import TryGo.Proofs.Again.Expr

/-! Types as they are printed. Their texts have the tokens of their phrases, but for the sizes of
arrays: what is read there is what the bare literal of the size stands for. -/
namespace TryGo

/-- What the bare literal of a token is read as in front of a closing bracket. -/
def Token.bare (size : Token) : Token :=
  match spellings (size.literal.toList ++ [']']) with
  | (kind, _) :: _ => if kind = .rbracket then size else { size with kind := kind }
  | [] => size

/-- A bare size closes nothing. -/
theorem Token.bare_ne {size : Token} (hSize : size.kind ≠ .rbracket) :
    size.bare.kind ≠ .rbracket := by
  rw [Token.bare]
  split
  · split
    · exact hSize
    next hKind => exact hKind
  · exact hSize

/-- A bare size has the text of the size. -/
theorem Token.literal_bare (size : Token) : size.bare.literal = size.literal := by
  rw [Token.bare]
  split
  · split <;> rfl
  · rfl

/-- A size that stands bare is read as it is printed. -/
theorem Token.StandsBare.spellings_bare {size : Token} (hBare : size.StandsBare)
    (rest : List Char) :
    spellings (size.bare.literal.toList ++ ']' :: rest) =
      size.bare.spelling :: (.rbracket, "]") :: spellings rest := by
  obtain ⟨kind, hKind, hRead⟩ := hBare
  have hSpelling : size.bare.spelling = (kind, size.literal) := by
    rw [Token.spelling, Token.literal_bare, Token.bare, hRead []]
    simp only [if_neg hKind]
  rw [hSpelling, Token.literal_bare, hRead]

/-- Whether the sizes among some leaves stand bare. -/
def SizesStand (leaves : List Leaf) : Prop := ∀ size, Leaf.size size ∈ leaves → size.StandsBare

@[simp] theorem sizesStand_nil : SizesStand [] := fun _ hMem => absurd hMem List.not_mem_nil

@[simp] theorem sizesStand_word {token : Token} {leaves : List Leaf} :
    SizesStand (.word token :: leaves) ↔ SizesStand leaves := by
  simp [SizesStand]

@[simp] theorem sizesStand_size {size : Token} {leaves : List Leaf} :
    SizesStand (.size size :: leaves) ↔ size.StandsBare ∧ SizesStand leaves := by
  simp [SizesStand]

@[simp] theorem sizesStand_append {leaves more : List Leaf} :
    SizesStand (leaves ++ more) ↔ SizesStand leaves ∧ SizesStand more := by
  simp only [SizesStand, List.mem_append, or_imp, forall_and]

mutual

def TypePhrase.printed : TypePhrase → TypePhrase
  | .named name => .named name
  | .qualified package dot name => .qualified package dot name
  | .pointer star elem => .pointer star elem.printed
  | .variadic dots elem => .variadic dots elem.printed
  | .slice opening closing elem => .slice opening closing elem.printed
  | .array opening size hSize closing elem =>
      .array opening size.bare (Token.bare_ne hSize) closing elem.printed
  | .map keyword opening key closing value => .map keyword opening key.printed closing value.printed
  | .chan keyword elem => .chan keyword elem.printed
  | .receiveChan arrow keyword elem => .receiveChan arrow keyword elem.printed
  | .interface keyword opening closing => .interface keyword opening closing
  | .struct keyword opening closing => .struct keyword opening closing
  | .func keyword params => .func keyword params.printed
  | .funcTo keyword params result => .funcTo keyword params.printed result.printed
  | .funcToTuple keyword params results => .funcToTuple keyword params.printed results.printed

def TuplePhrase.printed : TuplePhrase → TuplePhrase
  | .empty opening closing => .empty opening closing
  | .full opening types closing => .full opening types.printed closing

def TypesPhrase.printed : TypesPhrase → TypesPhrase
  | .last type => .last type.printed
  | .more type comma rest => .more type.printed comma rest.printed

end

/-- A variadic type is printed as one. -/
theorem TypePhrase.isVariadic_printed (phrase : TypePhrase) :
    phrase.printed.isVariadic = phrase.isVariadic := by
  cases phrase <;> rfl

mutual

/-- Printing does not change the text. -/
theorem TypePhrase.text_printed : (phrase : TypePhrase) →
    phrase.printed.type.text = phrase.type.text
  | .named _ | .qualified _ _ _ | .interface _ _ _ | .struct _ _ _ => rfl
  | .pointer _ elem | .variadic _ elem | .slice _ _ elem | .chan _ elem
  | .receiveChan _ _ elem => by
      simp only [TypePhrase.printed, TypePhrase.type, GoType.text, elem.text_printed]
  | .array _ size _ _ elem => by
      simp only [TypePhrase.printed, TypePhrase.type, GoType.text, elem.text_printed,
        size.literal_bare]
  | .map _ _ key _ value => by
      simp only [TypePhrase.printed, TypePhrase.type, GoType.text, key.text_printed,
        value.text_printed]
  | .func _ params => by
      simp only [TypePhrase.printed, TypePhrase.type, GoType.text, params.texts_printed]
  | .funcTo _ params result => by
      simp only [TypePhrase.printed, TypePhrase.type, GoType.text, params.texts_printed,
        result.text_printed]
  | .funcToTuple _ params results => by
      simp only [TypePhrase.printed, TypePhrase.type, GoType.text, params.texts_printed,
        results.texts_printed]

theorem TuplePhrase.texts_printed : (phrase : TuplePhrase) →
    GoType.texts phrase.printed.types = GoType.texts phrase.types
  | .empty _ _ => rfl
  | .full _ types _ => types.texts_printed

theorem TypesPhrase.texts_printed : (phrase : TypesPhrase) →
    GoType.texts phrase.printed.types = GoType.texts phrase.types
  | .last type => by
      simp only [TypesPhrase.printed, TypesPhrase.types, GoType.texts, type.text_printed]
  | .more type _ rest => by
      simp only [TypesPhrase.printed, TypesPhrase.types, GoType.texts, type.text_printed,
        rest.texts_printed]

end

mutual

/-- A type ends where it does in its source. -/
theorem TypePhrase.fits_printed : (phrase : TypePhrase) → {next : TokenKind} →
    phrase.Fits next → phrase.printed.Fits next
  | .named _, _, hFits | .qualified _ _ _, _, hFits | .interface _ _ _, _, hFits
  | .struct _ _ _, _, hFits => hFits
  | .pointer _ elem, _, hFits | .variadic _ elem, _, hFits | .slice _ _ elem, _, hFits
  | .array _ _ _ _ elem, _, hFits | .chan _ elem, _, hFits | .receiveChan _ _ elem, _, hFits =>
      elem.fits_printed hFits
  | .map _ _ key _ value, _, hFits => ⟨key.fits_printed hFits.1, value.fits_printed hFits.2⟩
  | .func _ params, _, hFits => ⟨params.fits_printed hFits.1, hFits.2⟩
  | .funcTo _ params result, _, hFits =>
      ⟨params.fits_printed hFits.1, result.isVariadic_printed.trans hFits.2.1,
        result.fits_printed hFits.2.2⟩
  | .funcToTuple _ params results, _, hFits =>
      ⟨params.fits_printed hFits.1, results.fits_printed hFits.2⟩

theorem TuplePhrase.fits_printed : (phrase : TuplePhrase) → phrase.Fits → phrase.printed.Fits
  | .empty _ _, _ => trivial
  | .full _ types _, hFits => types.fits_printed hFits

theorem TypesPhrase.fits_printed : (phrase : TypesPhrase) → phrase.Fits → phrase.printed.Fits
  | .last type, hFits => type.fits_printed hFits
  | .more type _ rest, hFits => ⟨type.fits_printed hFits.1, rest.fits_printed hFits.2⟩

end

mutual

/-- The tokens of a printed type say what the type is written as. -/
theorem TypePhrase.map_spelling_printed : (phrase : TypePhrase) → AllLexed phrase.tokens →
    phrase.printed.tokens.map Token.spelling = phrase.printed.type.written
  | .named name, _ => congrArg (fun word => [word]) name.spelling_ident
  | .qualified package dot name, hLexed => by
      simp only [TypePhrase.tokens, allLexed_cons] at hLexed
      simp only [TypePhrase.printed, TypePhrase.tokens, TypePhrase.type, GoType.written,
        List.map_cons, List.map_nil, package.spelling_ident, name.spelling_ident,
        dot.spelling_eq hLexed.2.1 rfl]
  | .pointer star elem, hLexed => by
      simp only [TypePhrase.tokens, allLexed_cons] at hLexed
      simp only [TypePhrase.printed, TypePhrase.tokens, TypePhrase.type, GoType.written,
        List.map_cons, star.spelling_eq hLexed.1 rfl, elem.map_spelling_printed hLexed.2]
  | .variadic dots elem, hLexed => by
      simp only [TypePhrase.tokens, allLexed_cons] at hLexed
      simp only [TypePhrase.printed, TypePhrase.tokens, TypePhrase.type, GoType.written,
        List.map_cons, dots.spelling_eq hLexed.1 rfl, elem.map_spelling_printed hLexed.2]
  | .slice opening closing elem, hLexed => by
      simp only [TypePhrase.tokens, allLexed_cons] at hLexed
      simp only [TypePhrase.printed, TypePhrase.tokens, TypePhrase.type, GoType.written,
        List.map_cons, opening.spelling_eq hLexed.1 rfl, closing.spelling_eq hLexed.2.1 rfl,
        elem.map_spelling_printed hLexed.2.2]
  | .array opening size _ closing elem, hLexed => by
      simp only [TypePhrase.tokens, allLexed_cons] at hLexed
      simp only [TypePhrase.printed, TypePhrase.tokens, TypePhrase.type, GoType.written,
        List.map_cons, opening.spelling_eq hLexed.1 rfl, closing.spelling_eq hLexed.2.2.1 rfl,
        elem.map_spelling_printed hLexed.2.2.2]
      rfl
  | .map keyword opening key closing value, hLexed => by
      simp only [TypePhrase.tokens, allLexed_cons, allLexed_append] at hLexed
      simp only [TypePhrase.printed, TypePhrase.tokens, TypePhrase.type, GoType.written,
        List.map_cons, List.map_append, keyword.spelling_eq hLexed.1 rfl,
        opening.spelling_eq hLexed.2.1 rfl, closing.spelling_eq hLexed.2.2.2.1 rfl,
        key.map_spelling_printed hLexed.2.2.1, value.map_spelling_printed hLexed.2.2.2.2]
  | .chan keyword elem, hLexed => by
      simp only [TypePhrase.tokens, allLexed_cons] at hLexed
      simp only [TypePhrase.printed, TypePhrase.tokens, TypePhrase.type, GoType.written,
        List.map_cons, keyword.spelling_eq hLexed.1 rfl, elem.map_spelling_printed hLexed.2]
  | .receiveChan arrow keyword elem, hLexed => by
      simp only [TypePhrase.tokens, allLexed_cons] at hLexed
      simp only [TypePhrase.printed, TypePhrase.tokens, TypePhrase.type, GoType.written,
        List.map_cons, arrow.spelling_eq hLexed.1 rfl, keyword.spelling_eq hLexed.2.1 rfl,
        elem.map_spelling_printed hLexed.2.2]
  | .interface keyword opening closing, hLexed => by
      simp only [TypePhrase.tokens, allLexed_cons] at hLexed
      simp only [TypePhrase.printed, TypePhrase.tokens, TypePhrase.type, GoType.written,
        List.map_cons, List.map_nil, keyword.spelling_eq hLexed.1 rfl,
        opening.spelling_eq hLexed.2.1 rfl, closing.spelling_eq hLexed.2.2.1 rfl]
  | .struct keyword opening closing, hLexed => by
      simp only [TypePhrase.tokens, allLexed_cons] at hLexed
      simp only [TypePhrase.printed, TypePhrase.tokens, TypePhrase.type, GoType.written,
        List.map_cons, List.map_nil, keyword.spelling_eq hLexed.1 rfl,
        opening.spelling_eq hLexed.2.1 rfl, closing.spelling_eq hLexed.2.2.1 rfl]
  | .func keyword params, hLexed => by
      simp only [TypePhrase.tokens, allLexed_cons] at hLexed
      simp only [TypePhrase.printed, TypePhrase.tokens, TypePhrase.type, GoType.written,
        List.map_cons, keyword.spelling_eq hLexed.1 rfl, params.map_spelling_printed hLexed.2]
  | .funcTo keyword params result, hLexed => by
      simp only [TypePhrase.tokens, allLexed_cons, allLexed_append] at hLexed
      simp only [TypePhrase.printed, TypePhrase.tokens, TypePhrase.type, GoType.written,
        List.map_cons, List.map_append, keyword.spelling_eq hLexed.1 rfl,
        params.map_spelling_printed hLexed.2.1, result.map_spelling_printed hLexed.2.2]
      simp
  | .funcToTuple keyword params results, hLexed => by
      simp only [TypePhrase.tokens, allLexed_cons, allLexed_append] at hLexed
      simp only [TypePhrase.printed, TypePhrase.tokens, TypePhrase.type, GoType.written,
        List.map_cons, List.map_append, keyword.spelling_eq hLexed.1 rfl,
        params.map_spelling_printed hLexed.2.1, results.map_spelling_printed hLexed.2.2]
      simp

/-- A list of results is printed between brackets, with a comma between any two. -/
theorem TuplePhrase.map_spelling_printed : (phrase : TuplePhrase) → AllLexed phrase.tokens →
    phrase.printed.tokens.map Token.spelling =
      (.lparen, "(") :: (GoType.writtenAll phrase.printed.types ++ [(.rparen, ")")])
  | .empty opening closing, hLexed => by
      simp only [TuplePhrase.tokens, allLexed_cons] at hLexed
      simp only [TuplePhrase.printed, TuplePhrase.tokens, List.map_cons, List.map_nil,
        opening.spelling_eq hLexed.1 rfl, closing.spelling_eq hLexed.2.1 rfl]
      rfl
  | .full opening types closing, hLexed => by
      simp only [TuplePhrase.tokens, allLexed_cons, allLexed_append] at hLexed
      simp only [TuplePhrase.printed, TuplePhrase.tokens, List.map_cons, List.map_append,
        List.map_nil, opening.spelling_eq hLexed.1 rfl, closing.spelling_eq hLexed.2.2.1 rfl,
        types.map_spelling_printed hLexed.2.1]
      rfl

theorem TypesPhrase.map_spelling_printed : (phrase : TypesPhrase) → AllLexed phrase.tokens →
    phrase.printed.tokens.map Token.spelling = GoType.writtenAll phrase.printed.types
  | .last type, hLexed => type.map_spelling_printed hLexed
  | .more type comma rest, hLexed => by
      simp only [TypesPhrase.tokens, allLexed_cons, allLexed_append] at hLexed
      simp only [TypesPhrase.printed, TypesPhrase.tokens, TypesPhrase.types, List.map_append,
        List.map_cons, type.map_spelling_printed hLexed.1, comma.spelling_eq hLexed.2.1 rfl,
        rest.map_spelling_printed hLexed.2.2]
      cases rest <;> rfl

end

/-! ### The text of a printed type -/

/-- No type text starts with the mark of an assignment. -/
theorem TypePhrase.head_ne (phrase : TypePhrase) (hLexed : AllLexed phrase.tokens)
    (rest : List Char) : ∀ c, (phrase.type.text.toList ++ rest).head? = some c → c ∉ ['='] := by
  have hName (name : Mark .ident) (hLexed : name.val.Lexed) (more : List Char) (c : Char)
      (hHead : (name.val.literal.toList ++ more).head? = some c) : c ∉ ['='] := by
    obtain ⟨d, tail, hChars, hStart⟩ := exists_head_of_isName (isName_mark name hLexed)
    obtain rfl : d = c := by simpa [hChars] using hHead
    intro hMem
    obtain rfl := List.mem_singleton.mp hMem
    exact absurd hStart (by decide)
  intro c hHead
  cases phrase with
  | named name => exact hName name (hLexed name.val List.mem_cons_self) rest c hHead
  | qualified package dot name =>
      simp only [TypePhrase.type, GoType.text, String.toList_append, List.append_assoc] at hHead
      exact hName package (hLexed package.val List.mem_cons_self) _ c hHead
  | _ =>
      intro hMem
      obtain rfl := List.mem_singleton.mp hMem
      simp [TypePhrase.type, GoType.text] at hHead

mutual

/-- The text of a type is divided into the words of its printed phrase. -/
theorem TypePhrase.lexes_printed : (phrase : TypePhrase) → AllLexed phrase.tokens →
    SizesStand phrase.leaves → phrase.printed.type.Lexes
  | .named name, hLexed, _ =>
      GoType.lexes_named (isName_mark name (hLexed name.val List.mem_cons_self))
  | .qualified package dot name, hLexed, _ => by
      simp only [TypePhrase.tokens, allLexed_cons] at hLexed
      exact GoType.lexes_qualified (isName_mark package hLexed.1) (isName_mark name hLexed.2.2.1)
  | .pointer star elem, hLexed, hSizes => by
      simp only [TypePhrase.tokens, allLexed_cons] at hLexed
      simp only [TypePhrase.leaves, sizesStand_word] at hSizes
      refine GoType.lexes_pointer (fun rest => ?_) (elem.lexes_printed hLexed.2 hSizes)
      rw [elem.text_printed]
      exact elem.head_ne hLexed.2 rest
  | .variadic dots elem, hLexed, hSizes => by
      simp only [TypePhrase.tokens, allLexed_cons] at hLexed
      simp only [TypePhrase.leaves, sizesStand_word] at hSizes
      exact GoType.lexes_variadic (elem.lexes_printed hLexed.2 hSizes)
  | .slice opening closing elem, hLexed, hSizes => by
      simp only [TypePhrase.tokens, allLexed_cons] at hLexed
      simp only [TypePhrase.leaves, sizesStand_word] at hSizes
      exact GoType.lexes_slice (elem.lexes_printed hLexed.2.2 hSizes)
  | .array opening size hSize closing elem, hLexed, hSizes => by
      simp only [TypePhrase.tokens, allLexed_cons] at hLexed
      simp only [TypePhrase.leaves, sizesStand_word, sizesStand_size] at hSizes
      exact GoType.lexes_array hSizes.1.spellings_bare
        (elem.lexes_printed hLexed.2.2.2 hSizes.2)
  | .map keyword opening key closing value, hLexed, hSizes => by
      simp only [TypePhrase.tokens, allLexed_cons, allLexed_append] at hLexed
      simp only [TypePhrase.leaves, sizesStand_word, sizesStand_append] at hSizes
      exact GoType.lexes_map (key.lexes_printed hLexed.2.2.1 hSizes.1)
        (value.lexes_printed hLexed.2.2.2.2 hSizes.2)
  | .chan keyword elem, hLexed, hSizes => by
      simp only [TypePhrase.tokens, allLexed_cons] at hLexed
      simp only [TypePhrase.leaves, sizesStand_word] at hSizes
      exact GoType.lexes_chan (elem.lexes_printed hLexed.2 hSizes)
  | .receiveChan arrow keyword elem, hLexed, hSizes => by
      simp only [TypePhrase.tokens, allLexed_cons] at hLexed
      simp only [TypePhrase.leaves, sizesStand_word] at hSizes
      exact GoType.lexes_receiveChan (elem.lexes_printed hLexed.2.2 hSizes)
  | .interface _ _ _, _, _ => GoType.lexes_interface
  | .struct _ _ _, _, _ => GoType.lexes_struct
  | .func keyword params, hLexed, hSizes => by
      simp only [TypePhrase.tokens, allLexed_cons] at hLexed
      simp only [TypePhrase.leaves, sizesStand_word] at hSizes
      exact GoType.lexes_func (params.allLex_printed hLexed.2 hSizes)
  | .funcTo keyword params result, hLexed, hSizes => by
      simp only [TypePhrase.tokens, allLexed_cons, allLexed_append] at hLexed
      simp only [TypePhrase.leaves, sizesStand_word, sizesStand_append] at hSizes
      exact GoType.lexes_funcTo (params.allLex_printed hLexed.2.1 hSizes.1)
        (result.lexes_printed hLexed.2.2 hSizes.2)
  | .funcToTuple keyword params results, hLexed, hSizes => by
      simp only [TypePhrase.tokens, allLexed_cons, allLexed_append] at hLexed
      simp only [TypePhrase.leaves, sizesStand_word, sizesStand_append] at hSizes
      exact GoType.lexes_funcTo (params.allLex_printed hLexed.2.1 hSizes.1)
        (GoType.lexes_tuple (results.allLex_printed hLexed.2.2 hSizes.2))

theorem TuplePhrase.allLex_printed : (phrase : TuplePhrase) → AllLexed phrase.tokens →
    SizesStand phrase.leaves → GoType.AllLex phrase.printed.types
  | .empty _ _, _, _ => fun _ _ => rfl
  | .full opening types closing, hLexed, hSizes => by
      simp only [TuplePhrase.tokens, allLexed_cons, allLexed_append] at hLexed
      simp only [TuplePhrase.leaves, sizesStand_word, sizesStand_append] at hSizes
      exact types.allLex_printed hLexed.2.1 hSizes.1

theorem TypesPhrase.allLex_printed : (phrase : TypesPhrase) → AllLexed phrase.tokens →
    SizesStand phrase.leaves → GoType.AllLex phrase.printed.types
  | .last type, hLexed, hSizes => type.lexes_printed hLexed hSizes
  | .more type comma rest, hLexed, hSizes => by
      simp only [TypesPhrase.tokens, allLexed_cons, allLexed_append] at hLexed
      simp only [TypesPhrase.leaves, sizesStand_word, sizesStand_append] at hSizes
      have hType := type.lexes_printed hLexed.1 hSizes.1
      have hRest := rest.allLex_printed hLexed.2.2 hSizes.2
      cases rest <;> exact GoType.allLex_cons hType hRest

end

section Text

variable {rest : List Char}

/-- The text of a type is divided into the tokens of its printed phrase. -/
theorem TypePhrase.spellings_text (phrase : TypePhrase) (hLexed : AllLexed phrase.tokens)
    (hSizes : SizesStand phrase.leaves)
    (hRest : ∀ c, rest.head? = some c → isWordChar c = false) :
    spellings (phrase.type.text.toList ++ rest) =
      phrase.printed.tokens.map Token.spelling ++ spellings rest := by
  rw [phrase.map_spelling_printed hLexed, ← phrase.text_printed]
  exact phrase.lexes_printed hLexed hSizes rest hRest

/-- The text of a list of results spells its printed tokens. -/
theorem TuplePhrase.spellings_text (phrase : TuplePhrase) (hLexed : AllLexed phrase.tokens)
    (hSizes : SizesStand phrase.leaves)
    (hRest : ∀ c, rest.head? = some c → isWordChar c = false) :
    spellings ((GoType.tuple phrase.types).text.toList ++ rest) =
      phrase.printed.tokens.map Token.spelling ++ spellings rest := by
  have hText : (GoType.tuple phrase.types).text = (GoType.tuple phrase.printed.types).text := by
    rw [GoType.text, GoType.text, phrase.texts_printed]
  rw [phrase.map_spelling_printed hLexed, hText]
  exact GoType.lexes_tuple (phrase.allLex_printed hLexed hSizes) rest hRest

end Text

end TryGo
