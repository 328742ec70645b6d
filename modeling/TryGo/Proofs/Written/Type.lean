import TryGo.Proofs.Phrase.Type
import TryGo.Proofs.Written.Expr

/-! Types as token sequences. A tree keeps a type as its text. The text of a type of one of the
documented forms is divided into the words that `GoType.written` lists, and whatever tokens
say these words are covered by a phrase with the same text. -/
namespace TryGo

/-- Where a type stands. Only the last parameter of a function is variadic, and only its
result is a list. -/
inductive TypePlace where
  | inner
  | parameter
  | result
deriving DecidableEq

mutual

/-- Whether a type is of a documented form for its place. The size of an array is an integer or
a name. -/
def GoType.Documented (place : TypePlace) : GoType → Prop
  | .named name => isName name = true
  | .qualified package name => isName package = true ∧ isName name = true
  | .pointer elem | .slice elem | .chan elem | .receiveChan elem => elem.Documented .inner
  | .variadic elem => place = .parameter ∧ elem.Documented .inner
  | .array size elem =>
      (size.kind = .int ∧ isNumber .int size.literal = true
        ∨ size.kind = .ident ∧ isName size.literal = true) ∧ elem.Documented .inner
  | .map key value => key.Documented .inner ∧ value.Documented .inner
  | .interface | .struct => True
  | .func params => GoType.AllDocumented .parameter params
  | .funcTo params result => GoType.AllDocumented .parameter params ∧ result.Documented .result
  | .tuple types => place = .result ∧ GoType.AllDocumented .inner types

def GoType.AllDocumented (place : TypePlace) : List GoType → Prop
  | [] => True
  | type :: types => type.Documented place ∧ GoType.AllDocumented place types

end

mutual

def GoType.written : GoType → List Spelling
  | .named name => [(.ident, name)]
  | .qualified package name => [(.ident, package), (.dot, "."), (.ident, name)]
  | .pointer elem => (.asterisk, "*") :: elem.written
  | .variadic elem => (.ellipsis, "...") :: elem.written
  | .slice elem => (.lbracket, "[") :: (.rbracket, "]") :: elem.written
  | .array size elem =>
      (.lbracket, "[") :: (size.kind, size.literal) :: (.rbracket, "]") :: elem.written
  | .map key value =>
      (.kwMap, "map") :: (.lbracket, "[") :: (key.written ++ (.rbracket, "]") :: value.written)
  | .chan elem => (.kwChan, "chan") :: elem.written
  | .receiveChan elem => (.arrow, "<-") :: (.kwChan, "chan") :: elem.written
  | .interface => [(.kwInterface, "interface"), (.lbrace, "\x7b"), (.rbrace, "\x7d")]
  | .struct => [(.kwStruct, "struct"), (.lbrace, "\x7b"), (.rbrace, "\x7d")]
  | .func params =>
      (.kwFunc, "func") :: (.lparen, "(") :: (GoType.writtenAll params ++ [(.rparen, ")")])
  | .funcTo params result =>
      (.kwFunc, "func") :: (.lparen, "(")
        :: (GoType.writtenAll params ++ (.rparen, ")") :: result.written)
  | .tuple types => (.lparen, "(") :: (GoType.writtenAll types ++ [(.rparen, ")")])

def GoType.writtenAll : List GoType → List Spelling
  | [] => []
  | [type] => type.written
  | type :: next :: types => type.written ++ (.comma, ",") :: GoType.writtenAll (next :: types)

end

/-! ### The words of a type text -/

/-- Whether the text of a type is divided into its words in front of whatever does not continue
a name. -/
def GoType.Lexes (type : GoType) : Prop :=
  ∀ rest : List Char, (∀ c, rest.head? = some c → isWordChar c = false) →
    spellings (type.text.toList ++ rest) = type.written ++ spellings rest

def GoType.AllLex (types : List GoType) : Prop :=
  ∀ rest : List Char, (∀ c, rest.head? = some c → isWordChar c = false) →
    spellings ((Text.commaSeparated (GoType.texts types)).toList ++ rest) =
      GoType.writtenAll types ++ spellings rest

section Lexing

variable {elem key value result : GoType} {params types : List GoType} {rest : List Char}

/-- A word of the language is divided off from what does not continue it. -/
theorem spellings_keyword (word : String) (kind : TokenKind) {c : Char} (tail : List Char)
    (hWord : isWord word.toList = true) (hKind : TokenKind.ofWord word = kind)
    (hNext : isWordChar c = false) :
    spellings (word.toList ++ c :: tail) = (kind, word) :: spellings (c :: tail) := by
  rw [spellings_word hWord, String.ofList_toList, hKind]
  intro d hHead
  obtain rfl : c = d := by simpa using hHead
  exact hNext

theorem not_isWordChar_head {c : Char} {tail : List Char} (hNext : isWordChar c = false) :
    ∀ d, (c :: tail).head? = some d → isWordChar d = false := by
  intro d hHead
  obtain rfl : c = d := by simpa using hHead
  exact hNext

/-- No type text starts with the mark of an assignment. -/
theorem GoType.Documented.head_ne {place : TypePlace} {type : GoType}
    (hForm : type.Documented place) (rest : List Char) :
    ∀ c, (type.text.toList ++ rest).head? = some c → c ∉ ['='] := by
  intro c hHead hMem
  obtain rfl : c = '=' := by simpa using hMem
  cases type with
  | named name =>
      obtain ⟨d, tail, hChars, hStart⟩ := exists_head_of_isName hForm
      obtain rfl : d = '=' := by simpa [GoType.text, hChars] using hHead
      exact absurd hStart (by decide)
  | qualified package name =>
      obtain ⟨d, tail, hChars, hStart⟩ := exists_head_of_isName hForm.1
      obtain rfl : d = '=' := by simpa [GoType.text, hChars] using hHead
      exact absurd hStart (by decide)
  | _ => simp [GoType.text] at hHead

/-- A name is one word. -/
theorem GoType.lexes_named {name : String} (hName : isName name = true) :
    (GoType.named name).Lexes := fun _ hRest => spellings_name hName hRest

theorem GoType.lexes_qualified {package name : String} (hPackage : isName package = true)
    (hName : isName name = true) : (GoType.qualified package name).Lexes := by
  intro rest hRest
  have hText : (GoType.qualified package name).text.toList ++ rest =
      package.toList ++ '.' :: (name.toList ++ rest) := by simp [GoType.text]
  rw [hText, spellings_name hPackage (not_isWordChar_head (by decide)),
    spellings_point hName hRest]
  rfl

/-- The star of a pointer may join with nothing but an equals sign behind it. -/
theorem GoType.lexes_pointer
    (hHead : ∀ rest c, (elem.text.toList ++ rest).head? = some c → c ∉ ['='])
    (hElem : elem.Lexes) : (GoType.pointer elem).Lexes := by
  intro rest hRest
  have hText : (GoType.pointer elem).text.toList ++ rest = '*' :: (elem.text.toList ++ rest) := by
    simp [GoType.text]
  rw [hText, spellings_shortOperator .asterisk ['='] (by decide) (hHead rest),
    hElem rest hRest]
  rfl

theorem GoType.lexes_variadic (hElem : elem.Lexes) : (GoType.variadic elem).Lexes := by
  intro rest hRest
  have hText : (GoType.variadic elem).text.toList ++ rest =
      ['.', '.', '.'] ++ (elem.text.toList ++ rest) := by simp [GoType.text]
  rw [hText, spellings_plain ['.', '.', '.'] .ellipsis rfl rfl, hElem rest hRest]
  rfl

theorem GoType.lexes_slice (hElem : elem.Lexes) : (GoType.slice elem).Lexes := by
  intro rest hRest
  have hText : (GoType.slice elem).text.toList ++ rest =
      '[' :: ']' :: (elem.text.toList ++ rest) := by simp [GoType.text]
  rw [hText, spellings_delimiter .lbracket (by decide),
    spellings_delimiter .rbracket (by decide), hElem rest hRest]
  rfl

/-- The size of an array is divided off from the closing bracket. -/
theorem spellings_size {size : Token}
    (hSize : size.kind = .int ∧ isNumber .int size.literal = true
      ∨ size.kind = .ident ∧ isName size.literal = true) (rest : List Char) :
    spellings (size.literal.toList ++ ']' :: rest) =
      size.spelling :: (.rbracket, "]") :: spellings rest := by
  have hBreaks : Breaks (']' :: rest) :=
    ⟨rfl, by decide, by decide, fun hPoint => absurd hPoint (by decide)⟩
  rw [Token.spelling]
  rcases hSize with ⟨hKind, hNumber⟩ | ⟨hKind, hName⟩
  · rw [spellings_number hNumber hBreaks, spellings_delimiter .rbracket (by decide), ← hKind]
  · rw [spellings_name hName (not_isWordChar_head (by decide)),
      spellings_delimiter .rbracket (by decide), ← hKind]

/-- The size of an array ends at its bracket. -/
theorem GoType.lexes_array {size : Token}
    (hSize : ∀ rest, spellings (size.literal.toList ++ ']' :: rest) =
      size.spelling :: (.rbracket, "]") :: spellings rest)
    (hElem : elem.Lexes) : (GoType.array size elem).Lexes := by
  intro rest hRest
  have hText : (GoType.array size elem).text.toList ++ rest =
      '[' :: (size.literal.toList ++ ']' :: (elem.text.toList ++ rest)) := by simp [GoType.text]
  rw [hText, spellings_delimiter .lbracket (by decide), hSize, hElem rest hRest]
  rfl

/-- The key of a map ends at its bracket. -/
theorem GoType.lexes_map (hKey : key.Lexes) (hValue : value.Lexes) :
    (GoType.map key value).Lexes := by
  intro rest hRest
  have hText : (GoType.map key value).text.toList ++ rest =
      "map".toList ++ '[' :: (key.text.toList ++ ']' :: (value.text.toList ++ rest)) := by
    simp [GoType.text]
  rw [hText, spellings_keyword "map" .kwMap _ rfl rfl rfl,
    spellings_delimiter .lbracket (by decide),
    hKey _ (not_isWordChar_head (by decide)), spellings_delimiter .rbracket (by decide),
    hValue rest hRest]
  simp [GoType.written]

/-- The blank behind the keyword keeps it apart from its element. -/
theorem GoType.lexes_chan (hElem : elem.Lexes) : (GoType.chan elem).Lexes := by
  intro rest hRest
  have hText : (GoType.chan elem).text.toList ++ rest =
      "chan".toList ++ ' ' :: (elem.text.toList ++ rest) := by simp [GoType.text]
  rw [hText, spellings_keyword "chan" .kwChan _ rfl rfl rfl,
    spellings_blank (by decide), hElem rest hRest]
  rfl

/-- The arrow stands close to the keyword, and both are words of their own. -/
theorem GoType.lexes_receiveChan (hElem : elem.Lexes) : (GoType.receiveChan elem).Lexes := by
  intro rest hRest
  have hText : (GoType.receiveChan elem).text.toList ++ rest =
      ['<', '-'] ++ ("chan".toList ++ ' ' :: (elem.text.toList ++ rest)) := by simp [GoType.text]
  rw [hText, spellings_plain ['<', '-'] .arrow rfl rfl,
    spellings_keyword "chan" .kwChan _ rfl rfl rfl, spellings_blank (by decide),
    hElem rest hRest]
  rfl

/-- A keyword with empty braces is divided into three words. -/
theorem spellings_braces (word : String) (kind : TokenKind) (hWord : isWord word.toList = true)
    (hKind : TokenKind.ofWord word = kind) (rest : List Char) :
    spellings (word.toList ++ '\x7b' :: '\x7d' :: rest) =
      [(kind, word), (.lbrace, "\x7b"), (.rbrace, "\x7d")] ++ spellings rest := by
  rw [spellings_keyword word kind _ hWord hKind rfl, spellings_delimiter .lbrace (by decide),
    spellings_delimiter .rbrace (by decide)]
  rfl

theorem GoType.lexes_interface : GoType.interface.Lexes := by
  intro rest _
  have hText : GoType.interface.text.toList ++ rest =
      "interface".toList ++ '\x7b' :: '\x7d' :: rest := by simp [GoType.text]
  rw [hText, spellings_braces "interface" .kwInterface rfl rfl]
  rfl

theorem GoType.lexes_struct : GoType.struct.Lexes := by
  intro rest _
  have hText : GoType.struct.text.toList ++ rest =
      "struct".toList ++ '\x7b' :: '\x7d' :: rest := by simp [GoType.text]
  rw [hText, spellings_braces "struct" .kwStruct rfl rfl]
  rfl

theorem GoType.lexes_func (hParams : GoType.AllLex params) : (GoType.func params).Lexes := by
  intro rest _
  have hText : (GoType.func params).text.toList ++ rest =
      "func".toList ++ '(' :: ((Text.commaSeparated (GoType.texts params)).toList
        ++ ')' :: rest) := by simp [GoType.text]
  rw [hText, spellings_keyword "func" .kwFunc _ rfl rfl rfl,
    spellings_delimiter .lparen (by decide),
    hParams _ (not_isWordChar_head (by decide)),
    spellings_delimiter .rparen (by decide)]
  simp [GoType.written]

theorem GoType.lexes_funcTo (hParams : GoType.AllLex params) (hResult : result.Lexes) :
    (GoType.funcTo params result).Lexes := by
  intro rest hRest
  have hText : (GoType.funcTo params result).text.toList ++ rest =
      "func".toList ++ '(' :: ((Text.commaSeparated (GoType.texts params)).toList
        ++ ')' :: ' ' :: (result.text.toList ++ rest)) := by simp [GoType.text]
  rw [hText, spellings_keyword "func" .kwFunc _ rfl rfl rfl,
    spellings_delimiter .lparen (by decide),
    hParams _ (not_isWordChar_head (by decide)),
    spellings_delimiter .rparen (by decide), spellings_blank (by decide),
    hResult rest hRest]
  simp [GoType.written]

theorem GoType.lexes_tuple (hTypes : GoType.AllLex types) : (GoType.tuple types).Lexes := by
  intro rest _
  have hText : (GoType.tuple types).text.toList ++ rest =
      '(' :: ((Text.commaSeparated (GoType.texts types)).toList ++ ')' :: rest) := by
    simp [GoType.text]
  rw [hText, spellings_delimiter .lparen (by decide),
    hTypes _ (not_isWordChar_head (by decide)),
    spellings_delimiter .rparen (by decide)]
  simp [GoType.written]

theorem GoType.allLex_cons (hFirst : elem.Lexes) (hRest : GoType.AllLex (key :: types)) :
    GoType.AllLex (elem :: key :: types) := by
  intro rest hBreaks
  have hText : (Text.commaSeparated (GoType.texts (elem :: key :: types))).toList ++ rest =
      elem.text.toList ++ ',' :: ' '
        :: ((Text.commaSeparated (GoType.texts (key :: types))).toList ++ rest) := by
    simp [GoType.texts, Text.commaSeparated]
  rw [hText, hFirst _ (not_isWordChar_head (by decide)),
    spellings_delimiter .comma (by decide), spellings_blank (by decide),
    hRest _ hBreaks]
  simp [GoType.writtenAll]

end Lexing

mutual

/-- The text of a documented type is divided into its words. -/
theorem GoType.lexes : (type : GoType) → (place : TypePlace) → type.Documented place → type.Lexes
  | .named _, _, hForm => GoType.lexes_named hForm
  | .qualified _ _, _, hForm => GoType.lexes_qualified hForm.1 hForm.2
  | .pointer elem, _, hForm => by
      rw [GoType.Documented] at hForm
      exact GoType.lexes_pointer hForm.head_ne (elem.lexes .inner hForm)
  | .variadic elem, _, hForm => GoType.lexes_variadic (elem.lexes .inner hForm.2)
  | .slice elem, _, hForm => GoType.lexes_slice (elem.lexes .inner hForm)
  | .array _ elem, _, hForm =>
      GoType.lexes_array (spellings_size hForm.1) (elem.lexes .inner hForm.2)
  | .map key value, _, hForm =>
      GoType.lexes_map (key.lexes .inner hForm.1) (value.lexes .inner hForm.2)
  | .chan elem, _, hForm => GoType.lexes_chan (elem.lexes .inner hForm)
  | .receiveChan elem, _, hForm => GoType.lexes_receiveChan (elem.lexes .inner hForm)
  | .interface, _, _ => GoType.lexes_interface
  | .struct, _, _ => GoType.lexes_struct
  | .func params, _, hForm => GoType.lexes_func (GoType.allLex params .parameter hForm)
  | .funcTo params result, _, hForm =>
      GoType.lexes_funcTo (GoType.allLex params .parameter hForm.1)
        (result.lexes .result hForm.2)
  | .tuple types, _, hForm => GoType.lexes_tuple (GoType.allLex types .inner hForm.2)

/-- The texts of documented types fall into their words. -/
theorem GoType.allLex : (types : List GoType) → (place : TypePlace) →
    GoType.AllDocumented place types → GoType.AllLex types
  | [], _, _ => fun _ _ => rfl
  | [type], place, hForms => type.lexes place hForms.1
  | type :: next :: types, place, hForms =>
      GoType.allLex_cons (type.lexes place hForms.1) (GoType.allLex (next :: types) place hForms.2)

end

/-! ### Phrases of types -/

/-- Whether a phrase covers some tokens, has the text of a type, and ends where any type
does. -/
structure TypePhrase.Stands (phrase : TypePhrase) (tokens : List Token) (type : GoType) :
    Prop where
  covers : phrase.tokens = tokens
  text : phrase.type.text = type.text
  fits : ∀ next : TokenKind, next.ClosesType → phrase.Fits next

structure TypesPhrase.Stand (phrase : TypesPhrase) (tokens : List Token) (types : List GoType) :
    Prop where
  covers : phrase.tokens = tokens
  texts : GoType.texts phrase.types = GoType.texts types
  fits : phrase.Fits

structure TuplePhrase.Stand (phrase : TuplePhrase) (tokens : List Token) (types : List GoType) :
    Prop where
  covers : phrase.tokens = tokens
  texts : GoType.texts phrase.types = GoType.texts types
  fits : phrase.Fits

def GoType.isVariadic : GoType → Bool
  | .variadic _ => true
  | _ => false

/-- Whatever tokens say what a type is written as, a phrase covers them. The tokens of a list of
results are those of a tuple. -/
def GoType.HasPhrase (type : GoType) : Prop :=
  ∀ tokens : List Token, tokens.map Token.spelling = type.written →
    (∃ phrase : TypePhrase, phrase.Stands tokens type ∧ phrase.isVariadic = type.isVariadic)
      ∨ ∃ types, type = .tuple types ∧ ∃ phrase : TuplePhrase, phrase.Stand tokens types

/-- Whatever tokens say what types in parentheses are written as, a phrase covers them. -/
def GoType.HavePhrase (types : List GoType) : Prop :=
  ∀ tokens : List Token,
    tokens.map Token.spelling = (.lparen, "(") :: (GoType.writtenAll types ++ [(.rparen, ")")]) →
      ∃ phrase : TuplePhrase, phrase.Stand tokens types

section Phrases

variable {elem key value result : GoType} {params types : List GoType} {tokens : List Token}

/-- The words of one type are those of a phrase that stands for it alone. -/
theorem GoType.HasPhrase.single (hPhrase : elem.HasPhrase) {place : TypePlace}
    (hForm : elem.Documented place) (hPlace : place ≠ .result)
    (hWords : tokens.map Token.spelling = elem.written) :
    ∃ phrase : TypePhrase, phrase.Stands tokens elem ∧ phrase.isVariadic = elem.isVariadic := by
  rcases hPhrase tokens hWords with hSingle | ⟨types, rfl, -⟩
  · exact hSingle
  · exact absurd hForm.1 hPlace

/-- A type with something in front of it has a phrase if the type has one. -/
theorem GoType.HasPhrase.extend (hElem : elem.HasPhrase) (hForm : elem.Documented .inner)
    {type : GoType} (heads : List Spelling) (hWritten : type.written = heads ++ elem.written)
    (hBuild : ∀ (front rest : List Token) (phrase : TypePhrase),
      front.map Token.spelling = heads → phrase.Stands rest elem →
        ∃ built : TypePhrase, built.Stands (front ++ rest) type
          ∧ built.isVariadic = type.isVariadic) :
    type.HasPhrase := by
  intro tokens hWords
  rw [hWritten] at hWords
  obtain ⟨front, rest, rfl, hFront, hRest⟩ := exists_parts hWords
  obtain ⟨phrase, hStands, -⟩ := hElem.single hForm (by decide) hRest
  exact Or.inl (hBuild front rest phrase hFront hStands)

/-- The word of a name is the phrase of that type. -/
theorem GoType.hasPhrase_named (name : String) : (GoType.named name).HasPhrase := by
  intro tokens hWords
  obtain ⟨mark, rfl, hLiteral⟩ := exists_mark_only hWords
  exact Or.inl ⟨.named mark, ⟨rfl, hLiteral, fun _ hNext => hNext.1⟩, rfl⟩

/-- The words around a dot are the phrase of a qualified name. -/
theorem GoType.hasPhrase_qualified (package name : String) :
    (GoType.qualified package name).HasPhrase := by
  intro tokens hWords
  obtain ⟨first, rest, rfl, hFirst, hRest⟩ := exists_mark hWords
  obtain ⟨dot, rest, rfl, -, hRest⟩ := exists_mark hRest
  obtain ⟨second, rfl, hSecond⟩ := exists_mark_only hRest
  refine Or.inl ⟨.qualified first dot second, ⟨rfl, ?_, fun _ _ => trivial⟩, rfl⟩
  rw [TypePhrase.type, GoType.text, GoType.text, hFirst, hSecond]

theorem GoType.hasPhrase_pointer (hElem : elem.HasPhrase) (hForm : elem.Documented .inner) :
    (GoType.pointer elem).HasPhrase := by
  refine hElem.extend hForm [(.asterisk, "*")] rfl
    fun front rest phrase hFront hStands => ?_
  obtain ⟨star, rfl, -⟩ := exists_mark_only hFront
  refine ⟨.pointer star phrase, ⟨?_, ?_, hStands.fits⟩, rfl⟩
  · rw [TypePhrase.tokens, hStands.covers, List.singleton_append]
  · rw [TypePhrase.type, GoType.text, GoType.text, hStands.text]

theorem GoType.hasPhrase_variadic (hElem : elem.HasPhrase) (hForm : elem.Documented .inner) :
    (GoType.variadic elem).HasPhrase := by
  refine hElem.extend hForm [(.ellipsis, "...")] rfl
    fun front rest phrase hFront hStands => ?_
  obtain ⟨dots, rfl, -⟩ := exists_mark_only hFront
  refine ⟨.variadic dots phrase, ⟨?_, ?_, hStands.fits⟩, rfl⟩
  · rw [TypePhrase.tokens, hStands.covers, List.singleton_append]
  · rw [TypePhrase.type, GoType.text, GoType.text, hStands.text]

theorem GoType.hasPhrase_slice (hElem : elem.HasPhrase) (hForm : elem.Documented .inner) :
    (GoType.slice elem).HasPhrase := by
  refine hElem.extend hForm [(.lbracket, "["), (.rbracket, "]")] rfl
    fun front rest phrase hFront hStands => ?_
  obtain ⟨opening, front, rfl, -, hFront⟩ := exists_mark hFront
  obtain ⟨closing, rfl, -⟩ := exists_mark_only hFront
  refine ⟨.slice opening closing phrase, ⟨?_, ?_, hStands.fits⟩, rfl⟩
  · rw [TypePhrase.tokens, hStands.covers]
    rfl
  · rw [TypePhrase.type, GoType.text, GoType.text, hStands.text]

/-- The size of an array is one token, which closes nothing. -/
theorem GoType.hasPhrase_array {size : Token} (hSize : size.kind ≠ .rbracket)
    (hElem : elem.HasPhrase) (hForm : elem.Documented .inner) :
    (GoType.array size elem).HasPhrase := by
  refine hElem.extend hForm
    [(.lbracket, "["), (size.kind, size.literal), (.rbracket, "]")] rfl
    fun front rest phrase hFront hStands => ?_
  obtain ⟨opening, front, rfl, -, hFront⟩ := exists_mark hFront
  obtain ⟨found, front, rfl, hLiteral, hFront⟩ := exists_mark hFront
  obtain ⟨closing, rfl, -⟩ := exists_mark_only hFront
  refine ⟨.array opening found.val (by rw [found.property]; exact hSize) closing phrase,
    ⟨?_, ?_, hStands.fits⟩, rfl⟩
  · rw [TypePhrase.tokens, hStands.covers]
    rfl
  · rw [TypePhrase.type, GoType.text, GoType.text, hStands.text, hLiteral]

theorem GoType.hasPhrase_chan (hElem : elem.HasPhrase) (hForm : elem.Documented .inner) :
    (GoType.chan elem).HasPhrase := by
  refine hElem.extend hForm [(.kwChan, "chan")] rfl
    fun front rest phrase hFront hStands => ?_
  obtain ⟨keyword, rfl, -⟩ := exists_mark_only hFront
  refine ⟨.chan keyword phrase, ⟨?_, ?_, hStands.fits⟩, rfl⟩
  · rw [TypePhrase.tokens, hStands.covers, List.singleton_append]
  · rw [TypePhrase.type, GoType.text, GoType.text, hStands.text]

theorem GoType.hasPhrase_receiveChan (hElem : elem.HasPhrase) (hForm : elem.Documented .inner) :
    (GoType.receiveChan elem).HasPhrase := by
  refine hElem.extend hForm [(.arrow, "<-"), (.kwChan, "chan")] rfl
    fun front rest phrase hFront hStands => ?_
  obtain ⟨arrow, front, rfl, -, hFront⟩ := exists_mark hFront
  obtain ⟨keyword, rfl, -⟩ := exists_mark_only hFront
  refine ⟨.receiveChan arrow keyword phrase, ⟨?_, ?_, hStands.fits⟩, rfl⟩
  · rw [TypePhrase.tokens, hStands.covers]
    rfl
  · rw [TypePhrase.type, GoType.text, GoType.text, hStands.text]

/-- The words of a map are those of its key in brackets and of its value. -/
theorem GoType.hasPhrase_map (hKey : key.HasPhrase) (hKeyForm : key.Documented .inner)
    (hValue : value.HasPhrase) (hValueForm : value.Documented .inner) :
    (GoType.map key value).HasPhrase := by
  intro tokens hWords
  obtain ⟨keyword, rest, rfl, -, hRest⟩ := exists_mark hWords
  obtain ⟨opening, rest, rfl, -, hRest⟩ := exists_mark hRest
  obtain ⟨first, rest, rfl, hFirst, hRest⟩ := exists_parts hRest
  obtain ⟨closing, second, rfl, -, hSecond⟩ := exists_mark hRest
  obtain ⟨keyPhrase, hKeyStands, -⟩ := hKey.single hKeyForm (by decide) hFirst
  obtain ⟨valuePhrase, hValueStands, -⟩ := hValue.single hValueForm (by decide) hSecond
  refine Or.inl ⟨.map keyword opening keyPhrase closing valuePhrase, ⟨?_, ?_, ?_⟩, rfl⟩
  · rw [TypePhrase.tokens, hKeyStands.covers, hValueStands.covers]
  · rw [TypePhrase.type, GoType.text, GoType.text, hKeyStands.text, hValueStands.text]
  · exact fun next hNext =>
      ⟨hKeyStands.fits .rbracket ⟨by decide, by decide, by decide⟩, hValueStands.fits next hNext⟩

/-- The phrases of the two types that are a keyword with braces. -/
theorem GoType.hasPhrase_interface : GoType.interface.HasPhrase := by
  intro tokens hWords
  obtain ⟨keyword, rest, rfl, -, hRest⟩ := exists_mark hWords
  obtain ⟨opening, rest, rfl, -, hRest⟩ := exists_mark hRest
  obtain ⟨closing, rfl, -⟩ := exists_mark_only hRest
  exact Or.inl ⟨.interface keyword opening closing, ⟨rfl, rfl, fun _ _ => trivial⟩, rfl⟩

theorem GoType.hasPhrase_struct : GoType.struct.HasPhrase := by
  intro tokens hWords
  obtain ⟨keyword, rest, rfl, -, hRest⟩ := exists_mark hWords
  obtain ⟨opening, rest, rfl, -, hRest⟩ := exists_mark hRest
  obtain ⟨closing, rfl, -⟩ := exists_mark_only hRest
  exact Or.inl ⟨.struct keyword opening closing, ⟨rfl, rfl, fun _ _ => trivial⟩, rfl⟩

theorem GoType.hasPhrase_func (hParams : GoType.HavePhrase params) :
    (GoType.func params).HasPhrase := by
  intro tokens hWords
  obtain ⟨keyword, rest, rfl, -, hRest⟩ := exists_mark hWords
  obtain ⟨phrase, hStand⟩ := hParams rest hRest
  refine Or.inl ⟨.func keyword phrase, ⟨?_, ?_, fun next hNext => ?_⟩, rfl⟩
  · rw [TypePhrase.tokens, hStand.covers]
  · rw [TypePhrase.type, GoType.text, GoType.text, hStand.texts]
  · exact ⟨hStand.fits, hNext.2⟩

/-- The result of a function follows its parameters at once. -/
theorem GoType.hasPhrase_funcTo (hParams : GoType.HavePhrase params) (hResult : result.HasPhrase)
    (hVariadic : result.isVariadic = false) : (GoType.funcTo params result).HasPhrase := by
  intro tokens hWords
  obtain ⟨keyword, rest, rfl, -, hRest⟩ := exists_mark hWords
  have hSplit : (TokenKind.lparen, "(") :: (GoType.writtenAll params
        ++ (TokenKind.rparen, ")") :: result.written) =
      (.lparen, "(") :: (GoType.writtenAll params ++ [(.rparen, ")")]) ++ result.written := by simp
  obtain ⟨first, second, rfl, hFirst, hSecond⟩ := exists_parts (hRest.trans hSplit)
  obtain ⟨phrase, hStand⟩ := hParams first hFirst
  rcases hResult second hSecond with ⟨resultPhrase, hStands, hSame⟩ | ⟨types, rfl, results, hStands⟩
  · refine Or.inl ⟨.funcTo keyword phrase resultPhrase, ⟨?_, ?_, fun next hNext => ?_⟩, rfl⟩
    · rw [TypePhrase.tokens, hStand.covers, hStands.covers]
    · rw [TypePhrase.type, GoType.text, GoType.text, hStand.texts, hStands.text]
    · exact ⟨hStand.fits, hSame.trans hVariadic, hStands.fits next hNext⟩
  · refine Or.inl ⟨.funcToTuple keyword phrase results, ⟨?_, ?_, fun next hNext => ?_⟩, rfl⟩
    · rw [TypePhrase.tokens, hStand.covers, hStands.covers]
    · rw [TypePhrase.type, GoType.text, GoType.text, hStand.texts, GoType.text, GoType.text,
        hStands.texts]
    · exact ⟨hStand.fits, hStands.fits⟩

theorem GoType.hasPhrase_tuple (hTypes : GoType.HavePhrase types) :
    (GoType.tuple types).HasPhrase :=
  fun tokens hWords => Or.inr ⟨types, rfl, hTypes tokens hWords⟩

/-- Types with commas between them are covered by a phrase. -/
def GoType.ListPhrase (types : List GoType) : Prop :=
  ∀ tokens : List Token, tokens.map Token.spelling = GoType.writtenAll types →
    ∃ phrase : TypesPhrase, phrase.Stand tokens types

/-- One type is a list of types. -/
theorem GoType.listPhrase_singleton (hType : elem.HasPhrase) {place : TypePlace}
    (hForm : elem.Documented place) (hPlace : place ≠ .result) : GoType.ListPhrase [elem] := by
  intro tokens hWords
  obtain ⟨phrase, hStands, -⟩ := hType.single hForm hPlace hWords
  refine ⟨.last phrase, hStands.covers, ?_, hStands.fits .rparen ⟨by decide, by decide, by decide⟩⟩
  rw [TypesPhrase.types, GoType.texts, GoType.texts, hStands.text]
  rfl

/-- A comma stands between a type and those behind it. -/
theorem GoType.listPhrase_cons (hType : elem.HasPhrase) {place : TypePlace}
    (hForm : elem.Documented place) (hPlace : place ≠ .result)
    (hTypes : GoType.ListPhrase (key :: types)) : GoType.ListPhrase (elem :: key :: types) := by
  intro tokens hWords
  obtain ⟨first, rest, rfl, hFirst, hRest⟩ := exists_parts hWords
  obtain ⟨comma, rest, rfl, -, hRest⟩ := exists_mark hRest
  obtain ⟨phrase, hStands, -⟩ := hType.single hForm hPlace hFirst
  obtain ⟨list, hList⟩ := hTypes rest hRest
  refine ⟨.more phrase comma list, ?_, ?_,
    hStands.fits .comma ⟨by decide, by decide, by decide⟩, hList.fits⟩
  · rw [TypesPhrase.tokens, hStands.covers, hList.covers]
  · rw [TypesPhrase.types, GoType.texts, hStands.text, hList.texts]
    rfl

/-- Types in parentheses have phrases if they have them between commas. -/
theorem GoType.havePhrase_of_list (hList : types ≠ [] → GoType.ListPhrase types) :
    GoType.HavePhrase types := by
  intro tokens hWords
  obtain ⟨opening, rest, rfl, -, hRest⟩ := exists_mark hWords
  obtain ⟨inside, last, rfl, hInside, hLast⟩ := exists_parts hRest
  obtain ⟨closing, rfl, -⟩ := exists_mark_only hLast
  by_cases hNil : types = []
  · subst hNil
    obtain rfl := List.map_eq_nil_iff.mp hInside
    exact ⟨.empty opening closing, rfl, rfl, trivial⟩
  · obtain ⟨list, hStand⟩ := hList hNil inside hInside
    refine ⟨.full opening list closing, ?_, hStand.texts, hStand.fits⟩
    rw [TuplePhrase.tokens, hStand.covers]

end Phrases

/-- Only the type of a parameter is variadic. -/
theorem GoType.Documented.isVariadic {place : TypePlace} {type : GoType}
    (hForm : type.Documented place) (hPlace : place ≠ .parameter) : type.isVariadic = false := by
  cases type with
  | variadic elem => exact absurd hForm.1 hPlace
  | _ => rfl

mutual

/-- Every documented type has phrases. -/
theorem GoType.hasPhrase : (type : GoType) → (place : TypePlace) → type.Documented place →
    type.HasPhrase
  | .named name, _, _ => GoType.hasPhrase_named name
  | .qualified package name, _, _ => GoType.hasPhrase_qualified package name
  | .pointer elem, _, hForm => GoType.hasPhrase_pointer (elem.hasPhrase .inner hForm) hForm
  | .variadic elem, _, hForm =>
      GoType.hasPhrase_variadic (elem.hasPhrase .inner hForm.2) hForm.2
  | .slice elem, _, hForm => GoType.hasPhrase_slice (elem.hasPhrase .inner hForm) hForm
  | .array size elem, _, hForm => by
      have hSize : size.kind ≠ .rbracket := by
        rcases hForm.1 with ⟨hKind, -⟩ | ⟨hKind, -⟩ <;> rw [hKind] <;> decide
      exact GoType.hasPhrase_array hSize (elem.hasPhrase .inner hForm.2) hForm.2
  | .map key value, _, hForm =>
      GoType.hasPhrase_map (key.hasPhrase .inner hForm.1) hForm.1
        (value.hasPhrase .inner hForm.2) hForm.2
  | .chan elem, _, hForm => GoType.hasPhrase_chan (elem.hasPhrase .inner hForm) hForm
  | .receiveChan elem, _, hForm =>
      GoType.hasPhrase_receiveChan (elem.hasPhrase .inner hForm) hForm
  | .interface, _, _ => GoType.hasPhrase_interface
  | .struct, _, _ => GoType.hasPhrase_struct
  | .func params, _, hForm =>
      GoType.hasPhrase_func (GoType.havePhrase_of_list
        (GoType.listPhrase params .parameter hForm (by decide)))
  | .funcTo params result, _, hForm =>
      GoType.hasPhrase_funcTo
        (GoType.havePhrase_of_list (GoType.listPhrase params .parameter hForm.1 (by decide)))
        (result.hasPhrase .result hForm.2) (hForm.2.isVariadic (by decide))
  | .tuple types, _, hForm =>
      GoType.hasPhrase_tuple (GoType.havePhrase_of_list
        (GoType.listPhrase types .inner hForm.2 (by decide)))

/-- The words of documented types between commas are a phrase. -/
theorem GoType.listPhrase : (types : List GoType) → (place : TypePlace) →
    GoType.AllDocumented place types → place ≠ .result → types ≠ [] → GoType.ListPhrase types
  | [type], place, hForms, hPlace, _ =>
      GoType.listPhrase_singleton (type.hasPhrase place hForms.1) hForms.1 hPlace
  | type :: next :: types, place, hForms, hPlace, _ =>
      GoType.listPhrase_cons (type.hasPhrase place hForms.1) hForms.1 hPlace
        (GoType.listPhrase (next :: types) place hForms.2 hPlace (List.cons_ne_nil next types))

end

end TryGo
