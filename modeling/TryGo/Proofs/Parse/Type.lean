import TryGo.Parse.Type
import TryGo.Proofs.Parse.Run
import TryGo.Proofs.Phrase.Type

/-! The type parser reads exactly the type phrases that fit what follows them. -/
namespace TryGo.Parse

/-! ### One step of the type parser

Each equation says how a type goes on after its first token. Both directions use them. -/

section Steps

variable (s : State) {fuel : Nat} {token : Token} {more : List Token}

/-- A type that starts with a name may be a qualified one. -/
theorem goType_ident (hKind : token.kind = .ident) :
    goType (fuel + 1) (s.on (token :: more)) =
      (peekIs .dot >>= fun dotted =>
        if dotted then
          advance >>= fun _ => expect .ident >>= fun _ => cur >>= fun name =>
            pure (.qualified token.literal name.literal)
        else pure (.named token.literal)) (s.on (token :: more)) := by
  cases token
  cases hKind
  rfl

/-- A type that starts with a bracket is a slice if the bracket is closed at once. -/
theorem goType_bracket (hKind : token.kind = .lbracket) :
    goType (fuel + 1) (s.on (token :: more)) =
      (peekIs .rbracket >>= fun closed =>
        if closed then
          advance >>= fun _ => advance >>= fun _ => goType fuel >>= fun elem => pure (.slice elem)
        else
          advance >>= fun _ => cur >>= fun size => expect .rbracket >>= fun _ =>
            advance >>= fun _ => goType fuel >>= fun elem => pure (.array size elem))
        (s.on (token :: more)) := by
  cases token
  cases hKind
  rfl

/-- A name without a dot behind it is a type by itself. -/
theorem goType_named (hKind : token.kind = .ident) (hNext : nextKind more ≠ .dot) :
    goType (fuel + 1) (s.on (token :: more)) =
      .ok (.named token.literal) (s.on (token :: more)) := by
  rw [goType_ident s hKind, peekIs_bind, State.kind_peek_on_cons, if_neg (by simpa using hNext)]
  rfl

theorem goType_qualified (hKind : token.kind = .ident) (hNext : nextKind more = .dot) :
    goType (fuel + 1) (s.on (token :: more)) =
      (expect .ident >>= fun _ => cur >>= fun name =>
        pure (.qualified token.literal name.literal)) (s.on more) := by
  rw [goType_ident s hKind, peekIs_bind, State.kind_peek_on_cons, if_pos (by simpa using hNext),
    advance_bind]

theorem goType_pointer (hKind : token.kind = .asterisk) :
    goType (fuel + 1) (s.on (token :: more)) =
      (goType fuel >>= fun elem => pure (.pointer elem)) (s.on more) := by
  cases token
  cases hKind
  rfl

theorem goType_variadic (hKind : token.kind = .ellipsis) :
    goType (fuel + 1) (s.on (token :: more)) =
      (goType fuel >>= fun elem => pure (.variadic elem)) (s.on more) := by
  cases token
  cases hKind
  rfl

theorem goType_slice (hKind : token.kind = .lbracket) (closing : Mark .rbracket) :
    goType (fuel + 1) (s.on (token :: closing.val :: more)) =
      (goType fuel >>= fun elem => pure (.slice elem)) (s.on more) := by
  rw [goType_bracket s hKind, peekIs_bind, State.kind_peek_on_cons,
    if_pos (by simp [closing.property]), advance_bind, advance_bind]

theorem goType_array (hKind : token.kind = .lbracket) (hNext : nextKind more ≠ .rbracket) :
    goType (fuel + 1) (s.on (token :: more)) =
      (cur >>= fun size => expect .rbracket >>= fun _ => advance >>= fun _ =>
        goType fuel >>= fun elem => pure (.array size elem)) (s.on more) := by
  rw [goType_bracket s hKind, peekIs_bind, State.kind_peek_on_cons,
    if_neg (by simpa using hNext), advance_bind]

theorem goType_map (hKind : token.kind = .kwMap) :
    goType (fuel + 1) (s.on (token :: more)) =
      (expect .lbracket >>= fun _ => advance >>= fun _ => goType fuel >>= fun key =>
        expect .rbracket >>= fun _ => advance >>= fun _ => goType fuel >>= fun value =>
          pure (.map key value)) (s.on (token :: more)) := by
  cases token
  cases hKind
  rfl

theorem goType_chan (hKind : token.kind = .kwChan) :
    goType (fuel + 1) (s.on (token :: more)) =
      (goType fuel >>= fun elem => pure (.chan elem)) (s.on more) := by
  cases token
  cases hKind
  rfl

theorem goType_receiveChan (hKind : token.kind = .arrow) :
    goType (fuel + 1) (s.on (token :: more)) =
      (expect .kwChan >>= fun _ => advance >>= fun _ => goType fuel >>= fun elem =>
        pure (.receiveChan elem)) (s.on (token :: more)) := by
  cases token
  cases hKind
  rfl

theorem goType_interface (hKind : token.kind = .kwInterface) :
    goType (fuel + 1) (s.on (token :: more)) =
      (expect .lbrace >>= fun _ => expect .rbrace >>= fun _ => pure .interface)
        (s.on (token :: more)) := by
  cases token
  cases hKind
  rfl

theorem goType_struct (hKind : token.kind = .kwStruct) :
    goType (fuel + 1) (s.on (token :: more)) =
      (expect .lbrace >>= fun _ => expect .rbrace >>= fun _ => pure .struct)
        (s.on (token :: more)) := by
  cases token
  cases hKind
  rfl

theorem goType_func (hKind : token.kind = .kwFunc) :
    goType (fuel + 1) (s.on (token :: more)) = funcType fuel (s.on (token :: more)) := by
  cases token
  cases hKind
  rfl

/-- Every other token is reported and ends the type. -/
theorem goType_other {s : State} (hKind : s.cursor.cur.kind ∉ TokenKind.typeStarts)
    (hEllipsis : s.cursor.cur.kind ≠ .ellipsis) :
    goType (fuel + 1) s =
      (report (.noType s.cursor.cur.kind) >>= fun _ => abandon) s := by
  rw [goType, cur_bind]
  generalize s.cursor.cur.kind = kind at hKind hEllipsis ⊢
  cases kind <;> first | rfl | exact absurd (by decide) hKind | exact absurd rfl hEllipsis

end Steps

/-! ### From phrases to runs -/

/-- What reading a type phrase amounts to. Each token costs at most four units of fuel. -/
def ReadAsType (phrase : TypePhrase) : Prop :=
  ∀ (s : State) (fuel : Nat) (more : List Token), phrase.Fits (nextKind more) →
    4 * phrase.tokens.length ≤ fuel →
    ∃ last, goType fuel (s.on (phrase.tokens ++ more)) = .ok phrase.type (s.on (last :: more))

def ReadAsTuple (phrase : TuplePhrase) : Prop :=
  ∀ (s : State) (fuel : Nat) (more : List Token), phrase.Fits →
    4 * phrase.tokens.length ≤ fuel →
    ∃ last, typesUntilParen fuel (s.on (phrase.tokens ++ more)) =
      .ok phrase.types (s.on (last :: more))

/-- A list of types is read from the token before it. -/
def ReadAsTypes (phrase : TypesPhrase) : Prop :=
  ∀ (s : State) (fuel : Nat) (token : Token) (more : List Token), phrase.Fits →
    nextKind more = .rparen → 4 * phrase.tokens.length < fuel →
    ∃ last, typeList fuel (s.on (token :: (phrase.tokens ++ more))) =
      .ok phrase.types (s.on (last :: more))

section Forwards

variable {elem key : TypePhrase} {params results : TuplePhrase} {types : TypesPhrase}

/-- A name is read as the type of that name. -/
theorem readAsType_named (name : Mark .ident) : ReadAsType (.named name) := by
  intro s fuel more hFits hFuel
  simp only [TypePhrase.tokens, List.length_cons, List.length_nil] at hFuel
  obtain ⟨fuel, rfl⟩ : ∃ n, fuel = n + 1 := ⟨fuel - 1, by omega⟩
  exact ⟨name.val, goType_named s name.property hFits⟩

/-- A name of a package is read with the dot. -/
theorem readAsType_qualified (package : Mark .ident) (dot : Mark .dot) (name : Mark .ident) :
    ReadAsType (.qualified package dot name) := by
  intro s fuel more _ hFuel
  simp only [TypePhrase.tokens, List.length_cons, List.length_nil, List.cons_append,
    List.nil_append] at hFuel ⊢
  obtain ⟨fuel, rfl⟩ : ∃ n, fuel = n + 1 := ⟨fuel - 1, by omega⟩
  refine ⟨name.val, ?_⟩
  rw [goType_qualified s package.property (by exact dot.property),
    expect_bind _ _ _ _ (by exact name.property)]
  rfl

theorem readAsType_interface (keyword : Mark .kwInterface) (opening : Mark .lbrace)
    (closing : Mark .rbrace) : ReadAsType (.interface keyword opening closing) := by
  intro s fuel more _ hFuel
  simp only [TypePhrase.tokens, List.length_cons, List.length_nil, List.cons_append,
    List.nil_append] at hFuel ⊢
  obtain ⟨fuel, rfl⟩ : ∃ n, fuel = n + 1 := ⟨fuel - 1, by omega⟩
  refine ⟨closing.val, ?_⟩
  rw [goType_interface s keyword.property, expect_bind _ _ _ _ (by exact opening.property),
    expect_bind _ _ _ _ (by exact closing.property)]
  rfl

theorem readAsType_struct (keyword : Mark .kwStruct) (opening : Mark .lbrace)
    (closing : Mark .rbrace) : ReadAsType (.struct keyword opening closing) := by
  intro s fuel more _ hFuel
  simp only [TypePhrase.tokens, List.length_cons, List.length_nil, List.cons_append,
    List.nil_append] at hFuel ⊢
  obtain ⟨fuel, rfl⟩ : ∃ n, fuel = n + 1 := ⟨fuel - 1, by omega⟩
  refine ⟨closing.val, ?_⟩
  rw [goType_struct s keyword.property, expect_bind _ _ _ _ (by exact opening.property),
    expect_bind _ _ _ _ (by exact closing.property)]
  rfl

/-- A type that ends in another one is read if the step over what comes before is known. -/
theorem ReadAsType.extend {phrase : TypePhrase} (hElem : ReadAsType elem) (heads : List Token)
    (wrap : GoType → GoType) (hTokens : phrase.tokens = heads ++ elem.tokens)
    (hType : phrase.type = wrap elem.type) (hFits : ∀ next, phrase.Fits next → elem.Fits next)
    (hHeads : 0 < heads.length)
    (hStep : ∀ (s : State) (fuel : Nat) (more : List Token),
      goType (fuel + 1) (s.on (heads ++ more)) =
        (goType fuel >>= fun elem => pure (wrap elem)) (s.on more)) : ReadAsType phrase := by
  intro s fuel more hNext hFuel
  rw [hTokens, List.length_append] at hFuel
  obtain ⟨fuel, rfl⟩ : ∃ n, fuel = n + 1 := ⟨fuel - 1, by omega⟩
  obtain ⟨last, hRun⟩ := hElem s fuel more (hFits _ hNext) (by omega)
  refine ⟨last, ?_⟩
  rw [hTokens, List.append_assoc, hStep, bind_of_ok hRun, hType]
  rfl

theorem readAsType_pointer (star : Mark .asterisk) (hElem : ReadAsType elem) :
    ReadAsType (.pointer star elem) :=
  hElem.extend [star.val] .pointer rfl rfl (fun _ hFits => hFits) (by simp)
    fun s _ _ => goType_pointer s star.property

theorem readAsType_variadic (dots : Mark .ellipsis) (hElem : ReadAsType elem) :
    ReadAsType (.variadic dots elem) :=
  hElem.extend [dots.val] .variadic rfl rfl (fun _ hFits => hFits) (by simp)
    fun s _ _ => goType_variadic s dots.property

theorem readAsType_chan (keyword : Mark .kwChan) (hElem : ReadAsType elem) :
    ReadAsType (.chan keyword elem) :=
  hElem.extend [keyword.val] .chan rfl rfl (fun _ hFits => hFits) (by simp)
    fun s _ _ => goType_chan s keyword.property

/-- A slice is read with the type of its elements. -/
theorem readAsType_slice (opening : Mark .lbracket) (closing : Mark .rbracket)
    (hElem : ReadAsType elem) : ReadAsType (.slice opening closing elem) :=
  hElem.extend [opening.val, closing.val] .slice rfl rfl (fun _ hFits => hFits) (by simp)
    fun s _ _ => goType_slice s opening.property closing

/-- The size of an array may be any token but a closing bracket. -/
theorem readAsType_array (opening : Mark .lbracket) (size : Token) (hSize : size.kind ≠ .rbracket)
    (closing : Mark .rbracket) (hElem : ReadAsType elem) :
    ReadAsType (.array opening size hSize closing elem) := by
  refine hElem.extend [opening.val, size, closing.val] (.array size) rfl rfl
    (fun _ hFits => hFits) (by simp) fun s fuel more => ?_
  rw [List.cons_append, goType_array s opening.property (by exact hSize)]
  exact expect_bind _ _ _ _ closing.property

theorem readAsType_receiveChan (arrow : Mark .arrow) (keyword : Mark .kwChan)
    (hElem : ReadAsType elem) : ReadAsType (.receiveChan arrow keyword elem) := by
  refine hElem.extend [arrow.val, keyword.val] .receiveChan rfl rfl (fun _ hFits => hFits)
    (by simp) fun s fuel more => ?_
  rw [List.cons_append, goType_receiveChan s arrow.property]
  exact expect_bind _ _ _ _ keyword.property

/-- A map is read with the types of its keys and values. -/
theorem readAsType_map (keyword : Mark .kwMap) (opening : Mark .lbracket)
    (closing : Mark .rbracket) (hKey : ReadAsType key) (hElem : ReadAsType elem) :
    ReadAsType (.map keyword opening key closing elem) := by
  intro s fuel more hFits hFuel
  simp only [TypePhrase.tokens, List.length_cons, List.length_append, List.cons_append,
    List.append_assoc] at hFuel ⊢
  obtain ⟨hKeyFits, hElemFits⟩ := hFits
  have hClosing : nextKind (closing.val :: (elem.tokens ++ more)) = .rbracket := closing.property
  obtain ⟨fuel, rfl⟩ : ∃ n, fuel = n + 1 := ⟨fuel - 1, by omega⟩
  obtain ⟨last, hRunKey⟩ := hKey s fuel (closing.val :: (elem.tokens ++ more))
    (by rw [hClosing]; exact hKeyFits) (by omega)
  obtain ⟨last', hRunElem⟩ := hElem s fuel more hElemFits (by omega)
  refine ⟨last', ?_⟩
  rw [goType_map s keyword.property, expect_bind _ _ _ _ (by exact opening.property),
    advance_bind, bind_of_ok hRunKey, expect_bind _ _ _ _ hClosing, advance_bind,
    bind_of_ok hRunElem]
  rfl

/-- The parameters of a function type are read up to what follows them. -/
theorem funcType_params (keyword : Token) (hParams : ReadAsTuple params) (s : State)
    (fuel : Nat) (more : List Token) (hFits : params.Fits)
    (hFuel : 4 * params.tokens.length ≤ fuel) :
    ∃ last, funcType (fuel + 1) (s.on (keyword :: (params.tokens ++ more))) =
      (peek >>= fun next =>
        if next.kind == .lparen then
          advance >>= fun _ => typesUntilParen fuel >>= fun results =>
            pure (.funcTo params.types (.tuple results))
        else if TokenKind.typeStarts.contains next.kind then
          advance >>= fun _ => goType fuel >>= fun result => pure (.funcTo params.types result)
        else pure (.func params.types)) (s.on (last :: more)) := by
  obtain ⟨last, hRun⟩ := hParams s fuel more hFits hFuel
  refine ⟨last, ?_⟩
  rw [funcType, expect_bind _ _ _ _ (params.nextKind_tokens more), bind_of_ok hRun]

/-- A function without results is read as its parameters. -/
theorem readAsType_func (keyword : Mark .kwFunc) (hParams : ReadAsTuple params) :
    ReadAsType (.func keyword params) := by
  intro s fuel more hFits hFuel
  simp only [TypePhrase.tokens, List.length_cons, List.cons_append] at hFuel ⊢
  obtain ⟨hParamsFit, hParen, hStart⟩ := hFits
  obtain ⟨fuel, rfl⟩ : ∃ n, fuel = n + 2 := ⟨fuel - 2, by omega⟩
  obtain ⟨last, hRun⟩ := funcType_params keyword.val hParams s fuel more hParamsFit (by omega)
  refine ⟨last, ?_⟩
  rw [goType_func s keyword.property, hRun, peek_bind, State.kind_peek_on_cons,
    if_neg (by simpa using hParen), if_neg (by simpa using hStart)]
  rfl

theorem readAsType_funcTo (keyword : Mark .kwFunc) (hParams : ReadAsTuple params)
    (hElem : ReadAsType elem) : ReadAsType (.funcTo keyword params elem) := by
  intro s fuel more hFits hFuel
  simp only [TypePhrase.tokens, List.length_cons, List.length_append, List.cons_append,
    List.append_assoc] at hFuel ⊢
  obtain ⟨hParamsFit, hVariadic, hElemFits⟩ := hFits
  obtain ⟨fuel, rfl⟩ : ∃ n, fuel = n + 2 := ⟨fuel - 2, by omega⟩
  obtain ⟨last, hRun⟩ := funcType_params keyword.val hParams s fuel (elem.tokens ++ more)
    hParamsFit (by omega)
  obtain ⟨last', hRunElem⟩ := hElem s fuel more hElemFits (by omega)
  have hStart := elem.nextKind_mem hVariadic more
  have hParen : nextKind (elem.tokens ++ more) ≠ .lparen :=
    elem.nextKind_ne (by decide) (by decide) more
  refine ⟨last', ?_⟩
  rw [goType_func s keyword.property, hRun, peek_bind, State.kind_peek_on_cons,
    if_neg (by simpa using hParen), if_pos (by simpa using hStart), advance_bind,
    bind_of_ok hRunElem]
  rfl

theorem readAsType_funcToTuple (keyword : Mark .kwFunc) (hParams : ReadAsTuple params)
    (hResults : ReadAsTuple results) : ReadAsType (.funcToTuple keyword params results) := by
  intro s fuel more hFits hFuel
  simp only [TypePhrase.tokens, List.length_cons, List.length_append, List.cons_append,
    List.append_assoc] at hFuel ⊢
  obtain ⟨fuel, rfl⟩ : ∃ n, fuel = n + 2 := ⟨fuel - 2, by omega⟩
  obtain ⟨last, hRun⟩ := funcType_params keyword.val hParams s fuel (results.tokens ++ more)
    hFits.1 (by omega)
  obtain ⟨last', hRunResults⟩ := hResults s fuel more hFits.2 (by omega)
  refine ⟨last', ?_⟩
  rw [goType_func s keyword.property, hRun, peek_bind, State.kind_peek_on_cons,
    if_pos (by simp [results.nextKind_tokens]), advance_bind, bind_of_ok hRunResults]
  rfl

theorem readAsTuple_empty (opening : Mark .lparen) (closing : Mark .rparen) :
    ReadAsTuple (.empty opening closing) := by
  intro s fuel more _ hFuel
  simp only [TuplePhrase.tokens, List.length_cons, List.length_nil, List.cons_append,
    List.nil_append] at hFuel ⊢
  obtain ⟨fuel, rfl⟩ : ∃ n, fuel = n + 1 := ⟨fuel - 1, by omega⟩
  refine ⟨closing.val, ?_⟩
  rw [typesUntilParen, peekIs_bind, State.kind_peek_on_cons, if_pos (by simp [closing.property])]
  rfl

theorem readAsTuple_full (opening : Mark .lparen) (closing : Mark .rparen)
    (hTypes : ReadAsTypes types) : ReadAsTuple (.full opening types closing) := by
  intro s fuel more hFits hFuel
  simp only [TuplePhrase.tokens, List.length_cons, List.length_append, List.length_nil,
    List.cons_append, List.nil_append, List.append_assoc] at hFuel ⊢
  have hClosing : nextKind (closing.val :: more) = .rparen := closing.property
  obtain ⟨fuel, rfl⟩ : ∃ n, fuel = n + 1 := ⟨fuel - 1, by omega⟩
  obtain ⟨last, hRun⟩ := hTypes s fuel opening.val (closing.val :: more) hFits hClosing (by omega)
  have hNext := types.nextKind_ne (by decide) (by decide : TokenKind.rparen ≠ .ellipsis)
    (closing.val :: more)
  refine ⟨closing.val, ?_⟩
  rw [typesUntilParen, peekIs_bind, State.kind_peek_on_cons, if_neg (by simpa using hNext),
    bind_of_ok hRun, expect_bind _ _ _ _ hClosing]
  rfl

theorem readAsTypes_last (hElem : ReadAsType elem) : ReadAsTypes (.last elem) := by
  intro s fuel token more hFits hNext hFuel
  simp only [TypesPhrase.tokens] at hFuel ⊢
  obtain ⟨fuel, rfl⟩ : ∃ n, fuel = n + 1 := ⟨fuel - 1, by omega⟩
  obtain ⟨last, hRun⟩ := hElem s fuel more (by rw [hNext]; exact hFits) (by omega)
  refine ⟨last, ?_⟩
  rw [typeList, advance_bind, bind_of_ok hRun, peekIs_bind, State.kind_peek_on_cons, hNext]
  rfl

theorem readAsTypes_more (comma : Mark .comma) (hElem : ReadAsType elem)
    (hTypes : ReadAsTypes types) : ReadAsTypes (.more elem comma types) := by
  intro s fuel token more hFits hNext hFuel
  simp only [TypesPhrase.tokens, List.length_append, List.length_cons, List.append_assoc,
    List.cons_append] at hFuel ⊢
  have hComma : nextKind (comma.val :: (types.tokens ++ more)) = .comma := comma.property
  obtain ⟨fuel, rfl⟩ : ∃ n, fuel = n + 1 := ⟨fuel - 1, by omega⟩
  obtain ⟨last, hRun⟩ := hElem s fuel (comma.val :: (types.tokens ++ more))
    (by rw [hComma]; exact hFits.1) (by omega)
  obtain ⟨last', hRunTypes⟩ := hTypes s fuel comma.val more hFits.2 hNext (by omega)
  refine ⟨last', ?_⟩
  rw [typeList, advance_bind, bind_of_ok hRun, peekIs_bind, State.kind_peek_on_cons,
    if_pos (by simp [hComma]), advance_bind, bind_of_ok hRunTypes]
  rfl

end Forwards

mutual

/-- Every type phrase is read where it fits. -/
theorem readAsType : (phrase : TypePhrase) → ReadAsType phrase
  | .named name => readAsType_named name
  | .qualified package dot name => readAsType_qualified package dot name
  | .pointer star elem => readAsType_pointer star (readAsType elem)
  | .variadic dots elem => readAsType_variadic dots (readAsType elem)
  | .slice opening closing elem => readAsType_slice opening closing (readAsType elem)
  | .array opening size hSize closing elem =>
      readAsType_array opening size hSize closing (readAsType elem)
  | .map keyword opening key closing value =>
      readAsType_map keyword opening closing (readAsType key) (readAsType value)
  | .chan keyword elem => readAsType_chan keyword (readAsType elem)
  | .receiveChan arrow keyword elem => readAsType_receiveChan arrow keyword (readAsType elem)
  | .interface keyword opening closing => readAsType_interface keyword opening closing
  | .struct keyword opening closing => readAsType_struct keyword opening closing
  | .func keyword params => readAsType_func keyword (readAsTuple params)
  | .funcTo keyword params result =>
      readAsType_funcTo keyword (readAsTuple params) (readAsType result)
  | .funcToTuple keyword params results =>
      readAsType_funcToTuple keyword (readAsTuple params) (readAsTuple results)

theorem readAsTuple : (phrase : TuplePhrase) → ReadAsTuple phrase
  | .empty opening closing => readAsTuple_empty opening closing
  | .full opening types closing => readAsTuple_full opening closing (readAsTypes types)

theorem readAsTypes : (phrase : TypesPhrase) → ReadAsTypes phrase
  | .last type => readAsTypes_last (readAsType type)
  | .more type comma rest => readAsTypes_more comma (readAsType type) (readAsTypes rest)

end

section Entries

variable (s : State) (more : List Token)

theorem readType_run (phrase : TypePhrase) (hFits : phrase.Fits (nextKind more)) :
    ∃ last, readType (s.on (phrase.tokens ++ more)) = .ok phrase.type (s.on (last :: more)) := by
  have hFuel : 4 * phrase.tokens.length ≤ typeFuel (phrase.tokens ++ more).length := by
    simp only [typeFuel, List.length_append]
    omega
  exact readAsType phrase s _ more hFits hFuel

theorem readResults_run (phrase : TuplePhrase) (hFits : phrase.Fits) :
    ∃ last, readResults (s.on (phrase.tokens ++ more)) =
      .ok (.tuple phrase.types) (s.on (last :: more)) := by
  have hFuel : 4 * phrase.tokens.length ≤ typeFuel (phrase.tokens ++ more).length := by
    simp only [typeFuel, List.length_append]
    omega
  obtain ⟨last, hRun⟩ := readAsTuple phrase s _ more hFits hFuel
  refine ⟨last, ?_⟩
  rw [readResults, tokensLeft_bind, State.rest_on, bind_of_ok hRun]
  rfl

end Entries

/-! ### From runs to phrases

A type is given up at the first report, so nothing has to be assumed about reports here. -/

/-- What a successful run of the type parser on some tokens comes to. -/
def ReadsType (s : State) (tokens : List Token) (type : GoType) (s' : State) : Prop :=
  ∃ (phrase : TypePhrase) (last : Token) (more : List Token),
    tokens = phrase.tokens ++ more ∧ s' = s.on (last :: more) ∧ type = phrase.type
      ∧ phrase.Fits (nextKind more)

def ReadsTuple (s : State) (tokens : List Token) (types : List GoType) (s' : State) : Prop :=
  ∃ (phrase : TuplePhrase) (last : Token) (more : List Token),
    tokens = phrase.tokens ++ more ∧ s' = s.on (last :: more) ∧ types = phrase.types
      ∧ phrase.Fits

/-- The last type of a list may be followed by anything but a comma; it fits if the list is
closed as it should. -/
def ReadsTypes (s : State) (tokens : List Token) (types : List GoType) (s' : State) : Prop :=
  ∃ (phrase : TypesPhrase) (last : Token) (more : List Token),
    tokens = phrase.tokens ++ more ∧ s' = s.on (last :: more) ∧ types = phrase.types
      ∧ (nextKind more = .rparen → phrase.Fits)

section Backwards

def TypeSound (fuel : Nat) : Prop :=
  ∀ (s : State) (tokens : List Token) (type : GoType) (s' : State),
    goType fuel (s.on tokens) = .ok type s' → ReadsType s tokens type s'

def FuncSound (fuel : Nat) : Prop :=
  ∀ (s : State) (keyword : Mark .kwFunc) (tokens : List Token) (type : GoType) (s' : State),
    funcType fuel (s.on (keyword.val :: tokens)) = .ok type s' →
    ReadsType s (keyword.val :: tokens) type s'

def TupleSound (fuel : Nat) : Prop :=
  ∀ (s : State) (opening : Mark .lparen) (tokens : List Token) (types : List GoType) (s' : State),
    typesUntilParen fuel (s.on (opening.val :: tokens)) = .ok types s' →
    ReadsTuple s (opening.val :: tokens) types s'

def TypesSound (fuel : Nat) : Prop :=
  ∀ (s : State) (token : Token) (tokens : List Token) (types : List GoType) (s' : State),
    typeList fuel (s.on (token :: tokens)) = .ok types s' → ReadsTypes s tokens types s'

variable {fuel : Nat}

theorem typesSound_succ (hType : TypeSound fuel) (hTypes : TypesSound fuel) :
    TypesSound (fuel + 1) := by
  intro s token tokens types s' hRun
  rw [typeList, advance_bind] at hRun
  obtain ⟨type, middle, hFirst, hRest⟩ := bind_ok hRun
  obtain ⟨phrase, last, more, rfl, rfl, rfl, hFits⟩ := hType s tokens type middle hFirst
  rw [peekIs_bind, State.kind_peek_on_cons] at hRest
  by_cases hComma : nextKind more = .comma
  · obtain ⟨comma, more, rfl⟩ := exists_mark_of_nextKind hComma (by decide)
    rw [if_pos (by simpa using hComma), advance_bind] at hRest
    obtain ⟨others, middle, hOthers, hRest⟩ := bind_ok hRest
    obtain ⟨others, last, more, rfl, rfl, rfl, hOthersFit⟩ :=
      hTypes s comma.val more others middle hOthers
    cases hRest
    rw [hComma] at hFits
    exact ⟨.more phrase comma others, last, more, by simp [TypesPhrase.tokens], rfl, rfl,
      fun hNext => ⟨hFits, hOthersFit hNext⟩⟩
  · rw [if_neg (by simpa using hComma)] at hRest
    cases hRest
    refine ⟨.last phrase, last, more, rfl, rfl, rfl, fun hNext => ?_⟩
    rw [hNext] at hFits
    exact hFits

theorem tupleSound_succ (hTypes : TypesSound fuel) : TupleSound (fuel + 1) := by
  intro s opening tokens types s' hRun
  rw [typesUntilParen, peekIs_bind, State.kind_peek_on_cons] at hRun
  by_cases hEmpty : nextKind tokens = .rparen
  · obtain ⟨closing, more, rfl⟩ := exists_mark_of_nextKind hEmpty (by decide)
    rw [if_pos (by simpa using hEmpty), advance_bind] at hRun
    cases hRun
    exact ⟨.empty opening closing, closing.val, more, rfl, rfl, rfl, trivial⟩
  · rw [if_neg (by simpa using hEmpty)] at hRun
    obtain ⟨types, middle, hList, hRest⟩ := bind_ok hRun
    obtain ⟨types, last, more, rfl, rfl, rfl, hFits⟩ :=
      hTypes s opening.val tokens types middle hList
    obtain ⟨_, middle, hExpect, hRest⟩ := bind_ok hRest
    obtain ⟨closing, more, rfl, rfl⟩ := expect_ok hExpect (by decide)
    cases hRest
    exact ⟨.full opening types closing, closing.val, more, by simp [TuplePhrase.tokens], rfl, rfl,
      hFits closing.property⟩

theorem funcSound_succ (hType : TypeSound fuel) (hTuple : TupleSound fuel) :
    FuncSound (fuel + 1) := by
  intro s keyword tokens type s' hRun
  rw [funcType] at hRun
  obtain ⟨_, middle, hExpect, hRest⟩ := bind_ok hRun
  obtain ⟨opening, more, rfl, rfl⟩ := expect_ok hExpect (by decide)
  obtain ⟨params, middle, hParams, hRest⟩ := bind_ok hRest
  obtain ⟨params, last, more, hTokens, rfl, rfl, hParamsFit⟩ :=
    hTuple s opening more params middle hParams
  rw [hTokens]
  rw [peek_bind, State.kind_peek_on_cons] at hRest
  by_cases hParen : nextKind more = .lparen
  · obtain ⟨opening', more, rfl⟩ := exists_mark_of_nextKind hParen (by decide)
    rw [if_pos (by simpa using hParen), advance_bind] at hRest
    obtain ⟨results, middle, hResults, hRest⟩ := bind_ok hRest
    obtain ⟨results, last, more, hTokens, rfl, rfl, hResultsFit⟩ :=
      hTuple s opening' more results middle hResults
    cases hRest
    rw [hTokens]
    exact ⟨.funcToTuple keyword params results, last, more, by simp [TypePhrase.tokens], rfl, rfl,
      hParamsFit, hResultsFit⟩
  rw [if_neg (by simpa using hParen)] at hRest
  by_cases hStart : nextKind more ∈ TokenKind.typeStarts
  · rw [if_pos (by simpa using hStart), advance_bind] at hRest
    obtain ⟨result, middle, hResult, hRest⟩ := bind_ok hRest
    obtain ⟨result, last, more, rfl, rfl, rfl, hResultFits⟩ := hType s more result middle hResult
    cases hRest
    refine ⟨.funcTo keyword params result, last, more, by simp [TypePhrase.tokens], rfl, rfl,
      hParamsFit, ?_, hResultFits⟩
    cases hVariadic : result.isVariadic with
    | false => rfl
    | true =>
        rw [result.nextKind_of_isVariadic hVariadic] at hStart
        exact absurd hStart (by decide)
  · rw [if_neg (by simpa using hStart)] at hRest
    cases hRest
    exact ⟨.func keyword params, last, more, by simp [TypePhrase.tokens], rfl, rfl, hParamsFit,
      hParen, hStart⟩

/-- A type that goes on in another one is read if the rest of it is. -/
theorem ReadsType.extend {s s' : State} {tokens : List Token} {type : GoType}
    (hReads : ReadsType s tokens type s') (heads : List Token)
    (wrap : GoType → GoType) (build : TypePhrase → TypePhrase)
    (hTokens : ∀ elem, (build elem).tokens = heads ++ elem.tokens)
    (hType : ∀ elem, (build elem).type = wrap elem.type)
    (hFits : ∀ elem next, elem.Fits next → (build elem).Fits next) :
    ReadsType s (heads ++ tokens) (wrap type) s' := by
  obtain ⟨elem, last, more, rfl, rfl, rfl, hElem⟩ := hReads
  exact ⟨build elem, last, more, by rw [hTokens, List.append_assoc], rfl, (hType elem).symm,
    hFits elem _ hElem⟩

variable {s s' : State} {token : Token} {rest : List Token} {type : GoType}

theorem typeSound_ident (hKind : token.kind = .ident)
    (hRun : goType (fuel + 1) (s.on (token :: rest)) = .ok type s') :
    ReadsType s (token :: rest) type s' := by
  by_cases hDot : nextKind rest = .dot
  · obtain ⟨dot, more, rfl⟩ := exists_mark_of_nextKind hDot (by decide)
    rw [goType_qualified s hKind hDot] at hRun
    obtain ⟨_, middle, hExpect, hRest⟩ := bind_ok hRun
    obtain ⟨name, more, rfl, rfl⟩ := expect_ok hExpect (by decide)
    cases hRest
    exact ⟨.qualified ⟨token, hKind⟩ dot name, name.val, more, rfl, rfl, rfl, trivial⟩
  · rw [goType_named s hKind hDot] at hRun
    cases hRun
    exact ⟨.named ⟨token, hKind⟩, token, rest, rfl, rfl, rfl, hDot⟩

theorem typeSound_bracket (hType : TypeSound fuel) (hKind : token.kind = .lbracket)
    (hRun : goType (fuel + 1) (s.on (token :: rest)) = .ok type s') :
    ReadsType s (token :: rest) type s' := by
  by_cases hSlice : nextKind rest = .rbracket
  · obtain ⟨closing, more, rfl⟩ := exists_mark_of_nextKind hSlice (by decide)
    rw [goType_slice s hKind] at hRun
    obtain ⟨elem, middle, hElem, hRest⟩ := bind_ok hRun
    cases hRest
    exact (hType s more elem _ hElem).extend [token, closing.val] .slice
      (.slice ⟨token, hKind⟩ closing) (fun _ => rfl) (fun _ => rfl) (fun _ _ hFits => hFits)
  · rw [goType_array s hKind hSlice, cur_bind] at hRun
    obtain ⟨_, middle, hExpect, hRest⟩ := bind_ok hRun
    cases rest with
    | nil => exact absurd hExpect (expect_nil (by decide))
    | cons size more =>
        obtain ⟨closing, more, rfl, rfl⟩ := expect_ok hExpect (by decide)
        rw [advance_bind] at hRest
        obtain ⟨elem, middle, hElem, hRest⟩ := bind_ok hRest
        cases hRest
        exact (hType s more elem _ hElem).extend [token, size, closing.val] (.array size)
          (.array ⟨token, hKind⟩ size hSlice closing) (fun _ => rfl) (fun _ => rfl)
          (fun _ _ hFits => hFits)

theorem typeSound_map (hType : TypeSound fuel) (hKind : token.kind = .kwMap)
    (hRun : goType (fuel + 1) (s.on (token :: rest)) = .ok type s') :
    ReadsType s (token :: rest) type s' := by
  rw [goType_map s hKind] at hRun
  obtain ⟨_, middle, hExpect, hRest⟩ := bind_ok hRun
  obtain ⟨opening, more, rfl, rfl⟩ := expect_ok hExpect (by decide)
  rw [advance_bind] at hRest
  obtain ⟨key, middle, hKey, hRest⟩ := bind_ok hRest
  obtain ⟨key, last, more, rfl, rfl, rfl, hKeyFits⟩ := hType s more key middle hKey
  obtain ⟨_, middle, hExpect, hRest⟩ := bind_ok hRest
  obtain ⟨closing, more, rfl, rfl⟩ := expect_ok hExpect (by decide)
  rw [advance_bind] at hRest
  obtain ⟨value, middle, hValue, hRest⟩ := bind_ok hRest
  obtain ⟨value, last, more, rfl, rfl, rfl, hValueFits⟩ := hType s more value middle hValue
  cases hRest
  rw [nextKind_cons, closing.property] at hKeyFits
  exact ⟨.map ⟨token, hKind⟩ opening key closing value, last, more, by simp [TypePhrase.tokens],
    rfl, rfl, hKeyFits, hValueFits⟩

theorem braces_ok {result : GoType}
    (hRun : (expect .lbrace >>= fun _ => expect .rbrace >>= fun _ => pure result)
      (s.on (token :: rest)) = .ok type s') :
    ∃ (opening : Mark .lbrace) (closing : Mark .rbrace) (more : List Token),
      rest = opening.val :: closing.val :: more ∧ type = result
        ∧ s' = s.on (closing.val :: more) := by
  obtain ⟨_, middle, hExpect, hRest⟩ := bind_ok hRun
  obtain ⟨opening, more, rfl, rfl⟩ := expect_ok hExpect (by decide)
  obtain ⟨_, middle, hExpect, hRest⟩ := bind_ok hRest
  obtain ⟨closing, more, rfl, rfl⟩ := expect_ok hExpect (by decide)
  cases hRest
  exact ⟨opening, closing, more, rfl, rfl, rfl⟩

theorem typeSound_succ (hType : TypeSound fuel) (hFunc : FuncSound fuel) :
    TypeSound (fuel + 1) := by
  intro s tokens type s' hRun
  cases tokens with
  | nil =>
      have hEof : TokenKind.eof ∉ TokenKind.typeStarts := by decide
      rw [goType_other (s := s.on []) hEof nofun] at hRun
      cases hRun
  | cons token rest =>
    by_cases hOther : token.kind ∉ TokenKind.typeStarts ∧ token.kind ≠ .ellipsis
    · rw [goType_other (s := s.on (token :: rest)) hOther.1 hOther.2] at hRun
      cases hRun
    have hKinds : token.kind = .ident ∨ token.kind = .asterisk ∨ token.kind = .ellipsis
        ∨ token.kind = .lbracket ∨ token.kind = .kwMap ∨ token.kind = .kwChan
        ∨ token.kind = .arrow ∨ token.kind = .kwInterface ∨ token.kind = .kwStruct
        ∨ token.kind = .kwFunc := by
      revert hOther
      cases token.kind <;> decide
    rcases hKinds with
      hKind | hKind | hKind | hKind | hKind | hKind | hKind | hKind | hKind | hKind
    · exact typeSound_ident hKind hRun
    · rw [goType_pointer s hKind] at hRun
      obtain ⟨elem, middle, hElem, hRest⟩ := bind_ok hRun
      cases hRest
      exact (hType s rest elem _ hElem).extend [token] .pointer (.pointer ⟨token, hKind⟩)
        (fun _ => rfl) (fun _ => rfl) (fun _ _ hFits => hFits)
    · rw [goType_variadic s hKind] at hRun
      obtain ⟨elem, middle, hElem, hRest⟩ := bind_ok hRun
      cases hRest
      exact (hType s rest elem _ hElem).extend [token] .variadic (.variadic ⟨token, hKind⟩)
        (fun _ => rfl) (fun _ => rfl) (fun _ _ hFits => hFits)
    · exact typeSound_bracket hType hKind hRun
    · exact typeSound_map hType hKind hRun
    · rw [goType_chan s hKind] at hRun
      obtain ⟨elem, middle, hElem, hRest⟩ := bind_ok hRun
      cases hRest
      exact (hType s rest elem _ hElem).extend [token] .chan (.chan ⟨token, hKind⟩)
        (fun _ => rfl) (fun _ => rfl) (fun _ _ hFits => hFits)
    · rw [goType_receiveChan s hKind] at hRun
      obtain ⟨_, middle, hExpect, hRest⟩ := bind_ok hRun
      obtain ⟨keyword, more, rfl, rfl⟩ := expect_ok hExpect (by decide)
      rw [advance_bind] at hRest
      obtain ⟨elem, middle, hElem, hRest⟩ := bind_ok hRest
      cases hRest
      exact (hType s more elem _ hElem).extend [token, keyword.val] .receiveChan
        (.receiveChan ⟨token, hKind⟩ keyword) (fun _ => rfl) (fun _ => rfl)
        (fun _ _ hFits => hFits)
    · rw [goType_interface s hKind] at hRun
      obtain ⟨opening, closing, more, rfl, rfl, rfl⟩ := braces_ok hRun
      exact ⟨.interface ⟨token, hKind⟩ opening closing, _, more, rfl, rfl, rfl, trivial⟩
    · rw [goType_struct s hKind] at hRun
      obtain ⟨opening, closing, more, rfl, rfl, rfl⟩ := braces_ok hRun
      exact ⟨.struct ⟨token, hKind⟩ opening closing, _, more, rfl, rfl, rfl, trivial⟩
    · rw [goType_func s hKind] at hRun
      exact hFunc s ⟨token, hKind⟩ rest type s' hRun

theorem type_sound_aux (fuel : Nat) :
    TypeSound fuel ∧ FuncSound fuel ∧ TupleSound fuel ∧ TypesSound fuel := by
  induction fuel with
  | zero =>
      exact ⟨by rintro _ _ _ _ ⟨⟩, by rintro _ _ _ _ _ ⟨⟩, by rintro _ _ _ _ _ ⟨⟩,
        by rintro _ _ _ _ _ ⟨⟩⟩
  | succ fuel ih =>
      obtain ⟨hType, hFunc, hTuple, hTypes⟩ := ih
      exact ⟨typeSound_succ hType hFunc, funcSound_succ hType hTuple, tupleSound_succ hTypes,
        typesSound_succ hType hTypes⟩

/-- What is read as a type is a type phrase that fits. -/
theorem readType_ok {s s' : State} {tokens : List Token} {type : GoType}
    (hRun : readType (s.on tokens) = .ok type s') : ReadsType s tokens type s' :=
  (type_sound_aux _).1 s tokens type s' hRun

theorem readResults_ok {s s' : State} {opening : Mark .lparen} {tokens : List Token}
    {type : GoType} (hRun : readResults (s.on (opening.val :: tokens)) = .ok type s') :
    ∃ types, type = .tuple types ∧ ReadsTuple s (opening.val :: tokens) types s' := by
  rw [readResults, tokensLeft_bind] at hRun
  obtain ⟨types, middle, hTypes, hRest⟩ := bind_ok hRun
  cases hRest
  exact ⟨types, rfl, (type_sound_aux _).2.2.1 s opening tokens types _ hTypes⟩

end Backwards

/-- None of the four mutually recursive functions is abandoned without a report. -/
theorem explains_type_aux (fuel : Nat) :
    Explains (goType fuel) ∧ Explains (funcType fuel) ∧ Explains (typesUntilParen fuel)
      ∧ Explains (typeList fuel) := by
  induction fuel with
  | zero =>
      exact ⟨explains_outOfFuel, explains_outOfFuel, explains_outOfFuel, explains_outOfFuel⟩
  | succ fuel ih =>
      obtain ⟨_, _, _, _⟩ := ih
      refine ⟨?_, ?_, ?_, ?_⟩
      · exact Explains.bind inferInstance fun token => by split <;> infer_instance
      · rw [funcType]
        infer_instance
      · rw [typesUntilParen]
        infer_instance
      · rw [typeList]
        infer_instance

instance : Explains readType :=
  Explains.bind inferInstance fun _ => (explains_type_aux _).1

instance : Explains readResults :=
  Explains.bind inferInstance fun _ => Explains.bind (explains_type_aux _).2.2.1 inferInstance

end TryGo.Parse
