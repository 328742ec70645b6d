import TryGo.Proofs.GoReading.Meaning
import TryGo.Proofs.GoType.Results
import TryGo.Proofs.Parse.Type
import TryGo.Proofs.Token.Apart

/-! The zero value of a type. It is chosen by the text of the type, whose beginning has to tell the
forms apart. The beginning does so with two exceptions: it takes a name for an interface if the
name only begins like one, and an array for a slice if nothing stands between the brackets. -/
namespace TryGo

def GoType.numeric : List String :=
  ["uint8", "uint16", "uint32", "uint64", "int8", "int16", "int32", "int64", "float32", "float64",
    "complex64", "complex128", "byte", "rune", "uint", "int", "uintptr"]

/-- An expression for the zero value of a type, by its form. -/
def GoType.zero : GoType → String
  | .named name =>
      if name ∈ GoType.numeric then "0"
      else if name = "string" then "\"\""
      else if name = "bool" then "false"
      else if name ∈ ["error", "any"] then "nil"
      else "*new(" ++ name ++ ")"
  | .pointer _ | .slice _ | .map _ _ | .chan _ | .receiveChan _ | .func _ | .funcTo _ _
  | .interface => "nil"
  | type => "*new(" ++ type.text ++ ")"

/-- Whether the text of a type begins like that of a type whose zero value is nil, although its own
is not: a name that begins with the keyword of interfaces, and an array whose size leaves the
brackets empty. -/
def GoType.looksNil : GoType → Bool
  | .named name | .qualified name _ => "interface".toList.isPrefixOf name.toList
  | .array size _ => [']'].isPrefixOf (size.literal.toList ++ [']'])
  | _ => false

/-! ### Texts and their beginnings -/

/-- The types that are recognised by their whole text. -/
def predeclared : List String := numericTypes ++ ["string", "bool", errorType, "any"]

theorem isWordChar_of_mem_predeclared {text : String} (hMem : text ∈ predeclared) :
    ∀ c ∈ text.toList, isWordChar c = true := by
  have hTable : ∀ text ∈ predeclared, text.toList.all isWordChar = true := by decide
  exact List.all_eq_true.mp (hTable text hMem)

/-- Whether a text begins like a type whose zero value is nil. -/
def startsNil (text : String) : Bool :=
  nilPrefixes.any fun start => start.toList.isPrefixOf text.toList

/-- A text that is none of the predeclared types is told by its beginning. -/
theorem zeroValue_of_not_mem {text : String} (hOther : text ∉ predeclared) :
    zeroValue text = if startsNil text then "nil" else "*new(" ++ text ++ ")" := by
  simp only [predeclared, List.mem_append, List.mem_cons, List.not_mem_nil, or_false, not_or]
    at hOther
  obtain ⟨hNumeric, hString, hBool, hError, hAny⟩ := hOther
  rw [zeroValue, if_neg (by simpa using hNumeric), if_neg (by simpa using hString),
    if_neg (by simpa using hBool), beq_eq_false_iff_ne.mpr hError, beq_eq_false_iff_ne.mpr hAny,
    Bool.false_or, Bool.false_or]
  rfl

/-- So is a text with a character that no word has. -/
theorem zeroValue_of_mark {text : String} {c : Char} (hMem : c ∈ text.toList)
    (hMark : isWordChar c = false) :
    zeroValue text = if startsNil text then "nil" else "*new(" ++ text ++ ")" := by
  refine zeroValue_of_not_mem fun hPredeclared => ?_
  have hWord := isWordChar_of_mem_predeclared hPredeclared c hMem
  rw [hMark] at hWord
  cases hWord

/-- All beginnings but the keyword of interfaces have a character that no name has. -/
theorem exists_mark_of_mem {start : String} (hMem : start ∈ nilPrefixes.dropLast) :
    ∃ c ∈ start.toList, isWordChar c = false ∧ c ≠ '.' := by
  have hTable : ∀ start ∈ nilPrefixes.dropLast,
      (start.toList.any fun c => !isWordChar c && c != '.') = true := by decide
  obtain ⟨c, hChar, hMark⟩ := List.any_eq_true.mp (hTable start hMem)
  rw [Bool.and_eq_true, Bool.not_eq_true', bne_iff_ne] at hMark
  exact ⟨c, hChar, hMark⟩

/-- A text with such a beginning has nil for its zero value. -/
theorem zeroValue_of_start {start : String} (hMem : start ∈ nilPrefixes.dropLast) (rest : String) :
    zeroValue (start ++ rest) = "nil" := by
  obtain ⟨c, hChar, hMark, -⟩ := exists_mark_of_mem hMem
  have hStarts : startsNil (start ++ rest) = true := by
    refine List.any_eq_true.mpr ⟨start, List.dropLast_subset _ hMem, ?_⟩
    rw [List.isPrefixOf_iff_prefix, String.toList_append]
    exact List.prefix_append _ _
  rw [zeroValue_of_mark (by simp [hChar]) hMark, hStarts]
  rfl

/-- Of names, with a dot between them or without, only those that begin like an interface begin
like a type whose zero value is nil. -/
theorem startsNil_of_plain {text : String}
    (hPlain : ∀ c ∈ text.toList, isWordChar c = true ∨ c = '.') :
    startsNil text = "interface".toList.isPrefixOf text.toList := by
  have hNone : nilPrefixes.dropLast.any (fun start => start.toList.isPrefixOf text.toList)
      = false := by
    refine List.any_eq_false.mpr fun start hMem hStarts => ?_
    obtain ⟨c, hChar, hMark, hDot⟩ := exists_mark_of_mem hMem
    rcases hPlain c ((List.isPrefixOf_iff_prefix.mp hStarts).subset hChar) with hWord | hEq
    · rw [hMark] at hWord
      cases hWord
    · exact hDot hEq
  have hSplit : nilPrefixes = nilPrefixes.dropLast ++ ["interface"] := rfl
  rw [startsNil, hSplit, List.any_append, hNone, Bool.false_or, List.any_cons, List.any_nil,
    Bool.or_false]

theorem startsNil_name {name : String} (hName : isName name = true) :
    startsNil name = "interface".toList.isPrefixOf name.toList :=
  startsNil_of_plain fun c hMem => .inl (isWordChar_of_isName hName c hMem)

/-- The dot behind a package is no part of the keyword of interfaces. -/
theorem startsNil_qualified {package name : String} (hPackage : isName package = true)
    (hName : isName name = true) :
    startsNil (GoType.qualified package name).text
      = "interface".toList.isPrefixOf package.toList := by
  have hText : (GoType.qualified package name).text.toList
      = package.toList ++ '.' :: name.toList := by simp [GoType.text]
  rw [startsNil_of_plain, hText]
  · rw [Bool.eq_iff_iff, List.isPrefixOf_iff_prefix, List.isPrefixOf_iff_prefix]
    exact ⟨fun hStarts => isPrefix_of_not_mem hStarts (by decide),
      fun hStarts => hStarts.trans (List.prefix_append _ _)⟩
  · intro c hMem
    rw [hText, List.mem_append, List.mem_cons] at hMem
    rcases hMem with hMem | rfl | hMem
    · exact .inl (isWordChar_of_isName hPackage c hMem)
    · exact .inr rfl
    · exact .inl (isWordChar_of_isName hName c hMem)

theorem startsNil_array (size : Token) (elem : GoType) :
    startsNil (GoType.array size elem).text = (GoType.array size elem).looksNil := by
  have hText : (GoType.array size elem).text.toList
      = '[' :: (size.literal.toList ++ ']' :: elem.text.toList) := by simp [GoType.text]
  rw [startsNil, hText, GoType.looksNil]
  cases size.literal.toList <;> simp [nilPrefixes, List.isPrefixOf]

/-! ### The zero value by the form of the type -/

theorem GoType.zero_of_not_mem {name : String}
    (hOther : name ∉ GoType.numeric ++ ["string", "bool", "error", "any"]) :
    (GoType.named name).zero = "*new(" ++ name ++ ")" := by
  simp only [List.mem_append, List.mem_cons, List.not_mem_nil, or_false, not_or] at hOther
  obtain ⟨hNumeric, hString, hBool, hError, hAny⟩ := hOther
  rw [GoType.zero, if_neg hNumeric, if_neg hString, if_neg hBool, if_neg (by simp [hError, hAny])]

/-- A name has the zero value that its form asks for, unless it begins like an interface. -/
theorem zeroValue_name {name : String} (hName : isName name = true) :
    zeroValue name = if (GoType.named name).looksNil then "nil" else (GoType.named name).zero := by
  by_cases hMem : name ∈ predeclared
  · have hTable : ∀ text ∈ predeclared, zeroValue text =
        if (GoType.named text).looksNil then "nil" else (GoType.named text).zero := by decide
    exact hTable name hMem
  · have hListed : ∀ text ∈ GoType.numeric ++ ["string", "bool", "error", "any"],
        text ∈ predeclared := by decide
    rw [zeroValue_of_not_mem hMem, startsNil_name hName,
      GoType.zero_of_not_mem fun hOther => hMem (hListed name hOther)]
    rfl

/-- A type that only looks like one with nil for its zero value has another. -/
theorem GoType.zero_of_looksNil {type : GoType} (hLooks : type.looksNil = true) :
    type.zero = "*new(" ++ type.text ++ ")" := by
  cases type with
  | named name =>
      have hTable : ∀ text ∈ GoType.numeric ++ ["string", "bool", "error", "any"],
          (GoType.named text).looksNil = false := by decide
      refine GoType.zero_of_not_mem fun hListed => ?_
      rw [hTable name hListed] at hLooks
      cases hLooks
  | qualified | array => rfl
  | _ => cases hLooks

/-- The zero value of a type phrase. -/
theorem TypePhrase.zeroValue_text (phrase : TypePhrase) (hLexed : AllLexed phrase.tokens)
    (hSingle : phrase.isVariadic = false) :
    zeroValue phrase.type.text
      = if phrase.type.looksNil then "nil" else phrase.type.zero := by
  cases phrase with
  | named name =>
      exact zeroValue_name (isName_mark name (hLexed _ (List.mem_singleton.mpr rfl)))
  | qualified package dot name =>
      have hDot : '.' ∈ (GoType.qualified package.val.literal name.val.literal).text.toList := by
        simp [GoType.text]
      have hPackage := isName_mark package (hLexed _ (by simp [TypePhrase.tokens]))
      have hName := isName_mark name (hLexed _ (by simp [TypePhrase.tokens]))
      rw [TypePhrase.type, zeroValue_of_mark hDot (by decide),
        startsNil_qualified hPackage hName]
      rfl
  | array opening size hSize closing elem =>
      have hBracket : '[' ∈ (GoType.array size elem.type).text.toList := by simp [GoType.text]
      rw [TypePhrase.type, zeroValue_of_mark hBracket (by decide), startsNil_array]
      rfl
  | struct | interface =>
      rw [TypePhrase.type]
      decide
  | variadic => cases hSingle
  | pointer | slice | chan | receiveChan => exact zeroValue_of_start (by decide) _
  | map | func | funcTo | funcToTuple =>
      simp only [TypePhrase.type, GoType.text, String.append_assoc]
      exact zeroValue_of_start (by decide) _

/-- The zero value of every type that is read, but a variadic one, is the one of its form, unless
the type only looks like one with nil for its zero value. Then nil is taken for it, although its
form asks for a new value. -/
theorem zeroValue_of_read {source : String} {fuel : Nat} {s s' : Parse.State} {type : GoType}
    (hRest : s.cursor.rest <:+ (Lexer.ofString source).words)
    (hRun : Parse.goType fuel s = .ok type s') (hSingle : ∀ elem, type ≠ .variadic elem) :
    zeroValue type.text = (if type.looksNil then "nil" else type.zero)
      ∧ (type.looksNil = true → type.zero = "*new(" ++ type.text ++ ")") := by
  obtain ⟨phrase, last, more, hTokens, -, rfl, -⟩ :=
    (Parse.type_sound_aux fuel).1 s s.cursor.rest type s' hRun
  have hLexed : AllLexed phrase.tokens := fun token hMem =>
    (Lexer.ofString source).lexed token
      (hRest.subset (hTokens ▸ List.mem_append_left more hMem))
  refine ⟨phrase.zeroValue_text hLexed ?_, GoType.zero_of_looksNil⟩
  cases phrase with
  | variadic dots elem => exact absurd rfl (hSingle elem.type)
  | _ => rfl

def typeStart (source : String) : Parse.State := .init (.ofLexer (.ofString source))

/-- The zero value of an array is a new one, whatever its elements are. -/
theorem zeroValue_of_read_array :
    ∃ type s', Parse.goType 9 (typeStart "[8]map[k]func(...int) (a, error)") = .ok type s'
      ∧ (∀ elem, type ≠ .variadic elem)
      ∧ zeroValue type.text = "*new([8]map[k]func(...int) (a, error))" := by
  obtain ⟨type, s', hRun, hRead⟩ := Parse.exists_run_of_test (Parse.goType 9)
    (typeStart "[8]map[k]func(...int) (a, error)")
    (fun type _ => !type.isVariadic && (!type.looksNil
      && type.zero == "*new([8]map[k]func(...int) (a, error))")) (by decide +kernel)
  obtain ⟨hVariadic, hKnown⟩ := Bool.and_eq_true_iff.mp hRead
  obtain ⟨hLooks, hZero⟩ := Bool.and_eq_true_iff.mp hKnown
  rw [Bool.not_eq_true'] at hLooks
  have hSingle : ∀ elem, type ≠ .variadic elem := by
    rintro elem rfl
    cases hVariadic
  refine ⟨type, s', hRun, hSingle, ?_⟩
  rw [(zeroValue_of_read (List.suffix_refl _) hRun hSingle).1, hLooks]
  exact beq_iff_eq.mp hZero

/-- A name is taken for an interface if it begins like one. -/
theorem zeroValue_interfaceX :
    ∃ type s', Parse.goType 9 (typeStart "interfaceX") = .ok type s'
      ∧ type = .named "interfaceX" ∧ zeroValue type.text = "nil"
      ∧ type.zero = "*new(interfaceX)" := by
  obtain ⟨type, s', hRun, hRead⟩ := Parse.exists_run_of_test (Parse.goType 9)
    (typeStart "interfaceX")
    (fun type _ => match type with
      | .named name => name == "interfaceX"
      | _ => false) (by decide +kernel)
  cases type with
  | named name =>
      obtain rfl : name = "interfaceX" := beq_iff_eq.mp hRead
      exact ⟨_, s', hRun, rfl, by decide, by decide⟩
  | _ => cases hRead

end TryGo
