import TryGo.GoType.Results
import TryGo.Proofs.Token.Literal
import TryGo.Proofs.Written.Type

/-! Declared results as lists of types. A result is kept as one text, which is cut into types
again where they are needed. For the text of a documented result the cuts fall where they
should, also after an error was added to it. -/
namespace TryGo

/-- The types that a result declares. A list of results declares its members, any other type
itself. -/
def GoType.resultTypes : GoType → List GoType
  | .tuple types => types
  | type => [type]

/-- Whether the text of a result declares some types. An absent result declares none. -/
def DeclaresResults : Option String → List String → Prop
  | none, results => results = []
  | some text, results =>
      ∃ type : GoType, type.Documented .result ∧ type.text = text
        ∧ GoType.texts type.resultTypes = results

/-! ### Forms in any place -/

mutual

/-- Whether a type is put together from the documented forms, wherever in it they stand: its names
are names, and the sizes of its arrays are integers or names. -/
def GoType.Formed : GoType → Prop
  | .named name => isName name = true
  | .qualified package name => isName package = true ∧ isName name = true
  | .pointer elem | .variadic elem | .slice elem | .chan elem | .receiveChan elem => elem.Formed
  | .array size elem =>
      (size.kind = .int ∧ isNumber .int size.literal = true
        ∨ size.kind = .ident ∧ isName size.literal = true) ∧ elem.Formed
  | .map key value => key.Formed ∧ value.Formed
  | .interface | .struct => True
  | .func params => GoType.AllFormed params
  | .funcTo params result => GoType.AllFormed params ∧ result.Formed
  | .tuple types => GoType.AllFormed types

def GoType.AllFormed : List GoType → Prop
  | [] => True
  | type :: types => type.Formed ∧ GoType.AllFormed types

end

mutual

/-- A documented type is formed of names and numbers. -/
theorem GoType.Documented.formed : {type : GoType} → {place : TypePlace} →
    type.Documented place → type.Formed
  | .named _, _, hForm | .qualified _ _, _, hForm => hForm
  | .pointer elem, _, hForm | .slice elem, _, hForm | .chan elem, _, hForm
  | .receiveChan elem, _, hForm =>
      have hElem : elem.Documented .inner := hForm
      hElem.formed
  | .variadic _, _, hForm => hForm.2.formed
  | .array _ _, _, hForm => ⟨hForm.1, hForm.2.formed⟩
  | .map _ _, _, hForm => ⟨hForm.1.formed, hForm.2.formed⟩
  | .interface, _, _ | .struct, _, _ => trivial
  | .func _, _, hForm => GoType.AllDocumented.formed hForm
  | .funcTo _ _, _, hForm => ⟨GoType.AllDocumented.formed hForm.1, hForm.2.formed⟩
  | .tuple _, _, hForm => GoType.AllDocumented.formed hForm.2

theorem GoType.AllDocumented.formed : {types : List GoType} → {place : TypePlace} →
    GoType.AllDocumented place types → GoType.AllFormed types
  | [], _, _ => trivial
  | _ :: _, _, hForms => ⟨hForms.1.formed, GoType.AllDocumented.formed hForms.2⟩

end

/-- Types are formed if each of them is. -/
theorem GoType.allFormed_iff {types : List GoType} :
    GoType.AllFormed types ↔ ∀ type ∈ types, type.Formed := by
  induction types with
  | nil => simp [GoType.AllFormed]
  | cons type types ih => rw [GoType.AllFormed, ih, List.forall_mem_cons]

/-! ### Cutting at commas -/

/-- Whether cutting goes through a text without a cut where the brackets around it are at least
so deep. -/
def Uncut (least : Int) (chars : List Char) : Prop :=
  ∀ depth, least ≤ depth → ∀ part rest,
    cutAtCommas depth part (chars ++ rest) = cutAtCommas depth (chars.reverse ++ part) rest

section Cutting

variable {least : Int} {chars front back : List Char}

theorem uncut_nil : Uncut least [] := fun _ _ _ _ => rfl

/-- Texts in a row are not cut if neither of them is. -/
theorem Uncut.append (hFront : Uncut least front) (hBack : Uncut least back) :
    Uncut least (front ++ back) := by
  intro depth hDepth part rest
  rw [List.append_assoc, hFront depth hDepth, hBack depth hDepth, List.reverse_append,
    List.append_assoc]

/-- A text that is not cut from some depth on is not cut from a deeper one on. -/
theorem Uncut.mono {deeper : Int} (hUncut : Uncut least chars) (hLeast : least ≤ deeper) :
    Uncut deeper chars := fun depth hDepth => hUncut depth (Int.le_trans hLeast hDepth)

/-- The characters that cutting looks at. -/
def cutChars : List Char := ['(', '[', '{', ')', ']', '}', ',']

def isUncutChar (c : Char) : Bool := !cutChars.contains c

/-- A character that is no bracket or comma is taken as it stands. -/
theorem cutAtCommas_plain {c : Char} (hPlain : isUncutChar c = true) (depth : Int)
    (part rest : List Char) :
    cutAtCommas depth part (c :: rest) = cutAtCommas depth (c :: part) rest := by
  simp only [isUncutChar, cutChars, List.contains_cons, List.contains_nil, Bool.or_false,
    Bool.not_eq_true', Bool.or_eq_false_iff, beq_eq_false_iff_ne] at hPlain
  obtain ⟨h1, h2, h3, h4, h5, h6, h7⟩ := hPlain
  rw [cutAtCommas]
  simp [h1, h2, h3, h4, h5, h6, h7]

/-- A text without brackets and commas is not cut at any depth. -/
theorem uncut_of_plain (hPlain : chars.all isUncutChar = true) : Uncut least chars := by
  induction chars with
  | nil => exact uncut_nil
  | cons c chars ih =>
      rw [List.all_cons, Bool.and_eq_true] at hPlain
      intro depth hDepth part rest
      rw [List.cons_append, cutAtCommas_plain hPlain.1, ih hPlain.2 depth hDepth,
        List.reverse_cons, List.append_assoc]
      rfl

/-- A comma inside brackets cuts nothing. -/
theorem uncut_comma : Uncut 1 [','] := by
  intro depth hDepth part rest
  have hInside : (depth == 0) = false := by
    rw [beq_eq_false_iff_ne]
    omega
  rw [List.singleton_append, cutAtCommas]
  simp [hInside]

/-- In brackets only the inside of a text matters, and there it may have commas. -/
theorem Uncut.bracketed {opening closing : Char} (hInside : Uncut 1 chars)
    (hPair : (opening, closing) ∈ [('(', ')'), ('[', ']'), ('{', '}')]) :
    Uncut 0 (opening :: (chars ++ [closing])) := by
  intro depth hDepth part rest
  have hOpening (after : List Char) :
      cutAtCommas depth part (opening :: after) =
        cutAtCommas (depth + 1) (opening :: part) after := by
    rw [cutAtCommas]
    simp only [List.mem_cons, Prod.mk.injEq, List.not_mem_nil, or_false] at hPair
    rcases hPair with ⟨rfl, rfl⟩ | ⟨rfl, rfl⟩ | ⟨rfl, rfl⟩ <;> rfl
  have hClosing (inside : List Char) :
      cutAtCommas (depth + 1) inside (closing :: rest) =
        cutAtCommas depth (closing :: inside) rest := by
    rw [cutAtCommas]
    simp only [List.mem_cons, Prod.mk.injEq, List.not_mem_nil, or_false] at hPair
    rcases hPair with ⟨rfl, rfl⟩ | ⟨rfl, rfl⟩ | ⟨rfl, rfl⟩ <;> simp
  rw [List.cons_append, List.append_assoc, hOpening, hInside (depth + 1) (by omega),
    List.singleton_append, hClosing]
  simp

end Cutting

/-! ### The texts of types are not cut -/

theorem isUncutChar_of_isNumberChar {c : Char} (hChar : Lexeme.isNumberChar c = true) :
    isUncutChar c = true := by
  have hTable : (cutChars.all fun d => !Lexeme.isNumberChar d) = true := by decide
  rw [isUncutChar, Bool.not_eq_true', ← Bool.not_eq_true, List.contains_iff_mem]
  intro hMem
  have hOther := List.all_eq_true.mp hTable c hMem
  rw [hChar] at hOther
  cases hOther

theorem isWordChar_of_isName {name : String} (hName : isName name = true) :
    ∀ c ∈ name.toList, isWordChar c = true := by
  obtain ⟨hWord, -⟩ : isWord name.toList = true ∧ TokenKind.ofWord name = .ident := by
    simpa [isName] using hName
  cases hChars : name.toList with
  | nil => exact fun c hMem => absurd hMem List.not_mem_nil
  | cons d tail =>
      rw [hChars] at hWord
      simp only [isWord, Bool.and_eq_true, List.all_eq_true] at hWord
      rw [List.forall_mem_cons]
      exact ⟨Lexeme.isWordChar_of_isWordStart hWord.1, hWord.2⟩

/-- A name is not cut at any depth. -/
theorem uncut_name {name : String} (hName : isName name = true) (least : Int) :
    Uncut least name.toList := by
  refine uncut_of_plain (List.all_eq_true.mpr fun c hMem => isUncutChar_of_isNumberChar ?_)
  rw [Lexeme.isNumberChar, isWordChar_of_isName hName c hMem, Bool.true_or]

/-- A number is not cut at any depth. -/
theorem uncut_number {kind : TokenKind} {literal : String} (hNumber : isNumber kind literal = true)
    (least : Int) : Uncut least literal.toList := by
  simp only [isNumber, Bool.and_eq_true, beq_iff_eq] at hNumber
  refine uncut_of_plain (List.all_eq_true.mpr fun c hMem => isUncutChar_of_isNumberChar ?_)
  refine Lexeme.isNumberChar_number literal.toList c ?_
  rw [hNumber.2]
  exact hMem

/-- A word of the language has no character that cutting looks at. -/
theorem uncut_word (chars : List Char) (hPlain : chars.all isUncutChar = true) {rest : List Char}
    (hRest : Uncut 0 rest) : Uncut 0 (chars ++ rest) :=
  (uncut_of_plain hPlain).append hRest

mutual

/-- The text of a type is not cut. -/
theorem GoType.uncut_text : (type : GoType) → type.Formed → Uncut 0 type.text.toList
  | .named _, hForm => uncut_name hForm 0
  | .qualified package name, hForm => by
      rw [GoType.text, String.toList_append, String.toList_append]
      exact ((uncut_name hForm.1 0).append (uncut_of_plain (by decide))).append
        (uncut_name hForm.2 0)
  | .pointer elem, hForm | .variadic elem, hForm | .chan elem, hForm
  | .receiveChan elem, hForm => by
      rw [GoType.text, String.toList_append]
      exact uncut_word _ (by decide) (elem.uncut_text hForm)
  | .slice elem, hForm => by
      rw [GoType.text, String.toList_append]
      exact (uncut_nil.bracketed (by decide)).append (elem.uncut_text hForm)
  | .array size elem, hForm => by
      have hSize : Uncut 1 size.literal.toList := by
        rcases hForm.1 with ⟨-, hNumber⟩ | ⟨-, hName⟩
        · exact uncut_number hNumber 1
        · exact uncut_name hName 1
      have hText : (GoType.array size elem).text.toList =
          '[' :: (size.literal.toList ++ [']']) ++ elem.text.toList := by simp [GoType.text]
      rw [hText]
      exact (hSize.bracketed (by decide)).append (elem.uncut_text hForm.2)
  | .map key value, hForm => by
      have hText : (GoType.map key value).text.toList =
          "map".toList ++ ('[' :: (key.text.toList ++ [']']) ++ value.text.toList) := by
        simp [GoType.text]
      rw [hText]
      exact uncut_word _ (by decide)
        ((((key.uncut_text hForm.1).mono (by decide)).bracketed (by decide)).append
          (value.uncut_text hForm.2))
  | .interface, _ =>
      uncut_word "interface".toList (by decide) (uncut_nil.bracketed (by decide))
  | .struct, _ => uncut_word "struct".toList (by decide) (uncut_nil.bracketed (by decide))
  | .func params, hForm => by
      have hText : (GoType.func params).text.toList = "func".toList
          ++ '(' :: ((Text.commaSeparated (GoType.texts params)).toList ++ [')']) := by
        simp [GoType.text]
      rw [hText]
      exact uncut_word _ (by decide) ((GoType.uncut_texts params hForm).bracketed (by decide))
  | .funcTo params result, hForm => by
      have hText : (GoType.funcTo params result).text.toList = "func".toList
          ++ ('(' :: ((Text.commaSeparated (GoType.texts params)).toList ++ [')'])
            ++ ([' '] ++ result.text.toList)) := by
        simp [GoType.text]
      rw [hText]
      exact uncut_word _ (by decide)
        (((GoType.uncut_texts params hForm.1).bracketed (by decide)).append
          (uncut_word _ (by decide) (result.uncut_text hForm.2)))
  | .tuple types, hForm => by
      have hText : (GoType.tuple types).text.toList =
          '(' :: ((Text.commaSeparated (GoType.texts types)).toList ++ [')']) := by
        simp [GoType.text]
      rw [hText]
      exact (GoType.uncut_texts types hForm).bracketed (by decide)

/-- Inside brackets the texts of types with commas between them are not cut either. -/
theorem GoType.uncut_texts : (types : List GoType) → GoType.AllFormed types →
    Uncut 1 (Text.commaSeparated (GoType.texts types)).toList
  | [], _ => uncut_nil
  | [type], hForms => (type.uncut_text hForms.1).mono (by decide)
  | type :: next :: types, hForms => by
      have hText : (Text.commaSeparated (GoType.texts (type :: next :: types))).toList =
          type.text.toList ++ ([','] ++ ([' ']
            ++ (Text.commaSeparated (GoType.texts (next :: types))).toList)) := by
        simp [Text.commaSeparated, GoType.texts]
      rw [hText]
      exact ((type.uncut_text hForms.1).mono (by decide)).append (uncut_comma.append
        ((uncut_of_plain (by decide)).append (GoType.uncut_texts (next :: types) hForms.2)))

end

/-! ### The texts of types have no white space around them -/

/-- Whether a text starts with something other than white space. -/
def StartsSolid (chars : List Char) : Prop := ∃ c, chars.head? = some c ∧ Text.isSpace c = false

/-- Whether a text ends with something other than white space. -/
def EndsSolid (chars : List Char) : Prop :=
  ∃ front c, chars = front ++ [c] ∧ Text.isSpace c = false

/-- What ends solidly does so behind anything. -/
theorem EndsSolid.append {back : List Char} (hBack : EndsSolid back) (front : List Char) :
    EndsSolid (front ++ back) := by
  obtain ⟨inner, c, rfl, hSolid⟩ := hBack
  exact ⟨front ++ inner, c, (List.append_assoc front inner [c]).symm, hSolid⟩

/-- Nothing is trimmed from a solid end. -/
theorem trimRight_of_solid {chars : List Char} (hEnds : EndsSolid chars) :
    Text.trimRight chars = chars := by
  obtain ⟨front, c, rfl, hSolid⟩ := hEnds
  rw [Text.trimRight, List.reverse_append, List.reverse_singleton, List.singleton_append,
    List.dropWhile_cons, hSolid]
  simp

/-- Nothing is trimmed between two solid ends. -/
theorem trim_of_solid {chars : List Char} (hStarts : StartsSolid chars) (hEnds : EndsSolid chars) :
    Text.trim chars = chars := by
  have hLeft : chars.dropWhile Text.isSpace = chars := by
    obtain ⟨c, hHead, hSolid⟩ := hStarts
    obtain ⟨rest, rfl⟩ := List.head?_eq_some_iff.mp hHead
    rw [List.dropWhile_cons, hSolid]
    rfl
  rw [Text.trim, hLeft, trimRight_of_solid hEnds]

/-- A space in front is trimmed away. -/
theorem trim_space (chars : List Char) : Text.trim (' ' :: chars) = Text.trim chars := by
  rw [Text.trim, List.dropWhile_cons, if_pos (by decide), Text.trim]

theorem isSpace_of_isWordChar {c : Char} (hWord : isWordChar c = true) :
    Text.isSpace c = false := by
  have hRange : 48 ≤ c.toNat ∧ c.toNat ≤ 122 := by
    simp only [isWordChar, Char.isAlphanum, isAlpha_eq, Char.isDigit, Bool.or_eq_true,
      Bool.and_eq_true, decide_eq_true_eq, beq_iff_eq, ge_iff_le, UInt32.le_iff_toNat_le] at hWord
    rcases hWord with ((hUpper | hLower) | hDigit) | rfl
    · have hBounds : 65 ≤ c.toNat ∧ c.toNat ≤ 90 := hUpper
      omega
    · have hBounds : 97 ≤ c.toNat ∧ c.toNat ≤ 122 := hLower
      omega
    · have hBounds : 48 ≤ c.toNat ∧ c.toNat ≤ 57 := hDigit
      omega
    · decide
  simp only [Text.isSpace, Bool.or_eq_false_iff, Bool.and_eq_false_iff, decide_eq_false_iff_not,
    beq_eq_false_iff_ne]
  omega

/-- A name starts with no space. -/
theorem startsSolid_name {name : String} (hName : isName name = true) (rest : List Char) :
    StartsSolid (name.toList ++ rest) := by
  obtain ⟨c, tail, hChars, hStart⟩ := exists_head_of_isName hName
  exact ⟨c, by rw [hChars, List.cons_append, List.head?_cons],
    isSpace_of_isWordChar (Lexeme.isWordChar_of_isWordStart hStart)⟩

theorem endsSolid_name {name : String} (hName : isName name = true) : EndsSolid name.toList := by
  obtain ⟨c, tail, hChars, -⟩ := exists_head_of_isName hName
  have hNil : name.toList ≠ [] := by
    rw [hChars]
    exact List.cons_ne_nil c tail
  refine ⟨name.toList.dropLast, name.toList.getLast hNil,
    (List.dropLast_concat_getLast hNil).symm, ?_⟩
  exact isSpace_of_isWordChar (isWordChar_of_isName hName _ (List.getLast_mem hNil))

/-- The text of a type starts with no space. -/
theorem GoType.startsSolid_text (type : GoType) (hForm : type.Formed) :
    StartsSolid type.text.toList := by
  cases type with
  | named name =>
      have hName := startsSolid_name hForm []
      rwa [List.append_nil] at hName
  | qualified package name =>
      rw [GoType.text, String.toList_append, String.toList_append, List.append_assoc]
      exact startsSolid_name hForm.1 _
  | _ =>
      simp only [StartsSolid, GoType.text, String.toList_append, String.reduceToList,
        List.cons_append, List.head?_cons, Option.some.injEq, exists_eq_left']
      rfl

/-- The text of a type ends with no space. -/
theorem GoType.endsSolid_text : (type : GoType) → type.Formed → EndsSolid type.text.toList
  | .named _, hForm => endsSolid_name hForm
  | .qualified package name, hForm => by
      rw [GoType.text, String.toList_append]
      exact (endsSolid_name hForm.2).append _
  | .pointer elem, hForm | .variadic elem, hForm | .slice elem, hForm | .chan elem, hForm
  | .receiveChan elem, hForm => by
      rw [GoType.text, String.toList_append]
      exact (elem.endsSolid_text hForm).append _
  | .array _ elem, hForm => by
      rw [GoType.text, String.toList_append]
      exact (elem.endsSolid_text hForm.2).append _
  | .map _ value, hForm => by
      rw [GoType.text, String.toList_append]
      exact (value.endsSolid_text hForm.2).append _
  | .interface, _ => ⟨"interface\x7b".toList, '}', rfl, by decide⟩
  | .struct, _ => ⟨"struct\x7b".toList, '}', rfl, by decide⟩
  | .func params, _ =>
      ⟨("func(" ++ Text.commaSeparated (GoType.texts params)).toList, ')',
        by rw [GoType.text, String.toList_append]; rfl, by decide⟩
  | .funcTo _ result, hForm => by
      rw [GoType.text, String.toList_append]
      exact (result.endsSolid_text hForm.2).append _
  | .tuple types, _ =>
      ⟨("(" ++ Text.commaSeparated (GoType.texts types)).toList, ')',
        by rw [GoType.text, String.toList_append]; rfl, by decide⟩

/-- The text of a type is trimmed already. -/
theorem GoType.trim_text {type : GoType} (hForm : type.Formed) :
    Text.trim type.text.toList = type.text.toList :=
  trim_of_solid (type.startsSolid_text hForm) (type.endsSolid_text hForm)

/-! ### Results taken apart -/

/-- A list of types is cut at its commas, and at no others. -/
theorem cutAtCommas_texts (type : GoType) (types : List GoType)
    (hForms : GoType.AllFormed (type :: types)) (part : List Char) :
    cutAtCommas 0 part (Text.commaSeparated (GoType.texts (type :: types))).toList =
      (part.reverse ++ type.text.toList) :: types.map fun t => ' ' :: t.text.toList := by
  induction types generalizing type part with
  | nil =>
      have hCut := type.uncut_text hForms.1 0 (by decide) part []
      rw [List.append_nil] at hCut
      change cutAtCommas 0 part type.text.toList = _
      rw [hCut, cutAtCommas, List.reverse_append, List.reverse_reverse]
      rfl
  | cons next types ih =>
      have hText : (Text.commaSeparated (GoType.texts (type :: next :: types))).toList =
          type.text.toList ++ (',' :: ' '
            :: (Text.commaSeparated (GoType.texts (next :: types))).toList) := by
        simp [Text.commaSeparated, GoType.texts]
      have hComma (front after : List Char) :
          cutAtCommas 0 front (',' :: after) = front.reverse :: cutAtCommas 0 [] after := by
        rw [cutAtCommas]
        rfl
      rw [hText, type.uncut_text hForms.1 0 (by decide), hComma,
        cutAtCommas_plain (by decide), ih next hForms.2 [' '], List.reverse_append,
        List.reverse_reverse]
      rfl

/-- A type has some text. -/
theorem GoType.text_ne_empty {type : GoType} (hForm : type.Formed) : type.text ≠ "" := by
  intro hEmpty
  obtain ⟨c, hHead, -⟩ := type.startsSolid_text hForm
  rw [hEmpty] at hHead
  cases hHead

theorem GoType.texts_eq_map (types : List GoType) : GoType.texts types = types.map GoType.text := by
  induction types with
  | nil => rfl
  | cons type types ih => rw [GoType.texts, ih, List.map_cons]

theorem GoType.allDocumented_iff {place : TypePlace} {types : List GoType} :
    GoType.AllDocumented place types ↔ ∀ type ∈ types, type.Documented place := by
  induction types with
  | nil => simp [GoType.AllDocumented]
  | cons type types ih => rw [GoType.AllDocumented, ih, List.forall_mem_cons]

/-- The list of some types is taken apart into them. -/
theorem resultParts_texts {types : List GoType} (hForms : GoType.AllFormed types) :
    resultParts (Text.commaSeparated (GoType.texts types)).toList = GoType.texts types := by
  cases types with
  | nil => rfl
  | cons type types =>
      have hAll := GoType.allFormed_iff.mp hForms
      have hTrimmed : (cutAtCommas 0 []
          (Text.commaSeparated (GoType.texts (type :: types))).toList).map Text.trim =
            (type :: types).map fun t => t.text.toList := by
        rw [cutAtCommas_texts type types hForms, List.map_cons, List.map_map, List.map_cons]
        congr 1
        · exact GoType.trim_text hForms.1
        · refine List.map_congr_left fun t hMem => ?_
          exact (trim_space t.text.toList).trans
            (GoType.trim_text (hAll t (List.mem_cons_of_mem type hMem)))
      have hLast : ((type :: types).map fun t => t.text.toList).getLast? ≠ some [] := by
        intro hEmpty
        obtain ⟨t, hMem, hNil⟩ := List.mem_map.mp (List.mem_of_getLast? hEmpty)
        exact GoType.text_ne_empty (hAll t hMem) (String.toList_eq_nil_iff.mp hNil)
      rw [resultParts, hTrimmed, if_neg hLast, List.map_map, GoType.texts_eq_map]
      exact List.map_congr_left fun t _ => String.ofList_toList

/-- A documented result is one type that may stand anywhere, or a list of such types. -/
theorem GoType.allDocumented_resultTypes {type : GoType} (hForm : type.Documented .result) :
    GoType.AllDocumented .inner type.resultTypes := by
  cases type with
  | tuple types => exact hForm.2
  | variadic elem => exact absurd hForm.1 (by decide)
  | _ => exact ⟨hForm, trivial⟩

/-- Only a list of types starts with a parenthesis. -/
theorem GoType.head?_text_ne {type : GoType} (hForm : type.Formed)
    (hSingle : ∀ types, type ≠ .tuple types) : type.text.toList.head? ≠ some '(' := by
  have hWord {name : String} (hName : isName name = true) (rest : List Char) :
      (name.toList ++ rest).head? ≠ some '(' := by
    obtain ⟨c, tail, hChars, hStart⟩ := exists_head_of_isName hName
    intro hHead
    rw [hChars] at hHead
    cases hHead
    exact absurd hStart (by decide)
  cases type with
  | named name =>
      have hHead := hWord hForm []
      rwa [List.append_nil] at hHead
  | qualified package name =>
      rw [GoType.text, String.toList_append, String.toList_append, List.append_assoc]
      exact hWord hForm.1 _
  | tuple types => exact absurd rfl (hSingle types)
  | _ => simp [GoType.text]

/-- A type that is no list is all that it declares. -/
theorem splitResults_text {type : GoType} (hForm : type.Formed)
    (hSingle : ∀ types, type ≠ .tuple types) : splitResults (some type.text) = [type.text] := by
  have hHead := GoType.head?_text_ne hForm hSingle
  rw [splitResults]
  split
  next hNil => exact absurd (String.toList_eq_nil_iff.mp hNil) (GoType.text_ne_empty hForm)
  next hParen =>
    rw [hParen] at hHead
    exact absurd rfl hHead
  next => rfl

/-- A list of types is taken apart into its members. -/
theorem splitResults_texts {types : List GoType} (hForms : GoType.AllFormed types) :
    splitResults (some ("(" ++ Text.commaSeparated (GoType.texts types) ++ ")")) =
      GoType.texts types := by
  have hText : ("(" ++ Text.commaSeparated (GoType.texts types) ++ ")").toList =
      '(' :: ((Text.commaSeparated (GoType.texts types)).toList ++ [')']) := by simp
  rw [splitResults, hText]
  simp only [List.dropLast_concat]
  exact resultParts_texts hForms

/-- A declared result is taken apart into the types that it declares. -/
theorem splitResults_of_declares {result : Option String} {results : List String}
    (hDeclares : DeclaresResults result results) : splitResults result = results := by
  cases result with
  | none => exact hDeclares.symm
  | some text =>
      obtain ⟨type, hForm, rfl, rfl⟩ := hDeclares
      cases type with
      | tuple types => exact splitResults_texts hForm.formed
      | _ => exact splitResults_text hForm.formed (fun _ h => by cases h)

/-! ### Results with an error added -/

/-- Some results with an error behind them, unless the last of them is one. -/
def withError (results : List String) : List String :=
  if results.getLast? = some errorType then results else results ++ [errorType]

/-- There is one result at least, the error. -/
theorem withError_ne_nil (results : List String) : withError results ≠ [] := by
  rw [withError]
  split
  next hLast =>
    rintro rfl
    cases hLast
  next => exact List.append_ne_nil_of_right_ne_nil results (List.cons_ne_nil _ _)

/-- Results stay as they are exactly if the last of them is the error already. -/
theorem withError_eq_self_iff {results : List String} :
    withError results = results ↔ results.getLast? = some errorType := by
  rw [withError]
  split
  next hLast => exact ⟨fun _ => hLast, fun _ => rfl⟩
  next hLast => exact ⟨fun hSame => by simp at hSame, fun hLast' => absurd hLast' hLast⟩

/-- Adding an error to a declared result declares what it should. -/
theorem declares_augmentResult {result : Option String} {results : List String}
    (hDeclares : DeclaresResults result results) :
    DeclaresResults (some (augmentResult result)) (withError results) := by
  have hError : (GoType.named errorType).Documented .inner := by
    rw [GoType.Documented]
    decide +kernel
  have hTypes : ∃ types, GoType.AllDocumented .inner types ∧ GoType.texts types = results := by
    cases result with
    | none => exact ⟨[], trivial, hDeclares.symm⟩
    | some text =>
        obtain ⟨type, hForm, -, hTexts⟩ := hDeclares
        exact ⟨type.resultTypes, GoType.allDocumented_resultTypes hForm, hTexts⟩
  obtain ⟨types, hForms, hTexts⟩ := hTypes
  rw [augmentResult, splitResults_of_declares hDeclares]
  by_cases hNone : results = []
  · subst hNone
    exact ⟨.named errorType, hError, rfl, rfl⟩
  rw [if_neg (by simpa using hNone), withError]
  by_cases hLast : results.getLast? = some errorType
  · rw [if_pos hLast, if_pos hLast]
    cases result with
    | none => exact absurd hDeclares hNone
    | some text => exact hDeclares
  · rw [if_neg hLast, if_neg hLast]
    have hAll : GoType.texts (types ++ [.named errorType]) = results ++ [errorType] := by
      rw [← hTexts, GoType.texts_eq_map, GoType.texts_eq_map, List.map_append]
      rfl
    refine ⟨.tuple (types ++ [.named errorType]), ⟨rfl, ?_⟩, ?_, by rw [GoType.resultTypes, hAll]⟩
    · rw [GoType.allDocumented_iff] at hForms ⊢
      intro type hMem
      rcases List.mem_append.mp hMem with hMem | hMem
      · exact hForms type hMem
      · rw [List.mem_singleton.mp hMem]
        exact hError
    · rw [GoType.text, hAll]

/-- The text of a declared result changes only if its types do. -/
theorem augmentResult_eq_iff {result : Option String} {results : List String}
    (hDeclares : DeclaresResults result results) :
    some (augmentResult result) = result ↔ withError results = results := by
  constructor
  · intro hSame
    have hAugmented := splitResults_of_declares (declares_augmentResult hDeclares)
    rw [hSame, splitResults_of_declares hDeclares] at hAugmented
    exact hAugmented.symm
  · intro hSame
    have hLast := withError_eq_self_iff.mp hSame
    cases result with
    | none =>
        rw [show results = [] from hDeclares] at hLast
        cases hLast
    | some text =>
        have hTypes : results.isEmpty = false := by
          cases results with
          | nil => cases hLast
          | cons => rfl
        rw [augmentResult, splitResults_of_declares hDeclares, hTypes, if_neg (by decide),
          if_pos hLast]
        rfl

end TryGo
