import TryGo.Proofs.GoType.Results

/-! Results as they are declared. A tree keeps a declared result as one text. The text can be taken
apart into the types that were declared, also after an error was added to it, and an error is
added only once. -/
namespace TryGo

/-- What a function may declare as its result: nothing, one type, or a list of types in
parentheses. The list may be empty. -/
inductive DeclaredResult where
  | nothing
  | one (type : GoType)
  | list (types : List GoType)

namespace DeclaredResult

/-- The text as which a declared result is kept. -/
def text? : DeclaredResult → Option String
  | nothing => none
  | one type => some type.text
  | list types => some ("(" ++ Text.commaSeparated (types.map GoType.text) ++ ")")

def types : DeclaredResult → List GoType
  | nothing => []
  | one type => [type]
  | list types => types

/-- Whether the types are put together from the documented forms. A list of results is no type
that stands alone. -/
def Formed : DeclaredResult → Prop
  | nothing => True
  | one type => type.Formed ∧ ∀ types, type ≠ .tuple types
  | list types => GoType.AllFormed types

theorem splitResults_text? {declared : DeclaredResult} (hFormed : declared.Formed) :
    splitResults declared.text? = declared.types.map GoType.text := by
  cases declared with
  | nothing => rfl
  | one type => exact splitResults_text hFormed.1 hFormed.2
  | list types =>
      have hSplit := splitResults_texts hFormed
      rwa [GoType.texts_eq_map] at hSplit

theorem allFormed_types {declared : DeclaredResult} (hFormed : declared.Formed) :
    GoType.AllFormed declared.types := by
  cases declared with
  | nothing => trivial
  | one type => exact ⟨hFormed.1, trivial⟩
  | list types => exact hFormed

end DeclaredResult

/-! ### Adding an error -/

theorem getLast?_withError (results : List String) :
    (withError results).getLast? = some errorType := by
  rw [withError]
  split
  next hLast => exact hLast
  next => exact List.getLast?_concat

/-- A result that ends in an error is left as it is written. -/
theorem augmentResult_of_getLast? {text : String}
    (hLast : (splitResults (some text)).getLast? = some errorType) :
    augmentResult (some text) = text := by
  have hNonempty : (splitResults (some text)).isEmpty = false := by
    cases hTypes : splitResults (some text) with
    | nil =>
        rw [hTypes] at hLast
        cases hLast
    | cons => rfl
  rw [augmentResult, hNonempty, if_neg Bool.false_ne_true, if_pos hLast]
  rfl

theorem formed_errorType : (GoType.named errorType).Formed := by
  rw [GoType.Formed]
  decide +kernel

/-- Adding an error to a result adds it to the types of the result. -/
theorem splitResults_augmentResult {result : Option String} {types : List GoType}
    (hSplit : splitResults result = types.map GoType.text) (hFormed : GoType.AllFormed types) :
    splitResults (some (augmentResult result)) = withError (splitResults result) := by
  by_cases hNone : splitResults result = []
  · have hError : augmentResult result = errorType := by
      rw [augmentResult, hNone]
      rfl
    rw [hError, hNone]
    exact splitResults_text formed_errorType fun _ h => by cases h
  by_cases hLast : (splitResults result).getLast? = some errorType
  · cases result with
    | none => exact absurd rfl hNone
    | some text =>
        rw [augmentResult_of_getLast? hLast, withError, if_pos hLast]
  · have hText : augmentResult result = "(" ++ Text.commaSeparated
        (GoType.texts (types ++ [.named errorType])) ++ ")" := by
      rw [augmentResult, if_neg (by simpa using hNone), if_neg hLast, hSplit,
        GoType.texts_eq_map, List.map_append]
      rfl
    have hAll : GoType.AllFormed (types ++ [.named errorType]) := by
      rw [GoType.allFormed_iff] at hFormed ⊢
      exact List.forall_mem_append.mpr ⟨hFormed, List.forall_mem_singleton.mpr formed_errorType⟩
    rw [hText, splitResults_texts hAll, withError, if_neg hLast, hSplit, GoType.texts_eq_map,
      List.map_append]
    rfl

/-- A declared result survives being kept as text: the text is taken apart into the types that were
declared, adding an error to the text adds it behind them unless they end in one, and adding
it again changes nothing. -/
theorem declaredResult_kept (declared : DeclaredResult) (hFormed : declared.Formed) :
    splitResults declared.text? = declared.types.map GoType.text
      ∧ splitResults (some (augmentResult declared.text?)) =
        (if (splitResults declared.text?).getLast? = some errorType then
          splitResults declared.text?
        else splitResults declared.text? ++ [errorType])
      ∧ augmentResult (some (augmentResult declared.text?)) = augmentResult declared.text? := by
  have hSplit := DeclaredResult.splitResults_text? hFormed
  have hAugmented := splitResults_augmentResult hSplit (DeclaredResult.allFormed_types hFormed)
  refine ⟨hSplit, hAugmented, augmentResult_of_getLast? ?_⟩
  rw [hAugmented]
  exact getLast?_withError _

/-- Results with commas and brackets inside: a map to functions with variadic parameters and lists
of results, an array with a name for its size, and a channel of such a function. -/
def nestedResult : DeclaredResult :=
  let name := GoType.named
  let size : Token := ⟨.ident, "size", Position.start⟩
  let read := GoType.funcTo [.qualified "io" "Reader", .variadic (.slice (name "byte"))]
    (.tuple [.map (name "string") (.func [.pointer (name "T")]), name "error"])
  .list [.map (.array size (name "int")) read, .receiveChan read]

theorem declaredResult_kept_nestedResult :
    nestedResult.Formed
    ∧ splitResults nestedResult.text? = nestedResult.types.map GoType.text
    ∧ splitResults (some (augmentResult nestedResult.text?)) =
      nestedResult.types.map GoType.text ++ [errorType] := by
  have hFormed : nestedResult.Formed := by
    simp only [nestedResult, DeclaredResult.Formed, GoType.AllFormed, GoType.Formed]
    decide +kernel
  obtain ⟨hSplit, hAugmented, -⟩ := declaredResult_kept nestedResult hFormed
  refine ⟨hFormed, hSplit, ?_⟩
  rw [hAugmented, hSplit, if_neg (by decide +kernel)]

end TryGo
