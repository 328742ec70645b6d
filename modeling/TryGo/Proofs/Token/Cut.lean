import Mathlib.Data.List.Infix
import TryGo.Proofs.Token.Place

/-! Two ways to say where a piece of a text ends. A piece may be the longest of its class that
starts the text, or it may go up to the first place where the text may be cut. Either way there is
only one such piece. Runs of characters are of the first kind; literals and comments are of the
second, and what is read of them is cut there. -/
namespace TryGo

/-! ### Longest prefixes and first cuts -/

/-- Whether a text is the longest of its class at the start of another one. -/
structure LongestIn (inClass : List Char → Prop) (span chars : List Char) : Prop where
  mem : inClass span
  starts : span <+: chars
  longest : ∀ other, inClass other → other <+: chars → other.length ≤ span.length

theorem LongestIn.eq {inClass : List Char → Prop} {span other chars : List Char}
    (hSpan : LongestIn inClass span chars) (hOther : LongestIn inClass other chars) :
    span = other := by
  have hLength : span.length = other.length :=
    Nat.le_antisymm (hOther.longest span hSpan.mem hSpan.starts)
      (hSpan.longest other hOther.mem hOther.starts)
  exact (List.prefix_of_prefix_length_le hSpan.starts hOther.starts hLength.le).eq_of_length hLength

/-- The longest run of characters of a kind is what one takes while they last. -/
theorem longestIn_takeWhile (p : Char → Bool) (chars : List Char) :
    LongestIn (fun run => ∀ c ∈ run, p c = true) (chars.takeWhile p) chars := by
  refine ⟨fun c => List.mem_takeWhile_imp, List.takeWhile_prefix p, ?_⟩
  rintro run hRun ⟨rest, rfl⟩
  rw [List.takeWhile_append_of_pos hRun, List.length_append]
  exact Nat.le_add_right _ _

/-- Whether a text is cut at the first place where it may be. A place is given by what stands in
front of it and what behind. A text that may be cut nowhere is taken as a whole. -/
structure FirstCut (mayCut : List Char → List Char → Prop) (taken rest : List Char) : Prop where
  cut : rest = [] ∨ mayCut taken rest
  first : ∀ before after, before ++ after = taken ++ rest → before.length < taken.length →
    ¬ mayCut before after

namespace FirstCut

variable {mayCut : List Char → List Char → Prop} {taken rest taken' rest' : List Char}

theorem length_le (hCut : FirstCut mayCut taken rest) (hCut' : FirstCut mayCut taken' rest')
    (hText : taken ++ rest = taken' ++ rest') : taken'.length ≤ taken.length := by
  by_contra hLonger
  have hLengths := congrArg List.length hText
  rw [List.length_append, List.length_append] at hLengths
  rcases hCut.cut with rfl | hMay
  · rw [List.length_nil] at hLengths
    omega
  · exact hCut'.first taken rest hText (by omega) hMay

/-- There is only one first place to cut a text. -/
theorem eq (hCut : FirstCut mayCut taken rest) (hCut' : FirstCut mayCut taken' rest')
    (hText : taken ++ rest = taken' ++ rest') : taken = taken' ∧ rest = rest' :=
  List.append_inj hText
    (Nat.le_antisymm (hCut'.length_le hCut hText.symm) (hCut.length_le hCut' hText))

/-- A text whose first character is followed by no cut is cut where the rest of it is. -/
theorem cons {c : Char} {mayCut' : List Char → List Char → Prop}
    (hCut : FirstCut mayCut' taken rest) (hStart : ¬ mayCut [] (c :: (taken ++ rest)))
    (hShift : ∀ before after, before ++ after = taken ++ rest →
      (mayCut (c :: before) after ↔ mayCut' before after)) :
    FirstCut mayCut (c :: taken) rest := by
  refine ⟨hCut.cut.imp_right (hShift taken rest rfl).mpr, ?_⟩
  rintro before after hText hShort hMay
  cases before with
  | nil =>
      rw [List.nil_append, List.cons_append] at hText
      exact hStart (hText ▸ hMay)
  | cons d before =>
      obtain ⟨rfl, hTail⟩ := List.cons.inj hText
      exact hCut.first before after hTail (Nat.lt_of_succ_lt_succ hShort)
        ((hShift before after hTail).mp hMay)

end FirstCut

/-- A text may be cut in front of a character. -/
def Meets (mark : Char) (_before after : List Char) : Prop := after.head? = some mark

theorem firstCut_takeWhile (mark : Char) (chars : List Char) :
    FirstCut (Meets mark) (chars.takeWhile (· != mark)) (chars.dropWhile (· != mark)) := by
  induction chars with
  | nil => exact ⟨.inl rfl, fun _ _ _ hShort => absurd hShort (Nat.not_lt_zero _)⟩
  | cons c rest ih =>
      by_cases hMark : c = mark
      · subst hMark
        rw [List.takeWhile_cons, List.dropWhile_cons]
        simp only [bne_self_eq_false, Bool.false_eq_true, if_false]
        exact ⟨.inr rfl, fun _ _ _ hShort => absurd hShort (Nat.not_lt_zero _)⟩
      · rw [List.takeWhile_cons_of_pos (by simpa using hMark),
          List.dropWhile_cons_of_pos (by simpa using hMark)]
        refine ih.cons (fun hMay => hMark (Option.some.inj hMay)) fun before after _ => Iff.rfl

/-! ### Quoted literals -/

/-- Whether a text leaves the next character escaped: the backslashes at its end are odd in
number, so that the last of them is not escaped itself. -/
def Escapes (before : List Char) : Prop := (before.reverse.takeWhile (· == '\\')).length % 2 = 1

/-- A quoted literal may be cut in front of a quote that is not escaped. -/
def MeetsQuote (quote : Char) (before after : List Char) : Prop :=
  Meets quote before after ∧ ¬ Escapes before

theorem not_escapes_nil : ¬ Escapes [] := by
  unfold Escapes
  decide

theorem escapes_other {c : Char} (hEscape : c ≠ '\\') (before : List Char) :
    Escapes (c :: before) ↔ Escapes before := by
  have hHead : ∀ d, [c].head? = some d → (d == '\\') = false := by
    rintro d hHead
    cases hHead
    simpa using hEscape
  rw [Escapes, Escapes, List.reverse_cons, Lexeme.takeWhile_append_of_head hHead]

/-- A backslash and the character behind it have no effect on what follows. -/
theorem escapes_pair (d : Char) (before : List Char) :
    Escapes ('\\' :: d :: before) ↔ Escapes before := by
  by_cases hEscape : d = '\\'
  · subst hEscape
    rw [Escapes, Escapes, List.reverse_cons, List.reverse_cons, List.append_assoc,
      List.takeWhile_append]
    split
    next hAll =>
      rw [hAll, List.length_append]
      exact Eq.congr_left (Nat.add_mod_right _ 2)
    next => exact Iff.rfl
  · have hHead : ∀ c, [d, '\\'].head? = some c → (c == '\\') = false := by
      rintro c hHead
      cases hHead
      simpa using hEscape
    rw [Escapes, Escapes, List.reverse_cons, List.reverse_cons, List.append_assoc,
      List.singleton_append, Lexeme.takeWhile_append_of_head hHead]

theorem firstCut_quotedContent (quote : Char) (chars : List Char) :
    ∃ rest, chars = Lexeme.quotedContent quote chars ++ rest
      ∧ FirstCut (MeetsQuote quote) (Lexeme.quotedContent quote chars) rest := by
  fun_induction Lexeme.quotedContent quote chars with
  | case1 => exact ⟨[], rfl, .inl rfl, fun _ _ _ hShort => absurd hShort (Nat.not_lt_zero _)⟩
  | case2 chars =>
      exact ⟨quote :: chars, rfl, .inr ⟨rfl, not_escapes_nil⟩,
        fun _ _ _ hShort => absurd hShort (Nat.not_lt_zero _)⟩
  | case3 hEnd =>
      refine ⟨[], rfl, .inl rfl, fun before after hText hShort hMay => ?_⟩
      obtain rfl : before = [] := List.length_eq_zero_iff.mp (Nat.lt_one_iff.mp hShort)
      rw [List.nil_append] at hText
      subst hText
      exact hEnd (Option.some.inj hMay.1)
  | case4 d chars hEnd ih =>
      -- The escaped character is never a place to cut, so two characters are passed at once.
      obtain ⟨rest, hChars, hCut⟩ := ih
      refine ⟨rest, by rw [List.cons_append, List.cons_append, ← hChars], ?_⟩
      have hInner : FirstCut (fun before after => MeetsQuote quote ('\\' :: before) after)
          (d :: Lexeme.quotedContent quote chars) rest :=
        hCut.cons (fun hMay => hMay.2 rfl) fun before after _ =>
          and_congr_right' (not_congr (escapes_pair d before))
      exact hInner.cons (fun hMay => hEnd (Option.some.inj hMay.1)) fun before after _ => Iff.rfl
  | case5 c chars hEnd hEscape ih =>
      obtain ⟨rest, hChars, hCut⟩ := ih
      refine ⟨rest, by rw [List.cons_append, ← hChars], ?_⟩
      refine hCut.cons (fun hMay => hEnd (Option.some.inj hMay.1)) fun before after _ => ?_
      exact and_congr_right' (not_congr (escapes_other hEscape before))

/-! ### Block comments -/

/-- A block comment may be cut behind its closing mark. -/
def HasMark (before _after : List Char) : Prop := ['*', '/'] <:+ before

theorem not_hasMark_short {before after : List Char} (hShort : before.length < 2) :
    ¬ HasMark before after := fun hMark => absurd hMark.length_le (Nat.not_le.mpr hShort)

theorem firstCut_blockCommentTail (chars : List Char) :
    ∃ rest, chars = Lexeme.blockCommentTail chars ++ rest
      ∧ FirstCut HasMark (Lexeme.blockCommentTail chars) rest := by
  fun_induction Lexeme.blockCommentTail chars with
  | case1 => exact ⟨[], rfl, .inl rfl, fun _ _ _ hShort => absurd hShort (Nat.not_lt_zero _)⟩
  | case2 rest =>
      exact ⟨rest, rfl, .inr List.suffix_rfl, fun _ _ _ hShort => not_hasMark_short hShort⟩
  | case3 c chars hMark ih =>
      obtain ⟨rest, hChars, hCut⟩ := ih
      refine ⟨rest, by rw [List.cons_append, ← hChars], ?_⟩
      refine hCut.cons (not_hasMark_short (Nat.zero_lt_succ 1)) fun before after hText => ?_
      refine ⟨fun hMay => ?_, fun hMay => List.IsSuffix.trans hMay (List.suffix_cons c before)⟩
      rcases List.suffix_cons_iff.mp hMay with hWhole | hMay
      · obtain ⟨rfl, rfl⟩ := List.cons.inj hWhole
        exact absurd (hChars.trans hText.symm) (hMark after rfl)
      · exact hMay

end TryGo
