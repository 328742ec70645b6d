import TryGo.Proofs.Token.Cut

/-! The forms of numbers. A number is what its pattern says: a zero with a base mark and digits of
that base, or digits with an optional fraction and an optional exponent. What is read at the start
of a text is the longest number that starts it, and it is of one kind only. -/
namespace TryGo

/-- The texts that may stand between the digits of a number and its exponent: a point with at
least one digit behind it, or nothing. -/
inductive FractionForm : List Char → Prop
  | absent : FractionForm []
  | digits {run : List Char} (hSome : run ≠ []) (hRun : ∀ c ∈ run, c.isDigit = true) :
      FractionForm ('.' :: run)

/-- The texts that may end a number: an exponent mark with an optional sign and any digits, even
none, or nothing. -/
inductive ExponentForm : List Char → Prop
  | absent : ExponentForm []
  | digits {mark : Char} (sign : List Char) {run : List Char} (hMark : mark ∈ ['e', 'E'])
      (hSign : sign ∈ [[], ['+'], ['-']]) (hRun : ∀ c ∈ run, c.isDigit = true) :
      ExponentForm (mark :: (sign ++ run))

/-- The texts that are numbers of a kind. A number with a base mark needs no digits, and a number
without one is a float exactly when it has a fraction or an exponent. -/
inductive NumberForm : TokenKind → List Char → Prop
  | hex {mark : Char} {run : List Char} (hMark : mark ∈ ['x', 'X'])
      (hRun : ∀ c ∈ run, isHexDigit c = true) : NumberForm .int ('0' :: mark :: run)
  | binary {mark : Char} {run : List Char} (hMark : mark ∈ ['b', 'B'])
      (hRun : ∀ c ∈ run, isBinaryDigit c = true) : NumberForm .int ('0' :: mark :: run)
  | octal {mark : Char} {run : List Char} (hMark : mark ∈ ['o', 'O'])
      (hRun : ∀ c ∈ run, isOctalDigit c = true) : NumberForm .int ('0' :: mark :: run)
  | decimal {kind : TokenKind} {run part power : List Char} (hSome : run ≠ [])
      (hRun : ∀ c ∈ run, c.isDigit = true) (hPart : FractionForm part)
      (hPower : ExponentForm power)
      (hKind : kind = if part ++ power = [] then .int else .float) :
      NumberForm kind (run ++ part ++ power)

namespace Lexeme

/-- What is taken for a fraction has the form of one. -/
theorem fractionForm_fraction (chars : List Char) : FractionForm (fraction chars) := by
  rcases fraction_cases chars with hNone | ⟨d, rest, hDigit, hSome⟩
  · rw [hNone]
    exact .absent
  · rw [hSome]
    refine .digits ?_ fun c => List.mem_takeWhile_imp
    rw [List.takeWhile_cons_of_pos hDigit]
    exact List.cons_ne_nil d _

/-- What is taken for an exponent has the form of one. -/
theorem exponentForm_exponent (chars : List Char) : ExponentForm (exponent chars) := by
  unfold exponent
  split
  next => exact .absent
  next c rest =>
    split
    next hMark =>
      have hMem : c ∈ ['e', 'E'] := by simpa using hMark
      unfold exponentDigits
      split
      next => exact .digits [] hMem (by decide) nofun
      next d digits =>
        split
        next hSign =>
          refine .digits [d] hMem ?_ fun c => List.mem_takeWhile_imp
          simpa using hSign
        next =>
          have hRun : ∀ c ∈ (d :: digits).takeWhile Char.isDigit, c.isDigit = true :=
            fun c => List.mem_takeWhile_imp
          exact .digits [] hMem (by decide) hRun
    next => exact .absent

/-- The characters behind a base mark that go with it. -/
theorem numberForm_base {mark : Char} {isBaseDigit : Char → Bool} {run : List Char}
    (hBase : baseDigits mark = some isBaseDigit) (hRun : ∀ c ∈ run, isBaseDigit c = true) :
    NumberForm .int ('0' :: mark :: run) := by
  unfold baseDigits at hBase
  split at hBase
  next hMark =>
    cases hBase
    exact .hex (by simpa using hMark) hRun
  split at hBase
  next hMark =>
    cases hBase
    exact .binary (by simpa using hMark) hRun
  split at hBase
  next hMark =>
    cases hBase
    exact .octal (by simpa using hMark) hRun
  next => cases hBase

/-- What is taken for a decimal number has the form of one. -/
theorem numberForm_decimal {c : Char} (hDigit : c.isDigit = true) (rest : List Char) :
    NumberForm (decimal (c :: rest)).kind (decimal (c :: rest)).span := by
  refine .decimal ?_ (fun c => List.mem_takeWhile_imp) (fractionForm_fraction _)
    (exponentForm_exponent _) ?_
  · rw [List.takeWhile_cons_of_pos hDigit]
    exact List.cons_ne_nil c _
  · simp only [decimal, plain, Bool.and_eq_true, List.isEmpty_iff, List.append_eq_nil_iff]

/-- What is read as a number has the form of one. -/
theorem numberForm_number {c : Char} (hDigit : c.isDigit = true) (rest : List Char) :
    NumberForm (number (c :: rest)).kind (number (c :: rest)).span := by
  by_cases hPlain : ∀ mark tail, c :: rest = '0' :: mark :: tail → baseDigits mark = none
  · rw [number_eq_decimal hPlain]
    exact numberForm_decimal hDigit rest
  · simp only [Classical.not_forall] at hPlain
    obtain ⟨mark, tail, hChars, hBase⟩ := hPlain
    obtain ⟨isBaseDigit, hBase⟩ := Option.ne_none_iff_exists'.mp hBase
    rw [hChars, number_zero, hBase]
    exact numberForm_base hBase fun c => List.mem_takeWhile_imp

/-! No text that has the form of a number and starts a text is longer than the number read there.
A part of a number that is followed by a further part ends where that part starts, so it is read
as it is; a part that nothing follows can only be read on. -/

section Longest

variable {run part power rest : List Char}

theorem takeWhile_isDigit_eq_nil {chars : List Char}
    (hHead : ∀ c, chars.head? = some c → c.isDigit = false) :
    chars.takeWhile Char.isDigit = [] := by
  cases chars with
  | nil => rfl
  | cons c rest => exact List.takeWhile_cons_of_neg (by simp [hHead c rfl])

/-- A decimal number is as long as its three parts. -/
theorem length_span_decimal (chars : List Char) : (decimal chars).span.length =
    (chars.takeWhile Char.isDigit).length
      + (fraction (chars.drop (chars.takeWhile Char.isDigit).length)).length
      + (exponent (chars.drop ((chars.takeWhile Char.isDigit).length
          + (fraction (chars.drop (chars.takeWhile Char.isDigit).length)).length))).length := by
  simp only [decimal, plain, List.length_append]

/-- Digits that stop where a fraction or an exponent starts are the whole part of a number. -/
theorem length_span_decimal_append (hRun : ∀ c ∈ run, c.isDigit = true)
    (hStop : ∀ c, rest.head? = some c → c.isDigit = false) :
    (decimal (run ++ rest)).span.length =
      run.length + (fraction rest).length
        + (exponent (rest.drop (fraction rest).length)).length := by
  have hWhole : (run ++ rest).takeWhile Char.isDigit = run := by
    rw [List.takeWhile_append_of_pos hRun, takeWhile_isDigit_eq_nil hStop, List.append_nil]
  rw [length_span_decimal, hWhole, ← List.drop_drop, List.drop_left]

/-- Behind a point and a digit all digits are taken. -/
theorem fraction_digits (hSome : run ≠ []) (hRun : ∀ c ∈ run, c.isDigit = true) :
    fraction ('.' :: (run ++ rest)) = '.' :: (run ++ rest.takeWhile Char.isDigit) := by
  obtain ⟨d, digits, rfl⟩ := List.exists_cons_of_ne_nil hSome
  rw [← List.takeWhile_append_of_pos hRun, List.cons_append, fraction,
    if_pos (hRun d List.mem_cons_self)]

theorem head_exponentForm (hPower : ExponentForm power) :
    ∀ c, power.head? = some c → c.isDigit = false ∧ c ≠ '.' := by
  cases hPower with
  | absent => exact nofun
  | digits sign hMark _ _ =>
      rintro c hHead
      cases hHead
      simp only [List.mem_cons, List.not_mem_nil, or_false] at hMark
      rcases hMark with rfl | rfl <;> exact ⟨by decide, by decide⟩

/-- An exponent is read at least as far as it goes. -/
theorem length_le_exponent (hPower : ExponentForm power) (rest : List Char) :
    power.length ≤ (exponent (power ++ rest)).length := by
  cases hPower with
  | absent => exact Nat.zero_le _
  | @digits mark sign run hMark hSign hRun =>
      have hTaken : run.length ≤ ((run ++ rest).takeWhile Char.isDigit).length := by
        rw [List.takeWhile_append_of_pos hRun, List.length_append]
        exact Nat.le_add_right _ _
      have hDigits : (sign ++ run).length ≤ (exponentDigits (sign ++ run ++ rest)).length := by
        simp only [List.mem_cons, List.not_mem_nil, or_false] at hSign
        rcases hSign with rfl | rfl | rfl
        · cases run with
          | nil => exact Nat.zero_le _
          | cons d digits =>
              have hDigit : d.isDigit = true := hRun d List.mem_cons_self
              have hOther : ¬ (d == '+' || d == '-') = true := by
                intro hSign
                rcases (by simpa using hSign : d = '+' ∨ d = '-') with rfl | rfl <;>
                  exact absurd hDigit (by decide)
              rw [List.nil_append, List.cons_append, exponentDigits, if_neg hOther]
              exact hTaken
        all_goals
          rw [List.singleton_append, List.cons_append, exponentDigits, if_pos (by decide)]
          exact Nat.succ_le_succ hTaken
      have hExponent : exponent (mark :: (sign ++ run) ++ rest) =
          mark :: exponentDigits (sign ++ run ++ rest) := by
        rw [List.cons_append, exponent, if_pos (by simpa using hMark)]
      rw [hExponent]
      exact Nat.succ_le_succ hDigits

/-- No decimal form in front of a text is longer than what is taken. -/
theorem length_le_decimal (hRun : ∀ c ∈ run, c.isDigit = true) (hPart : FractionForm part)
    (hPower : ExponentForm power) (rest : List Char) :
    (run ++ part ++ power).length ≤ (decimal (run ++ part ++ power ++ rest)).span.length := by
  have hPowerHead := head_exponentForm hPower
  have hExponent := length_le_exponent hPower rest
  have hStop : power ≠ [] → ∀ c, (power ++ rest).head? = some c → c.isDigit = false ∧ c ≠ '.' := by
    intro hSome c hHead
    obtain ⟨d, tail, rfl⟩ := List.exists_cons_of_ne_nil hSome
    exact hPowerHead c hHead
  by_cases hNone : power = []
  · subst hNone
    cases hPart with
    | absent =>
        rw [List.append_nil, List.append_nil, length_span_decimal,
          List.takeWhile_append_of_pos hRun, List.length_append]
        omega
    | @digits digits hSome hDigits =>
        rw [List.append_nil, List.append_assoc, List.cons_append,
          length_span_decimal_append hRun (by rintro c hHead; cases hHead; decide),
          fraction_digits hSome hDigits, List.length_append, List.length_cons, List.length_cons,
          List.length_append]
        omega
  · have hDigits := takeWhile_isDigit_eq_nil fun c hHead => (hStop hNone c hHead).1
    have hFraction : fraction (part ++ (power ++ rest)) = part := by
      cases hPart with
      | absent =>
          obtain ⟨c, tail, hTail⟩ :=
            List.exists_cons_of_ne_nil (List.append_ne_nil_of_left_ne_nil hNone rest)
          have hPoint := (hStop hNone c (by rw [hTail]; rfl)).2
          rw [List.nil_append, hTail, fraction_of_ne hPoint]
      | digits hSome hDigitRun =>
          rw [List.cons_append, fraction_digits hSome hDigitRun, hDigits, List.append_nil]
    have hPartStop : ∀ c, (part ++ (power ++ rest)).head? = some c → c.isDigit = false := by
      intro c hHead
      cases hPart with
      | absent => exact (hStop hNone c hHead).1
      | digits _ _ =>
          cases hHead
          decide
    rw [List.append_assoc, List.append_assoc, List.append_assoc,
      length_span_decimal_append hRun hPartStop, hFraction, List.drop_left, List.length_append,
      List.length_append]
    omega

theorem isDecimalChar_of_isDigit {c : Char} (hDigit : c.isDigit = true) :
    isDecimalChar c = true := by
  rw [isDecimalChar, hDigit, Bool.true_or]

/-- A decimal form has characters of a decimal number only. -/
theorem isDecimalChar_form (hRun : ∀ c ∈ run, c.isDigit = true) (hPart : FractionForm part)
    (hPower : ExponentForm power) : ∀ c ∈ run ++ part ++ power, isDecimalChar c = true := by
  intro c hMem
  rw [List.mem_append, List.mem_append] at hMem
  rcases hMem with (hMem | hMem) | hMem
  · exact isDecimalChar_of_isDigit (hRun c hMem)
  · cases hPart with
    | absent => cases hMem
    | digits _ hDigits =>
        rcases List.mem_cons.mp hMem with rfl | hMem
        · decide
        · exact isDecimalChar_of_isDigit (hDigits c hMem)
  · cases hPower with
    | absent => cases hMem
    | digits sign hMark hSign hDigits =>
        rw [List.mem_cons, List.mem_append] at hMem
        rcases hMem with rfl | hMem | hMem
        · revert hMark
          exact List.all_eq_true.mp (by decide : ['e', 'E'].all isDecimalChar = true) c
        · simp only [List.mem_cons, List.not_mem_nil, or_false] at hSign
          rcases hSign with rfl | rfl | rfl
          · cases hMem
          all_goals
            obtain rfl := List.mem_singleton.mp hMem
            decide
        · exact isDecimalChar_of_isDigit (hDigits c hMem)

/-- A number has no fraction and no exponent exactly if it has digits only. -/
theorem form_eq_nil_iff (hRun : ∀ c ∈ run, c.isDigit = true) (hPart : FractionForm part)
    (hPower : ExponentForm power) :
    part ++ power = [] ↔ ∀ c ∈ run ++ part ++ power, c.isDigit = true := by
  rw [List.append_assoc]
  constructor
  · intro hNone
    rwa [hNone, List.append_nil]
  · intro hAll
    cases hText : part ++ power with
    | nil => rfl
    | cons c tail =>
        have hDigit : c.isDigit = true := hAll c (by simp [hText])
        cases hPart with
        | absent =>
            have hOther := (head_exponentForm hPower c (congrArg List.head? hText)).1
            exact absurd hDigit (Bool.eq_false_iff.mp hOther)
        | digits _ _ =>
            cases hText
            exact absurd hDigit (by decide)

end Longest

/-- Whether a text is a zero with a base mark and characters that go with it. -/
def BaseForm (span : List Char) : Prop :=
  ∃ mark isBaseDigit run, baseDigits mark = some isBaseDigit
    ∧ (∀ c ∈ run, isBaseDigit c = true) ∧ span = '0' :: mark :: run

/-- A number has a base mark, or no character that could be one. -/
theorem numberForm_cases {kind : TokenKind} {span : List Char} (hForm : NumberForm kind span) :
    kind = .int ∧ BaseForm span
      ∨ ∃ run part power, (∀ c ∈ run, c.isDigit = true) ∧ FractionForm part ∧ ExponentForm power
        ∧ span = run ++ part ++ power ∧ kind = if part ++ power = [] then .int else .float := by
  have hTable (p : Char → Bool) (marks : List Char)
      (hMarks : (marks, p) ∈ [(['x', 'X'], isHexDigit), (['b', 'B'], isBinaryDigit),
        (['o', 'O'], isOctalDigit)]) : ∀ mark ∈ marks, baseDigits mark = some p := by
    simp only [List.mem_cons, Prod.mk.injEq, List.not_mem_nil, or_false] at hMarks
    rcases hMarks with ⟨rfl, rfl⟩ | ⟨rfl, rfl⟩ | ⟨rfl, rfl⟩ <;>
      simp [baseDigits]
  cases hForm with
  | hex hMark hRun =>
      exact .inl ⟨rfl, _, _, _, hTable _ _ List.mem_cons_self _ hMark, hRun, rfl⟩
  | binary hMark hRun =>
      exact .inl ⟨rfl, _, _, _,
        hTable _ _ (List.mem_cons_of_mem _ List.mem_cons_self) _ hMark, hRun, rfl⟩
  | octal hMark hRun =>
      exact .inl ⟨rfl, _, _, _,
        hTable _ _ (List.mem_cons_of_mem _ (List.mem_cons_of_mem _ List.mem_cons_self)) _ hMark,
        hRun, rfl⟩
  | decimal _ hRun hPart hPower hKind => exact .inr ⟨_, _, _, hRun, hPart, hPower, rfl, hKind⟩

/-- No form of a number that starts a text is longer than the number read there. -/
theorem length_le_number {kind : TokenKind} {other chars : List Char}
    (hForm : NumberForm kind other) (hStarts : other <+: chars) :
    other.length ≤ (number chars).span.length := by
  rcases numberForm_cases hForm with ⟨-, mark, isBaseDigit, run, hBase, hRun, rfl⟩ |
    ⟨run, part, power, hRun, hPart, hPower, rfl, -⟩
  · obtain ⟨rest, rfl⟩ := hStarts
    rw [List.cons_append, List.cons_append, number_zero, hBase]
    simp only [plain, List.length_cons, List.takeWhile_append_of_pos hRun, List.length_append]
    omega
  · by_cases hPlain : ∀ mark tail, chars = '0' :: mark :: tail → baseDigits mark = none
    · rw [number_eq_decimal hPlain]
      obtain ⟨rest, rfl⟩ := hStarts
      exact length_le_decimal hRun hPart hPower rest
    · -- A decimal form in front of a base mark cannot reach it, so it is the zero alone.
      simp only [Classical.not_forall] at hPlain
      obtain ⟨mark, tail, rfl, hMark⟩ := hPlain
      obtain ⟨isBaseDigit, hBase⟩ := Option.ne_none_iff_exists'.mp hMark
      rw [number_zero, hBase]
      have hDecimal := isDecimalChar_form hRun hPart hPower
      generalize run ++ part ++ power = other at hStarts hDecimal
      obtain ⟨rest, hText⟩ := hStarts
      rcases other with _ | ⟨c, _ | ⟨d, more⟩⟩
      · exact Nat.zero_le _
      · exact Nat.succ_le_succ (Nat.zero_le _)
      · obtain rfl : d = mark := (List.cons.inj (List.cons.inj hText).2).1
        exact absurd (baseDigits_of_isDecimalChar (hDecimal d (by simp))) hMark

/-- A text is a number of one kind at most. -/
theorem numberForm_kind_eq {kind other : TokenKind} {span : List Char}
    (hForm : NumberForm kind span) (hOther : NumberForm other span) : kind = other := by
  have hBase {span : List Char} (hBase : BaseForm span) {run part power : List Char}
      (hRun : ∀ c ∈ run, c.isDigit = true) (hPart : FractionForm part)
      (hPower : ExponentForm power) (hSpan : span = run ++ part ++ power) : False := by
    obtain ⟨mark, isBaseDigit, digits, hBase, -, rfl⟩ := hBase
    have hDecimal := isDecimalChar_form hRun hPart hPower mark (by rw [← hSpan]; simp)
    rw [baseDigits_of_isDecimalChar hDecimal] at hBase
    cases hBase
  rcases numberForm_cases hForm with ⟨rfl, hMark⟩ |
      ⟨run, part, power, hRun, hPart, hPower, hSpan, rfl⟩ <;>
    rcases numberForm_cases hOther with ⟨rfl, hMark'⟩ |
      ⟨run', part', power', hRun', hPart', hPower', hSpan', rfl⟩
  · rfl
  · exact (hBase hMark hRun' hPart' hPower' hSpan').elim
  · exact (hBase hMark' hRun hPart hPower hSpan).elim
  · have hEmpty : part ++ power = [] ↔ part' ++ power' = [] := by
      rw [form_eq_nil_iff hRun hPart hPower, form_eq_nil_iff hRun' hPart' hPower', ← hSpan, hSpan']
    simp only [hEmpty]

/-- What is taken for a number is the longest form of one. -/
theorem longestIn_number {c : Char} (hDigit : c.isDigit = true) (rest : List Char) :
    LongestIn (fun text => ∃ kind, NumberForm kind text) (number (c :: rest)).span (c :: rest) := by
  refine ⟨⟨_, numberForm_number hDigit rest⟩, ?_, fun other ⟨_, hForm⟩ => length_le_number hForm⟩
  obtain ⟨tail, hText, -⟩ := heads_number (c :: rest)
  exact ⟨tail, hText.symm⟩

end Lexeme

end TryGo
