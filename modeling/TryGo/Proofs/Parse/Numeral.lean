import Mathlib.Data.Nat.Digits.Defs
import TryGo.Proofs.Parse.Run
import TryGo.Proofs.Token.NumberForm

/-! The values of integer literals. What is read for an integer token is the number that its digits
denote by their places, or else it is reported that there is none. -/
namespace TryGo

/-- The digits of all bases, each at the index that is its value. -/
def digitChars : List Char := "0123456789abcdef".toList

/-- The number that digits of a base denote by their places. -/
def placeValue (base : Nat) (digits : List Char) : Nat :=
  Nat.ofDigits base (digits.reverse.map fun c => digitChars.idxOf c.toLower)

/-- The integer literals with their bases and digits. The digits stand behind the mark of the base,
or they are the whole literal. A zero in front of more digits is the mark of base 8. -/
inductive Numeral : List Char → Nat → List Char → Prop
  | hex {mark : Char} {digits : List Char} (hMark : mark ∈ ['x', 'X'])
      (hDigits : ∀ c ∈ digits, isHexDigit c = true) : Numeral ('0' :: mark :: digits) 16 digits
  | binary {mark : Char} {digits : List Char} (hMark : mark ∈ ['b', 'B'])
      (hDigits : ∀ c ∈ digits, isBinaryDigit c = true) : Numeral ('0' :: mark :: digits) 2 digits
  | octal {mark : Char} {digits : List Char} (hMark : mark ∈ ['o', 'O'])
      (hDigits : ∀ c ∈ digits, isOctalDigit c = true) : Numeral ('0' :: mark :: digits) 8 digits
  | leadingZero {first : Char} {more : List Char}
      (hDigits : ∀ c ∈ first :: more, c.isDigit = true) :
      Numeral ('0' :: first :: more) 8 (first :: more)
  | decimal {first : Char} {more : List Char} (hDigits : ∀ c ∈ first :: more, c.isDigit = true)
      (hPlain : first = '0' → more = []) : Numeral (first :: more) 10 (first :: more)

/-- The integer literals without a value: the mark of a base alone, a digit that is not octal behind
a leading zero, and more decimal digits than are read. -/
inductive Valueless : List Char → Prop
  | noDigits {mark : Char} (hMark : mark ∈ ['x', 'X', 'b', 'B', 'o', 'O']) : Valueless ['0', mark]
  | notOctal {first : Char} {more : List Char} (hDigits : ∀ c ∈ first :: more, c.isDigit = true)
      (hWrong : '8' ∈ first :: more ∨ '9' ∈ first :: more) : Valueless ('0' :: first :: more)
  | tooLong {first : Char} {more : List Char} (hDigits : ∀ c ∈ first :: more, c.isDigit = true)
      (hFirst : first ≠ '0') (hLength : 4300 < (first :: more).length) : Valueless (first :: more)

/-- An integer token is spelled as a literal with a base and digits. -/
theorem exists_numeral {literal : List Char} (hForm : NumberForm .int literal) :
    ∃ base digits, Numeral literal base digits := by
  cases hForm with
  | hex hMark hRun => exact ⟨_, _, .hex hMark hRun⟩
  | binary hMark hRun => exact ⟨_, _, .binary hMark hRun⟩
  | octal hMark hRun => exact ⟨_, _, .octal hMark hRun⟩
  | @decimal _ run part power hSome hRun _ _ hKind =>
      have hWhole : part ++ power = [] := by
        by_contra hMore
        rw [if_neg hMore] at hKind
        cases hKind
      rw [List.append_assoc, hWhole, List.append_nil]
      match run, hSome with
      | ['0'], _ => exact ⟨_, _, .decimal hRun fun _ => rfl⟩
      | first :: second :: more, _ =>
          by_cases hZero : first = '0'
          · subst hZero
            exact ⟨_, _, .leadingZero fun c hMem => hRun c (List.mem_cons_of_mem _ hMem)⟩
          · exact ⟨_, _, .decimal hRun fun hFirst => absurd hFirst hZero⟩
      | [first], _ => exact ⟨_, _, .decimal hRun fun _ => rfl⟩

/-- A literal that is one number has the form of one. -/
theorem numberForm_of_isNumber {kind : TokenKind} {literal : String}
    (hNumber : isNumber kind literal = true) : NumberForm kind literal.toList := by
  rw [isNumber, Bool.and_eq_true, beq_iff_eq] at hNumber
  obtain ⟨hHead, hWhole⟩ := hNumber
  cases hChars : literal.toList with
  | nil =>
      rw [hChars] at hHead
      cases hHead
  | cons c rest =>
      rw [hChars] at hHead hWhole
      have hForm := Lexeme.numberForm_number hHead rest
      rwa [hWhole] at hForm

/-- A text with the form of a number is one number. -/
theorem isNumber_of_numberForm {kind : TokenKind} {literal : String}
    (hForm : NumberForm kind literal.toList) : isNumber kind literal = true := by
  obtain ⟨c, rest, hChars, hDigit⟩ : ∃ c rest, literal.toList = c :: rest ∧ c.isDigit = true := by
    generalize literal.toList = chars at hForm
    cases hForm with
    | hex | binary | octal => exact ⟨_, _, rfl, rfl⟩
    | @decimal _ run _ _ hSome hRun _ _ _ =>
        obtain ⟨c, digits, rfl⟩ := List.exists_cons_of_ne_nil hSome
        exact ⟨c, _, rfl, hRun c List.mem_cons_self⟩
  rw [hChars] at hForm
  have hWhole : (Lexeme.number (c :: rest)).span = c :: rest :=
    (Lexeme.longestIn_number hDigit rest).eq
      ⟨⟨kind, hForm⟩, List.prefix_rfl, fun _ _ hStarts => hStarts.length_le⟩
  have hKind : (Lexeme.number (c :: rest)).kind = kind := by
    have hNumber := Lexeme.numberForm_number hDigit rest
    rw [hWhole] at hNumber
    exact Lexeme.numberForm_kind_eq hNumber hForm
  rw [isNumber, hChars, Lexeme.number_plain, hWhole, hKind, beq_self_eq_true, Bool.and_true]
  exact hDigit

/-- An integer token of a source has a literal with a base and digits. -/
theorem exists_numeral_of_mem_tokenize {source : String} {token : Token}
    (hToken : token ∈ tokenize source) (hKind : token.kind = .int) :
    ∃ base digits, Numeral token.literal.toList base digits := by
  rcases List.mem_append.mp hToken with hWord | hEnd
  · have hFree : token.FreeForm := ((Lexer.ofString source).lexed token hWord).free
    rw [Token.FreeForm, hKind] at hFree
    exact exists_numeral (numberForm_of_isNumber hFree)
  · rw [List.mem_singleton.mp hEnd] at hKind
    cases hKind

namespace Number

theorem isHexDigit_of_isDigit {c : Char} (hDigit : c.isDigit = true) : isHexDigit c = true := by
  rw [isHexDigit, hDigit]
  rfl

theorem isHexDigit_of_isOctalDigit {c : Char} (hDigit : isOctalDigit c = true) :
    isHexDigit c = true := by
  have hBase : Lexeme.baseDigits 'o' = some isOctalDigit := rfl
  exact Lexeme.isHexDigit_of_baseDigits hBase hDigit

theorem isOctalDigit_of_isDigit {c : Char} (hDigit : c.isDigit = true) (hEight : c ≠ '8')
    (hNine : c ≠ '9') : isOctalDigit c = true := by
  have hSmall : c.toNat < 58 := by
    have hBound : c.toNat ≤ '9'.toNat := (Char.isDigit_iff_toNat.mp hDigit).2
    have hLast : '9'.toNat = 57 := rfl
    omega
  have hTable : ∀ n < 58, (Char.ofNat n).isDigit = true → Char.ofNat n ≠ '8' →
      Char.ofNat n ≠ '9' → isOctalDigit (Char.ofNat n) = true := by decide
  rw [← Char.ofNat_toNat c] at hDigit hEight hNine ⊢
  exact hTable _ hSmall hDigit hEight hNine

/-- The value of a digit is its place among the digits. -/
theorem digitValue_eq_idxOf {c : Char} (hDigit : isHexDigit c = true) :
    digitValue c = digitChars.idxOf c.toLower := by
  have hTable : ∀ n < 103, isHexDigit (Char.ofNat n) = true →
      digitValue (Char.ofNat n) = digitChars.idxOf (Char.ofNat n).toLower := by decide +kernel
  have hSmall : c.toNat < 103 := by
    simp only [isHexDigit, Char.isDigit, Bool.or_eq_true, Bool.and_eq_true, decide_eq_true_eq,
      Char.le_def, UInt32.le_iff_toNat_le] at hDigit
    have hNine : '9'.val.toNat = 57 := rfl
    have hLast : 'f'.val.toNat = 102 := rfl
    have hLastUpper : 'F'.val.toNat = 70 := rfl
    rw [← Char.toNat_val]
    omega
  rw [← Char.ofNat_toNat c] at hDigit ⊢
  exact hTable _ hSmall hDigit

/-- The value of digits is their value by places. -/
theorem digitsValue_eq_placeValue (base : Nat) {digits : List Char}
    (hDigits : ∀ c ∈ digits, isHexDigit c = true) :
    digitsValue base digits = placeValue base digits := by
  induction digits using List.reverseRecOn with
  | nil => rfl
  | append_singleton digits d ih =>
      have hLast := digitValue_eq_idxOf (hDigits d (by simp))
      have hFront := ih fun c hMem => hDigits c (List.mem_append_left _ hMem)
      rw [digitsValue, List.foldl_append, List.foldl_cons, List.foldl_nil]
      change digitsValue base digits * base + digitValue d = _
      rw [hFront, hLast, placeValue, placeValue, List.reverse_concat, List.map_cons,
        Nat.ofDigits_cons, Nat.mul_comm, Nat.add_comm]

section Values

variable {base : Nat} {isClassDigit : Char → Bool} {first mark : Char} {digits more : List Char}

/-- Digits of the right sort have their value by places. -/
theorem classValue?_eq (hClass : ∀ c, isClassDigit c = true → isHexDigit c = true)
    (hSome : digits ≠ []) (hDigits : ∀ c ∈ digits, isClassDigit c = true) :
    classValue? base isClassDigit digits = some (placeValue base digits) := by
  have hHex : ∀ c ∈ digits, isHexDigit c = true := fun c hMem => hClass c (hDigits c hMem)
  have hAll : (!digits.isEmpty && digits.all isClassDigit) = true := by
    rw [List.isEmpty_eq_false_iff.mpr hSome, List.all_eq_true.mpr hDigits]
    rfl
  rw [classValue?, if_pos hAll, digitsValue_eq_placeValue base hHex]

/-- A digit of the wrong sort leaves no value. -/
theorem classValue?_of_wrong {c : Char} (hMem : c ∈ digits) (hWrong : isClassDigit c = false) :
    classValue? base isClassDigit digits = none := by
  have hAll : digits.all isClassDigit = false := List.all_eq_false.mpr ⟨c, hMem, by simp [hWrong]⟩
  rw [classValue?, hAll, Bool.and_false]
  rfl

/-- A hexadecimal integer has the value of its digits. -/
theorem integerValue?_hex (hMark : mark ∈ ['x', 'X']) :
    integerValue? ('0' :: mark :: digits) = classValue? 16 isHexDigit digits := by
  simp only [List.mem_cons, List.not_mem_nil, or_false] at hMark
  rcases hMark with rfl | rfl <;> rfl

theorem integerValue?_binary (hMark : mark ∈ ['b', 'B']) :
    integerValue? ('0' :: mark :: digits) = classValue? 2 isBinaryDigit digits := by
  simp only [List.mem_cons, List.not_mem_nil, or_false] at hMark
  rcases hMark with rfl | rfl <;> rfl

theorem integerValue?_octal (hMark : mark ∈ ['o', 'O']) :
    integerValue? ('0' :: mark :: digits) = classValue? 8 isOctalDigit digits := by
  simp only [List.mem_cons, List.not_mem_nil, or_false] at hMark
  rcases hMark with rfl | rfl <;> rfl

/-- An integer with a zero in front is octal. -/
theorem integerValue?_leadingZero (hFirst : first.isDigit = true) :
    integerValue? ('0' :: first :: more) = classValue? 8 isOctalDigit (first :: more) := by
  have hMark : first ∉ ['x', 'X', 'b', 'B', 'o', 'O'] := by
    intro hMem
    simp only [List.mem_cons, List.not_mem_nil, or_false] at hMem
    rcases hMem with rfl | rfl | rfl | rfl | rfl | rfl <;> exact absurd hFirst (by decide)
  simp only [List.mem_cons, List.not_mem_nil, or_false, not_or] at hMark
  simp only [integerValue?, Bool.or_eq_true, beq_iff_eq, hMark, or_self, if_false]

/-- A decimal integer has the value of its digits, if they are not too many. -/
theorem integerValue?_decimal (hPlain : first = '0' → more = []) :
    integerValue? (first :: more) = if (first :: more).length ≤ maxDecimalDigits then
      classValue? 10 Char.isDigit (first :: more) else none := by
  unfold integerValue?
  split
  next hChars =>
    obtain ⟨rfl, rfl⟩ := List.cons.inj hChars
    exact absurd (hPlain rfl) (List.cons_ne_nil _ _)
  next => rfl

end Values

/-- A literal with a value is worth what its digits denote. -/
theorem integerValue?_of_numeral {literal digits : List Char} {base : Nat}
    (hNumeral : Numeral literal base digits) (hValue : ¬Valueless literal) :
    integerValue? literal = some (placeValue base digits) := by
  cases hNumeral with
  | hex hMark hDigits =>
      have hSome : digits ≠ [] := by
        rintro rfl
        exact hValue (.noDigits (List.mem_append_left ['b', 'B', 'o', 'O'] hMark))
      rw [integerValue?_hex hMark, classValue?_eq (fun _ => id) hSome hDigits]
  | binary hMark hDigits =>
      have hSome : digits ≠ [] := by
        rintro rfl
        exact hValue (.noDigits (List.mem_append_right ['x', 'X']
          (List.mem_append_left ['o', 'O'] hMark)))
      have hBase : Lexeme.baseDigits 'b' = some isBinaryDigit := rfl
      rw [integerValue?_binary hMark, classValue?_eq
        (fun _ => Lexeme.isHexDigit_of_baseDigits hBase) hSome hDigits]
  | octal hMark hDigits =>
      have hSome : digits ≠ [] := by
        rintro rfl
        exact hValue (.noDigits (List.mem_append_right ['x', 'X', 'b', 'B'] hMark))
      rw [integerValue?_octal hMark,
        classValue?_eq (fun _ => isHexDigit_of_isOctalDigit) hSome hDigits]
  | @leadingZero first more hDigits =>
      have hOctal : ∀ c ∈ first :: more, isOctalDigit c = true := by
        intro c hMem
        refine isOctalDigit_of_isDigit (hDigits c hMem) ?_ ?_
        · rintro rfl
          exact hValue (.notOctal hDigits (.inl hMem))
        · rintro rfl
          exact hValue (.notOctal hDigits (.inr hMem))
      rw [integerValue?_leadingZero (hDigits _ List.mem_cons_self),
        classValue?_eq (fun _ => isHexDigit_of_isOctalDigit) (List.cons_ne_nil _ _) hOctal]
  | @decimal first more hDigits hPlain =>
      have hShort : (first :: more).length ≤ maxDecimalDigits := by
        by_contra hLong
        have hFirst : first ≠ '0' := by
          rintro rfl
          rw [hPlain rfl] at hLong
          exact hLong (by decide)
        exact hValue (.tooLong hDigits hFirst (Nat.lt_of_not_le hLong))
      rw [integerValue?_decimal hPlain, if_pos hShort,
        classValue?_eq (fun _ => isHexDigit_of_isDigit) (List.cons_ne_nil _ _) hDigits]

/-- Whatever has no value by its form is refused. -/
theorem integerValue?_of_valueless {literal : List Char} (hNone : Valueless literal) :
    integerValue? literal = none := by
  cases hNone with
  | noDigits hMark =>
      simp only [List.mem_cons, List.not_mem_nil, or_false] at hMark
      rcases hMark with rfl | rfl | rfl | rfl | rfl | rfl <;> rfl
  | notOctal hDigits hWrong =>
      rw [integerValue?_leadingZero (hDigits _ List.mem_cons_self)]
      exact hWrong.elim (fun hMem => classValue?_of_wrong hMem rfl)
        fun hMem => classValue?_of_wrong hMem rfl
  | tooLong hDigits hFirst hLength =>
      rw [integerValue?_decimal fun hZero => absurd hZero hFirst]
      exact if_neg (Nat.not_le_of_lt hLength)

end Number

namespace Parse

/-- Reading an integer token of any source. A token whose literal has no value leaves a hole, with
one report that names the literal. Any other token is worth the number that its digits denote, in
the base that its literal shows, and nothing is reported. -/
theorem integerLiteral_of_mem_tokenize (source : String) (token : Token) (s : State)
    (hToken : token ∈ tokenize source) (hKind : token.kind = .int) (hCur : s.cursor.cur = token) :
    (Valueless token.literal.toList → ∃ report, report.pos = token.pos ∧
      report.cause.message = "could not parse \"" ++ token.literal ++ "\" as integer" ∧
      integerLiteral s = .ok .missing { s with reports := report :: s.reports }) ∧
    (¬Valueless token.literal.toList →
      (∃ base digits, Numeral token.literal.toList base digits) ∧
      ∀ base digits, Numeral token.literal.toList base digits →
        integerLiteral s = .ok (.int token (placeValue base digits)) s) := by
  refine ⟨fun hNone => ?_, fun hValue => ⟨?_, fun base digits hNumeral => ?_⟩⟩
  · refine ⟨⟨token.pos, .badInteger token.literal⟩, rfl, rfl, ?_⟩
    unfold integerLiteral
    simp only [cur_bind, hCur, Number.integerValue?_of_valueless hNone]
    subst hCur
    rfl
  · exact exists_numeral_of_mem_tokenize hToken hKind
  · unfold integerLiteral
    simp only [cur_bind, hCur, Number.integerValue?_of_numeral hNumeral hValue, pure_run]

/-- A literal with a leading zero is read in base 8, and one with a digit that is not octal is
reported. -/
theorem integerLiteral_leadingZero :
    (∃ s : State, s.cursor.cur = ⟨.int, "017", Position.start⟩ ∧
      integerLiteral s = .ok (.int s.cursor.cur 15) s) ∧
    ∃ s : State, s.cursor.cur = ⟨.int, "018", Position.start⟩ ∧ ∃ report,
      report.cause.message = "could not parse \"018\" as integer" ∧
        integerLiteral s = .ok .missing { s with reports := report :: s.reports } := by
  constructor
  · have hToken : ⟨.int, "017", Position.start⟩ ∈ tokenize "017" := by decide +kernel
    have hValue : ¬Valueless ['0', '1', '7'] := by
      intro hNone
      cases hNone with
      | notOctal _ hWrong => exact absurd hWrong (by decide)
      | tooLong _ hFirst _ => exact hFirst rfl
    have hDigits : ∀ c ∈ ['1', '7'], c.isDigit = true := by simp
    refine ⟨⟨⟨[⟨.int, "017", Position.start⟩], Position.start⟩, [], []⟩, rfl, ?_⟩
    exact ((integerLiteral_of_mem_tokenize "017" _ _ hToken rfl rfl).2 hValue).2 8 ['1', '7']
      (.leadingZero hDigits)
  · have hToken : ⟨.int, "018", Position.start⟩ ∈ tokenize "018" := by decide +kernel
    have hNone : Valueless ['0', '1', '8'] := .notOctal (by simp) (.inl (by simp))
    let s : State := ⟨⟨[⟨.int, "018", Position.start⟩], Position.start⟩, [], []⟩
    obtain ⟨report, -, hMessage, hRun⟩ :=
      (integerLiteral_of_mem_tokenize "018" _ s hToken rfl rfl).1 hNone
    exact ⟨s, rfl, report, hMessage, hRun⟩

end Parse

end TryGo
