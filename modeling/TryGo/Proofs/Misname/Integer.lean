import Mathlib.Data.Nat.Digits.Lemmas
import TryGo.Proofs.Misname.Open

/-! The integers that an expression shows. They are the values of tokens that the expression was
read from, and one of them has too many decimal digits only if its literal is not a decimal one. -/
namespace TryGo

/-! ### Long numbers and their literals -/

namespace Number

/-- Whether a number has more decimal digits than a rendering may have. -/
def isLong (value : Int) : Bool := maxDecimalDigits < (Nat.digits 10 value.natAbs).length

/-- Whether a literal is hexadecimal, octal or binary: it has the mark of its base behind a zero, or
is octal because only octal digits stand behind a zero. -/
def isBased : List Char → Bool
  | '0' :: mark :: digits =>
      (mark == 'x' || mark == 'X') && digits.all isHexDigit
        || (mark == 'o' || mark == 'O') && digits.all isOctalDigit
        || (mark == 'b' || mark == 'B') && digits.all isBinaryDigit
        || (mark :: digits).all isOctalDigit
  | _ => false

/-- The numbers without a rendering are the long ones. -/
theorem isUnrenderable_eq (value : Int) : isUnrenderable value = isLong value := by
  have hPower (n : Nat) : tenTo n = 10 ^ n := rfl
  rw [isUnrenderable, isLong, renderBound, hPower, decide_eq_decide,
    Nat.lt_digits_length_iff (by decide)]

theorem digitValue_le_of_isDigit {c : Char} (hDigit : c.isDigit = true) : digitValue c ≤ 9 := by
  rw [digitValue, if_pos hDigit]
  have hBound : c.toNat ≤ '9'.toNat := (Char.isDigit_iff_toNat.mp hDigit).2
  have hZero : '0'.toNat = 48 := rfl
  have hNine : '9'.toNat = 57 := rfl
  omega

/-- Decimal digits behind a number make it at most as large as if they were all nines. -/
theorem foldl_digits_lt (digits : List Char) (hDigits : digits.all Char.isDigit = true)
    (start : Nat) :
    digits.foldl (fun value d => value * 10 + digitValue d) start
      < (start + 1) * 10 ^ digits.length := by
  induction digits generalizing start with
  | nil => simp
  | cons d digits ih =>
      rw [List.all_cons, Bool.and_eq_true] at hDigits
      have hDigit := digitValue_le_of_isDigit hDigits.1
      calc (d :: digits).foldl (fun value d => value * 10 + digitValue d) start
          < (start * 10 + digitValue d + 1) * 10 ^ digits.length := ih hDigits.2 _
        _ ≤ ((start + 1) * 10) * 10 ^ digits.length := Nat.mul_le_mul_right _ (by omega)
        _ = (start + 1) * 10 ^ (d :: digits).length := by
          rw [List.length_cons, pow_succ']
          ring

/-- A literal of a long number is not decimal, because decimal literals are limited. -/
theorem isBased_of_isLong {literal : List Char} {value : Nat}
    (hValue : integerValue? literal = some value) (hLong : isLong value = true) :
    isBased literal = true := by
  unfold integerValue? at hValue
  split at hValue
  next mark digits =>
    simp only [classValue?] at hValue
    rw [isBased]
    grind
  next hPlain =>
    split at hValue
    next hLength =>
      rw [classValue?] at hValue
      split at hValue
      next hDigits =>
        cases hValue
        rw [Bool.and_eq_true] at hDigits
        have hBound := foldl_digits_lt literal hDigits.2 0
        rw [isLong, decide_eq_true_iff, Nat.lt_digits_length_iff (by decide)] at hLong
        have hPower : 10 ^ literal.length ≤ 10 ^ maxDecimalDigits :=
          Nat.pow_le_pow_right (by decide) hLength
        rw [zero_add, one_mul] at hBound
        exact absurd (hBound.trans_le hPower) (not_lt.mpr hLong)
      next => cases hValue
    next => cases hValue

end Number

/-! ### The integers of an expression -/

mutual

/-- The integers that the text of an expression shows, each with its token. -/
def Expr.integers : Expr → List (Token × Int)
  | .int token value => [(token, value)]
  | .unary _ _ operand => operand.integers
  | .binary _ left _ right => left.integers ++ right.integers
  | .call _ callee args => callee.integers ++ Expr.allIntegers args
  | .select _ left field => left.integers ++ field.integers
  | .index _ left position => left.integers ++ position.integers
  | _ => []

def Expr.allIntegers : List Expr → List (Token × Int)
  | [] => []
  | e :: es => e.integers ++ Expr.allIntegers es

end

/-- Whether the text of an expression would show a number with too many decimal digits. -/
def Expr.showsLong (e : Expr) : Bool := e.integers.any fun entry => Number.isLong entry.2

/-- What is shown in a part is shown in the whole. -/
theorem infix_of_part {digits part text : String} (before after : String)
    (hPart : digits.toList <:+: part.toList) (hText : text = before ++ part ++ after) :
    digits.toList <:+: text.toList := by
  rw [hText, String.toList_append, String.toList_append]
  exact hPart.trans ⟨before.toList, after.toList, rfl⟩

mutual

/-- The integers of an expression stand in its text. -/
theorem Expr.infix_text : (e : Expr) → ∀ entry ∈ e.integers,
    (toString entry.2).toList <:+: e.text.toList
  | .missing | .ident _ _ | .float _ _ | .str _ _ _ | .char _ _ | .bool _ _ | .nil _
  | .foreign _ _ _ => fun _ hMem => absurd hMem List.not_mem_nil
  | .int _ value => List.forall_mem_singleton.mpr List.infix_rfl
  | .unary _ op operand => fun entry hMem =>
      infix_of_part ("(" ++ op) ")" (operand.infix_text entry hMem) rfl
  | .binary _ left op right => List.forall_mem_append.mpr
      ⟨fun entry hLeft => infix_of_part "(" (" " ++ op ++ " " ++ right.text ++ ")")
          (left.infix_text entry hLeft) (by simp only [Expr.text, String.append_assoc]),
        fun entry hRight => infix_of_part ("(" ++ left.text ++ " " ++ op ++ " ") ")"
          (right.infix_text entry hRight) rfl⟩
  | .call _ callee args => List.forall_mem_append.mpr
      ⟨fun entry hCallee => infix_of_part "" ("(" ++ Text.commaSeparated (Expr.texts args) ++ ")")
          (callee.infix_text entry hCallee)
          (by simp only [Expr.text, String.append_assoc, String.empty_append]),
        fun entry hArgs => infix_of_part (callee.text ++ "(") ")"
          (Expr.infix_texts args entry hArgs) rfl⟩
  | .select _ left field => List.forall_mem_append.mpr
      ⟨fun entry hLeft => infix_of_part "(" ("." ++ field.text ++ ")")
          (left.infix_text entry hLeft) (by simp only [Expr.text, String.append_assoc]),
        fun entry hField => infix_of_part ("(" ++ left.text ++ ".") ")"
          (field.infix_text entry hField) rfl⟩
  | .index _ left position => List.forall_mem_append.mpr
      ⟨fun entry hLeft => infix_of_part "(" ("[" ++ position.text ++ "])")
          (left.infix_text entry hLeft) (by simp only [Expr.text, String.append_assoc]),
        fun entry hPosition => infix_of_part ("(" ++ left.text ++ "[") "])"
          (position.infix_text entry hPosition) rfl⟩

/-- The integers of some expressions stand in the list of their texts. -/
theorem Expr.infix_texts : (es : List Expr) → ∀ entry ∈ Expr.allIntegers es,
    (toString entry.2).toList <:+: (Text.commaSeparated (Expr.texts es)).toList
  | [] => fun _ hMem => absurd hMem List.not_mem_nil
  | [e] => List.forall_mem_append.mpr
      ⟨e.infix_text, fun _ hMem => absurd hMem List.not_mem_nil⟩
  | e :: next :: es => by
      have hJoined : Text.commaSeparated (Expr.texts (e :: next :: es)) =
          e.text ++ ", " ++ Text.commaSeparated (Expr.texts (next :: es)) :=
        Text.joinWith_cons_cons _ _ _ _
      refine List.forall_mem_append.mpr ⟨fun entry hHead => ?_, fun entry hRest => ?_⟩
      · refine infix_of_part "" (", " ++ Text.commaSeparated (Expr.texts (next :: es)))
          (e.infix_text entry hHead) ?_
        rw [hJoined, String.empty_append, String.append_assoc]
      · refine infix_of_part (e.text ++ ", ") "" (Expr.infix_texts (next :: es) entry hRest) ?_
        rw [hJoined, String.append_empty]

end

namespace Parse

/-! ### Where integers are read -/

/-- Whether integers are the values of tokens among some, and whether one of them is long is the
truth value beside them. -/
structure ReadsIntegers (tokens : List Token) (entries : List (Token × Int)) (long : Bool) :
    Prop where
  spelled : ∀ entry ∈ entries, entry.1 ∈ tokens ∧ entry.1.kind = .int
    ∧ ∃ value : Nat, entry.2 = value ∧ Number.integerValue? entry.1.literal.toList = some value
  long : long = entries.any fun entry => Number.isLong entry.2

/-- Whether the integers of an expression are the values of tokens among some. -/
abbrev ReadFrom (tokens : List Token) (e : Expr) : Prop :=
  ReadsIntegers tokens e.integers e.hasLongInteger

section Integers

variable {tokens : List Token} {entries more : List (Token × Int)} {long long' : Bool}

theorem readsIntegers_nil : ReadsIntegers tokens [] false where
  spelled _ hMem := absurd hMem List.not_mem_nil
  long := rfl

/-- What is read in a row reads the integers of both parts. -/
theorem ReadsIntegers.append (hEntries : ReadsIntegers tokens entries long)
    (hMore : ReadsIntegers tokens more long') :
    ReadsIntegers tokens (entries ++ more) (long || long') where
  spelled := List.forall_mem_append.mpr ⟨hEntries.spelled, hMore.spelled⟩
  long := by rw [List.any_append, hEntries.long, hMore.long]

/-- Expressions that were read hold integers that were read. -/
theorem readsIntegers_all {es : List Expr} (hRead : ∀ e ∈ es, ReadFrom tokens e) :
    ReadsIntegers tokens (Expr.allIntegers es) (Expr.anyLongInteger es) := by
  induction es with
  | nil => exact readsIntegers_nil
  | cons e es ih =>
      rw [List.forall_mem_cons] at hRead
      exact hRead.1.append (ih hRead.2)

end Integers

/-- Whether a step delivers only good values when it is started in a state with some tokens left. -/
def GivesAt {α : Type} (tokens : List Token) (Good : α → Prop) (step : ParseM α) (s : State) :
    Prop :=
  s.cursor.rest ⊆ tokens → ∀ a s', step s = .ok a s' → Good a

/-- Whether a step delivers only good values wherever some tokens are left. -/
def GivesFrom {α : Type} (tokens : List Token) (Good : α → Prop) (step : ParseM α) : Prop :=
  ∀ s, GivesAt tokens Good step s

section Steps

variable {α β : Type} {tokens : List Token} {P : α → Prop} {Q : β → Prop} {step : ParseM α}
  {next : α → ParseM β}

/-- Two steps in a row give what the second does, from where the first has got to. -/
theorem GivesAt.bind [hBuilt : Built step] {s : State} (hFirst : GivesAt tokens P step s)
    (hThen : ∀ a, P a → GivesFrom tokens Q (next a)) : GivesAt tokens Q (step >>= next) s := by
  intro hTokens b s' hRun
  obtain ⟨a, middle, hStep, hNext⟩ := bind_ok hRun
  have hLater := hBuilt.later s
  rw [hStep] at hLater
  exact hThen a (hFirst hTokens a middle hStep) middle
    (List.Subset.trans hLater.rest.subset hTokens) b s' hNext

/-- A step of which only the effect counts may stand in front of another. -/
theorem GivesAt.after [Built step] {s : State} (hThen : ∀ a, GivesFrom tokens Q (next a)) :
    GivesAt tokens Q (step >>= next) s :=
  .bind (fun _ _ _ _ => trivial : GivesAt tokens (fun _ => True) step s) fun a _ => hThen a

/-- The same wherever they start. -/
theorem GivesFrom.bind [Built step] (hFirst : GivesFrom tokens P step)
    (hThen : ∀ a, P a → GivesFrom tokens Q (next a)) : GivesFrom tokens Q (step >>= next) :=
  fun s => (hFirst s).bind hThen

/-- A step whose value does not matter may stand in front. -/
theorem GivesFrom.after [Built step] (hThen : ∀ a, GivesFrom tokens Q (next a)) :
    GivesFrom tokens Q (step >>= next) :=
  fun _ => .after hThen

/-- What follows a look at the current token may count on the token. -/
theorem GivesAt.cur {next : Token → ParseM β} {s : State}
    (hNext : GivesAt tokens Q (next s.cursor.cur) s) : GivesAt tokens Q (cur >>= next) s := by
  intro hTokens b s' hRun
  rw [cur_bind] at hRun
  exact hNext hTokens b s' hRun

theorem givesFrom_pure {a : α} (hValue : P a) : GivesFrom tokens P (pure a) := by
  intro s _ b s' hRun
  cases hRun
  exact hValue

theorem givesFrom_abandon : GivesFrom tokens P abandon := fun _ _ => nofun

theorem givesFrom_outOfFuel : GivesFrom tokens P outOfFuel := fun _ _ => nofun

/-- A choice gives what both of its arms give. -/
theorem GivesFrom.ite {condition : Prop} [Decidable condition] {x y : ParseM α}
    (hThen : GivesFrom tokens P x) (hElse : GivesFrom tokens P y) :
    GivesFrom tokens P (if condition then x else y) := by
  split
  · exact hThen
  · exact hElse

/-- An attempt gives what the step gives, if it gives a value at all. -/
theorem GivesFrom.attempt (hStep : GivesFrom tokens P step) :
    GivesFrom tokens (fun result => ∀ a, result = some a → P a) (attempt step) := by
  intro s hTokens result s' hRun a hSome
  subst hSome
  unfold Parse.attempt at hRun
  cases hFirst : step s with
  | ok b middle =>
      rw [hFirst] at hRun
      cases hRun
      exact hStep s hTokens _ _ hFirst
  | error halt middle =>
      rw [hFirst] at hRun
      cases halt <;> cases hRun

end Steps

section Expressions

variable {tokens : List Token} {fuel : Nat}

/-- The value of a current integer token is read from it. -/
theorem givesAt_integerLiteral {s : State} (hKind : s.cursor.cur.kind = .int) :
    GivesAt tokens (ReadFrom tokens) integerLiteral s := by
  intro hTokens
  have hMem : s.cursor.cur ∈ tokens := by
    unfold Cursor.cur at hKind ⊢
    cases hRest : s.cursor.rest with
    | nil =>
        rw [hRest] at hKind
        cases hKind
    | cons token more =>
        rw [hRest] at hTokens
        exact hTokens List.mem_cons_self
  refine GivesAt.cur ?_ hTokens
  split
  next value hValue =>
    refine givesFrom_pure ?_ s
    refine ⟨List.forall_mem_singleton.mpr ⟨hMem, hKind, value, rfl, hValue⟩, ?_⟩
    rw [Expr.hasLongInteger, Number.isUnrenderable_eq, Expr.integers, List.any_cons, List.any_nil,
      Bool.or_false]
  next => exact .after fun _ => givesFrom_pure readsIntegers_nil

/-- A float holds no integer. -/
theorem givesFrom_floatLiteral : GivesFrom tokens (ReadFrom tokens) floatLiteral := by
  refine .after fun token => ?_
  split
  · exact givesFrom_pure readsIntegers_nil
  · exact .after fun _ => givesFrom_pure readsIntegers_nil

theorem givesFrom_curIdent : GivesFrom tokens (ReadFrom tokens) curIdent :=
  .after fun _ => givesFrom_pure readsIntegers_nil

structure GivesRead (tokens : List Token) (fuel : Nat) : Prop where
  expression : ∀ level, GivesFrom tokens (ReadFrom tokens) (expression fuel level)
  operators : ∀ level left, ReadFrom tokens left →
    GivesFrom tokens (ReadFrom tokens) (operators fuel level left)
  arguments : GivesFrom tokens (fun es => ∀ e ∈ es, ReadFrom tokens e) (arguments fuel)
  expressions : GivesFrom tokens (fun es => ∀ e ∈ es, ReadFrom tokens e) (expressions fuel)

/-- An operand and what its operators add were read from the tokens. -/
theorem givesFrom_expression_succ (h : GivesRead tokens fuel) (level : Nat) :
    GivesFrom tokens (ReadFrom tokens) (expression (fuel + 1) level) := by
  refine fun s => .cur ?_
  split
  case h_2 hKind => exact (givesAt_integerLiteral hKind).bind (h.operators level)
  case h_3 => exact (givesFrom_floatLiteral s).bind (h.operators level)
  case h_10 | h_11 | h_12 =>
    exact .after fun _ => (h.expression _).bind fun operand hOperand =>
      h.operators level _ hOperand
  case h_13 =>
    refine .after fun _ => (h.expression _).bind fun inner hInner => .after fun closed => ?_
    refine h.operators level _ ?_
    split
    · exact hInner
    · exact readsIntegers_nil
  case h_14 => exact .after fun _ => givesFrom_pure readsIntegers_nil
  all_goals exact h.operators level _ readsIntegers_nil s

/-- Every operand that joins an expression was read from the tokens. -/
theorem givesFrom_operators_succ (h : GivesRead tokens fuel) (level : Nat) {left : Expr}
    (hLeft : ReadFrom tokens left) :
    GivesFrom tokens (ReadFrom tokens) (operators (fuel + 1) level left) := by
  refine .after fun next => .ite (givesFrom_pure hLeft) (.after fun _ => ?_)
  split
  · exact h.arguments.bind fun args hArgs =>
      h.operators level _ (hLeft.append (readsIntegers_all hArgs))
  · refine .after fun _ => (h.expression _).bind fun position hPosition => .after fun closed => ?_
    refine h.operators level _ ?_
    split
    · exact hLeft.append hPosition
    · exact readsIntegers_nil
  · refine .after fun found => .ite ?_ (h.operators level _ readsIntegers_nil)
    exact givesFrom_curIdent.bind fun field hField => h.operators level _ (hLeft.append hField)
  · refine .after fun _ => (h.expression _).bind fun right hRight => ?_
    exact h.operators level _ (hLeft.append hRight)

theorem givesFrom_arguments_succ (h : GivesRead tokens fuel) :
    GivesFrom tokens (fun es => ∀ e ∈ es, ReadFrom tokens e) (arguments (fuel + 1)) := by
  have hNone : ∀ e ∈ [], ReadFrom tokens e := fun _ hMem => absurd hMem List.not_mem_nil
  refine .after fun empty => .ite (.after fun _ => givesFrom_pure hNone) (.after fun _ => ?_)
  refine h.expressions.attempt.bind fun result hResult => ?_
  cases result with
  | none => exact givesFrom_pure hNone
  | some args =>
      refine .after fun closed => givesFrom_pure ?_
      split
      · exact hResult args rfl
      · exact hNone

theorem givesFrom_expressions_succ (h : GivesRead tokens fuel) :
    GivesFrom tokens (fun es => ∀ e ∈ es, ReadFrom tokens e) (expressions (fuel + 1)) := by
  refine (h.expression _).bind fun first hFirst => .ite givesFrom_abandon (.after fun more => ?_)
  refine .ite (.after fun _ => .after fun _ => ?_) ?_
  · exact h.expressions.bind fun rest hRest =>
      givesFrom_pure (List.forall_mem_cons.mpr ⟨hFirst, hRest⟩)
  · exact givesFrom_pure (List.forall_mem_singleton.mpr hFirst)

/-- Whatever the fuel, the expressions that are read come from the tokens. -/
theorem givesRead (tokens : List Token) (fuel : Nat) : GivesRead tokens fuel := by
  induction fuel with
  | zero =>
      exact ⟨fun _ => givesFrom_outOfFuel, fun _ _ _ => givesFrom_outOfFuel, givesFrom_outOfFuel,
        givesFrom_outOfFuel⟩
  | succ fuel ih =>
      exact ⟨givesFrom_expression_succ ih, fun level _ => givesFrom_operators_succ ih level,
        givesFrom_arguments_succ ih, givesFrom_expressions_succ ih⟩

/-- The integers of expressions are read from the tokens that are left. -/
theorem readFrom_readExprs {s s' : State} {es : List Expr} (hRun : readExprs s = .ok es s') :
    ∀ e ∈ es, ReadFrom s.cursor.rest e := by
  rw [readExprs, tokensLeft_bind] at hRun
  exact (givesRead s.cursor.rest _).expressions s (List.Subset.refl _) es s' hRun

end Expressions

end Parse

end TryGo
