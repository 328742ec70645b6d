import TryGo.Proofs.GoReading.Regroup
import TryGo.Proofs.Token.Literal

/-! When parentheses can be dropped. A tree is regrouped as if it were printed with the
parentheses that the levels of the parser call for. A phrase is regrouped to the same tree
unless an equality in it has an order comparison in parentheses right behind it, at the start of
its right operand: those parentheses are not called for, and without them Go reads on. -/
namespace TryGo

namespace Expr

/-- A tree with what stands in front of it, if anything does. -/
def attach : Option (Expr × String) → Expr → Expr
  | none, e => e
  | some (left, op), e => .binary .blank left op e

mutual

/-- The tree that Go sees in the printed form of a tree with something in front of it, without
tokens. -/
def regroup (front : Option (Expr × String)) : Expr → Expr
  | .binary _ left op right =>
      if (operatorKind op).isRelational then
        .binary .blank (left.regroup front) op (right.regroup none)
      else if (operatorKind op).isEquality then
        attach front (right.regroup (some (left.regroup none, op)))
      else attach front (.binary .blank (left.regroup none) op (right.regroup none))
  | .unary _ op operand => attach front (.unary .blank op (operand.regroup none))
  | .call _ callee args => attach front (.call .blank (callee.regroup none) (regroupAll args))
  | .select _ left field => attach front (.select .blank (left.regroup none) field.erase)
  | .index _ left position =>
      attach front (.index .blank (left.regroup none) (position.regroup none))
  | e => attach front e.erase

def regroupAll : List Expr → List Expr
  | [] => []
  | e :: es => e.regroup none :: regroupAll es

end

mutual

/-- Tokens are forgotten once. -/
theorem erase_erase : (e : Expr) → e.erase.erase = e.erase
  | .missing | .ident _ _ | .int _ _ | .float _ _ | .str _ _ _ | .char _ _ | .bool _ _ | .nil _
  | .foreign _ _ _ => rfl
  | .unary _ _ operand => by simp only [erase, operand.erase_erase]
  | .binary _ left _ right => by simp only [erase, left.erase_erase, right.erase_erase]
  | .call _ callee args => by simp only [erase, callee.erase_erase, eraseAll_eraseAll args]
  | .select _ left field => by simp only [erase, left.erase_erase, field.erase_erase]
  | .index _ left position => by simp only [erase, left.erase_erase, position.erase_erase]

theorem eraseAll_eraseAll : (es : List Expr) → eraseAll (eraseAll es) = eraseAll es
  | [] => rfl
  | e :: es => by simp only [eraseAll, e.erase_erase, eraseAll_eraseAll es]

end

mutual

/-- Regrouping does not look at tokens. -/
theorem regroup_erase : (e : Expr) → (front : Option (Expr × String)) →
    e.erase.regroup front = e.regroup front
  | .missing, _ | .ident _ _, _ | .int _ _, _ | .float _ _, _ | .str _ _ _, _ | .char _ _, _
  | .bool _ _, _ | .nil _, _ | .foreign _ _ _, _ => rfl
  | .unary _ _ operand, _ => by simp only [erase, regroup, operand.regroup_erase]
  | .binary _ left _ right, _ => by
      simp only [erase, regroup, left.regroup_erase, right.regroup_erase]
  | .call _ callee args, _ => by
      simp only [erase, regroup, callee.regroup_erase, regroupAll_eraseAll args]
  | .select _ left field, _ => by simp only [erase, regroup, left.regroup_erase, field.erase_erase]
  | .index _ left position, _ => by
      simp only [erase, regroup, left.regroup_erase, position.regroup_erase]

/-- Regrouping does not look at tokens. -/
theorem regroupAll_eraseAll : (es : List Expr) → regroupAll (eraseAll es) = regroupAll es
  | [] => rfl
  | e :: es => by simp only [eraseAll, regroupAll, e.regroup_erase, regroupAll_eraseAll es]

end

def isOrder : Expr → Bool
  | .binary _ _ op _ => (operatorKind op).isRelational
  | _ => false

/-- Only an order comparison takes in what stands in front of it. -/
theorem regroup_of_not_isOrder {e : Expr} (hOrder : e.isOrder = false)
    (front : Option (Expr × String)) : e.regroup front = attach front (e.regroup none) := by
  cases e with
  | binary token left op right =>
      rw [isOrder] at hOrder
      simp only [regroup, hOrder, Bool.false_eq_true, if_false]
      split <;> rfl
  | _ => rfl

end Expr

namespace ExprPhrase

/-- Whether a phrase is an order comparison, in parentheses or not. -/
def isOrder : ExprPhrase → Bool
  | .group _ inner _ => inner.isOrder
  | .binary _ op _ _ => op.kind.isRelational
  | _ => false

/-- Whether a chain of order comparisons starts with an order comparison in parentheses. What is
no such comparison is a chain of one. -/
def leadsWithOrder : ExprPhrase → Bool
  | .group _ inner _ => inner.isOrder
  | .binary left op _ _ => op.kind.isRelational && left.leadsWithOrder
  | _ => false

end ExprPhrase

mutual

/-- Whether no equality has a right operand that leads with an order comparison. -/
def ExprPhrase.isFaithful : ExprPhrase → Bool
  | .atom _ _ _ => true
  | .group _ inner _ => inner.isFaithful
  | .unary _ _ operand => operand.isFaithful
  | .binary left op _ right =>
      !(op.kind.isEquality && right.leadsWithOrder) && left.isFaithful && right.isFaithful
  | .callEmpty callee _ _ => callee.isFaithful
  | .call callee _ args _ => callee.isFaithful && args.isFaithful
  | .select left _ _ => left.isFaithful
  | .index left _ position _ => left.isFaithful && position.isFaithful

def ExprsPhrase.isFaithful : ExprsPhrase → Bool
  | .last e => e.isFaithful
  | .more e _ rest => e.isFaithful && rest.isFaithful

end

/-! ### Phrases and their trees -/

/-- Where the spelling of a kind tells the kind, the literal of a token does. -/
theorem operatorKind_of_fixed {op : Token} (hLexed : op.Lexed)
    (hTable : op.kind.fixed?.map operatorKind = some op.kind) :
    operatorKind op.literal = op.kind := by
  obtain ⟨text, hText, hKind⟩ := Option.map_eq_some_iff.mp hTable
  rw [hLexed.fixed text hText, hKind]

/-- The literal of a binary operator tells its kind. -/
theorem operatorKind_literal {op : Token} (hLexed : op.Lexed) (hBinary : op.kind.isBinary = true) :
    operatorKind op.literal = op.kind := by
  have hTable : ∀ kind ∈ TokenKind.binaryKinds, kind.fixed?.map operatorKind = some kind := by
    decide
  exact operatorKind_of_fixed hLexed (hTable op.kind (TokenKind.mem_binaryKinds hBinary))

/-- An operand is no order, and stays as it is. -/
theorem isOrder_operand {token : Token} {value : Expr} (hValue : operand? token = some value) :
    value.isOrder = false ∧ value.regroup none = value.erase := by
  unfold operand? at hValue
  split at hValue <;> simp only [Option.map_eq_some_iff, Option.some.injEq, reduceCtorEq] at hValue
  all_goals first
    | (subst hValue; exact ⟨rfl, rfl⟩)
    | (obtain ⟨_, _, rfl⟩ := hValue; exact ⟨rfl, rfl⟩)

/-- A tree is an order if its phrase is. -/
theorem ExprPhrase.isOrder_tree : (phrase : ExprPhrase) → AllLexed phrase.tokens →
    phrase.tree.isOrder = phrase.isOrder
  | .atom _ _ hValue, _ => (isOrder_operand hValue).1
  | .group _ inner _, hLexed => by
      simp only [ExprPhrase.tokens, allLexed_cons, allLexed_append] at hLexed
      exact inner.isOrder_tree hLexed.2.1
  | .binary _ op hOp _, hLexed => by
      simp only [ExprPhrase.tokens, allLexed_cons, allLexed_append] at hLexed
      rw [ExprPhrase.tree, Expr.isOrder, operatorKind_literal hLexed.2.1 hOp]
      rfl
  | .unary _ _ _, _ | .callEmpty _ _ _, _ | .call _ _ _ _, _ | .select _ _ _, _
  | .index _ _ _ _, _ => rfl

/-- Whether a phrase is regrouped like its tree exactly if it is faithful, on its own and behind an
equality. Behind an equality the operands in front have to agree as well, and the phrase
must not lead with an order comparison. -/
structure ExprPhrase.AgreesIffFaithful (phrase : ExprPhrase) : Prop where
  free : (phrase.regroup none).tree.erase = phrase.tree.regroup none ↔ phrase.isFaithful = true
  behind : ∀ (front : Front) (left : Expr), front.op.Lexed → front.op.kind.isEquality = true →
    ((phrase.regroup (some front)).tree.erase =
        phrase.tree.regroup (some (left, front.op.literal)) ↔
      front.left.tree.erase = left ∧ phrase.leadsWithOrder = false ∧ phrase.isFaithful = true)

section Agreement

variable {phrase inner left right : ExprPhrase} {tree : Expr} {op : Token}
  {hOp : op.kind.isBinary = true}

/-- A phrase that takes in nothing agrees if what it is regrouped to does. -/
theorem agrees_of_attach (hPhrase : ∀ front, phrase.regroup front = Front.attach front inner)
    (hTree : ∀ front, phrase.tree.regroup front = Expr.attach front tree)
    (hInner : inner.tree.erase = tree ↔ phrase.isFaithful = true)
    (hLeads : phrase.leadsWithOrder = false) : phrase.AgreesIffFaithful := by
  refine ⟨?_, fun front left hLexed hEquality => ?_⟩
  · rw [hPhrase, hTree]
    exact hInner
  · rw [hPhrase, hTree]
    simp only [Front.attach, Expr.attach, ExprPhrase.tree, Expr.erase, Expr.binary.injEq, true_and,
      hInner, hLeads]

/-- Parentheses around an order comparison keep an equality out that would be taken in. -/
theorem agrees_group (opening : Mark .lparen) (closing : Mark .rparen)
    (hLexed : AllLexed inner.tokens) (hInner : inner.AgreesIffFaithful) :
    (ExprPhrase.group opening inner closing).AgreesIffFaithful := by
  cases hOrder : inner.isOrder with
  | false =>
      refine agrees_of_attach (fun _ => rfl) (fun front => ?_) hInner.free hOrder
      exact Expr.regroup_of_not_isOrder ((inner.isOrder_tree hLexed).trans hOrder) front
  | true =>
      refine ⟨hInner.free, fun front left hFront hEquality => ?_⟩
      have hTree : inner.tree.isOrder = true := (inner.isOrder_tree hLexed).trans hOrder
      have hKind := operatorKind_literal hFront front.hOp
      have hLeads : (ExprPhrase.group opening inner closing).leadsWithOrder = true := hOrder
      rw [hLeads]
      refine ⟨fun hSame => ?_, fun hFalse => absurd hFalse.2.1 (by decide)⟩
      -- one side is an equality and the other an order comparison
      cases hCases : inner.tree with
      | binary token first inside last =>
          rw [hCases, Expr.isOrder] at hTree
          rw [ExprPhrase.tree, hCases, Expr.regroup, if_pos hTree] at hSame
          obtain rfl : front.op.literal = inside := (Expr.binary.inj hSame).2.2.1
          rw [hKind] at hTree
          rw [TokenKind.isEquality_of_isRelational hTree] at hEquality
          cases hEquality
      | _ =>
          rw [hCases] at hTree
          cases hTree

/-- An order is regrouped faithfully if both of its sides are. -/
theorem agrees_relational (hRelational : op.kind.isRelational = true) (hLexed : op.Lexed)
    (hLeft : left.AgreesIffFaithful) (hRight : right.AgreesIffFaithful) :
    (ExprPhrase.binary left op hOp right).AgreesIffFaithful := by
  have hKind := operatorKind_literal hLexed hOp
  have hEquality := TokenKind.isEquality_of_isRelational hRelational
  refine ⟨?_, fun front first hFront hFrontKind => ?_⟩
  · simp only [ExprPhrase.regroup, ExprPhrase.tree, Expr.regroup, hKind, hRelational, if_true,
      Expr.erase, Expr.binary.injEq, true_and, hLeft.free, hRight.free, ExprPhrase.isFaithful,
      hEquality, Bool.false_and, Bool.not_false, Bool.true_and, Bool.and_eq_true]
  · simp only [ExprPhrase.regroup, ExprPhrase.tree, Expr.regroup, hKind, hRelational, if_true,
      Expr.erase, Expr.binary.injEq, true_and, hLeft.behind front first hFront hFrontKind,
      hRight.free, ExprPhrase.isFaithful, ExprPhrase.leadsWithOrder, hEquality, Bool.false_and,
      Bool.not_false, Bool.true_and, Bool.and_eq_true, and_assoc]

/-- An equality is regrouped faithfully if its sides are and nothing is taken from the right one. -/
theorem agrees_equality (hEquality : op.kind.isEquality = true) (hLexed : op.Lexed)
    (hLeft : left.AgreesIffFaithful) (hRight : right.AgreesIffFaithful) :
    (ExprPhrase.binary left op hOp right).AgreesIffFaithful := by
  have hKind := operatorKind_literal hLexed hOp
  have hRelational : op.kind.isRelational = false := by
    rw [Bool.eq_false_iff]
    intro hRelational
    rw [TokenKind.isEquality_of_isRelational hRelational] at hEquality
    cases hEquality
  have hBehind := hRight.behind ⟨left.regroup none, op, hOp⟩ (left.tree.regroup none) hLexed hEquality
  refine agrees_of_attach (fun front => ?_) (fun front => ?_) (hBehind.trans ?_) ?_
  · rw [ExprPhrase.regroup, hRelational, hEquality]
    rfl
  · simp only [ExprPhrase.tree, Expr.regroup, hKind, hRelational, hEquality, Bool.false_eq_true,
      if_false, if_true]
  · simp only [hLeft.free, ExprPhrase.isFaithful, hEquality, Bool.true_and, Bool.and_eq_true,
      Bool.not_eq_true', and_left_comm, and_assoc]
  · rw [ExprPhrase.leadsWithOrder, hRelational]
    rfl

/-- Any other operator is regrouped faithfully if its sides are. -/
theorem agrees_other (hRelational : op.kind.isRelational = false)
    (hEquality : op.kind.isEquality = false) (hLexed : op.Lexed)
    (hLeft : left.AgreesIffFaithful) (hRight : right.AgreesIffFaithful) :
    (ExprPhrase.binary left op hOp right).AgreesIffFaithful := by
  have hKind := operatorKind_literal hLexed hOp
  have hInner : (ExprPhrase.binary (left.regroup none) op hOp (right.regroup none)).tree.erase =
      .binary .blank (left.tree.regroup none) op.literal (right.tree.regroup none) ↔
        (ExprPhrase.binary left op hOp right).isFaithful = true := by
    simp only [ExprPhrase.tree, Expr.erase, Expr.binary.injEq, true_and, hLeft.free, hRight.free,
      ExprPhrase.isFaithful, hEquality, Bool.false_and, Bool.not_false, Bool.true_and,
      Bool.and_eq_true]
  refine agrees_of_attach (fun front => ?_) (fun front => ?_) hInner ?_
  · rw [ExprPhrase.regroup, hRelational, hEquality]
    rfl
  · simp only [ExprPhrase.tree, Expr.regroup, hKind, hRelational, hEquality, Bool.false_eq_true,
      if_false]
  · rw [ExprPhrase.leadsWithOrder, hRelational]
    rfl

end Agreement

mutual

/-- A phrase is regrouped like its tree exactly if it is faithful. -/
theorem ExprPhrase.agrees : (phrase : ExprPhrase) → AllLexed phrase.tokens →
    phrase.AgreesIffFaithful
  | .atom token value hValue, _ => by
      obtain ⟨hOrder, hRegroup⟩ := isOrder_operand hValue
      refine agrees_of_attach (fun _ => rfl)
        (fun front => Expr.regroup_of_not_isOrder hOrder front) ?_ rfl
      rw [hRegroup]
      exact iff_of_true rfl rfl
  | .group opening inner closing, hLexed => by
      simp only [ExprPhrase.tokens, allLexed_cons, allLexed_append] at hLexed
      exact agrees_group opening closing hLexed.2.1 (inner.agrees hLexed.2.1)
  | .unary op hOp operand, hLexed => by
      simp only [ExprPhrase.tokens, allLexed_cons] at hLexed
      refine agrees_of_attach (fun _ => rfl) (fun _ => rfl) ?_ rfl
      simp only [ExprPhrase.tree, Expr.erase, Expr.unary.injEq, true_and,
        (operand.agrees hLexed.2).free, ExprPhrase.isFaithful]
  | .binary left op hOp right, hLexed => by
      simp only [ExprPhrase.tokens, allLexed_cons, allLexed_append] at hLexed
      have hLeft := left.agrees hLexed.1
      have hRight := right.agrees hLexed.2.2
      cases hRelational : op.kind.isRelational with
      | true => exact agrees_relational hRelational hLexed.2.1 hLeft hRight
      | false =>
          cases hEquality : op.kind.isEquality with
          | true => exact agrees_equality hEquality hLexed.2.1 hLeft hRight
          | false => exact agrees_other hRelational hEquality hLexed.2.1 hLeft hRight
  | .callEmpty callee opening closing, hLexed => by
      simp only [ExprPhrase.tokens, allLexed_append] at hLexed
      refine agrees_of_attach (fun _ => rfl) (fun _ => rfl) ?_ rfl
      simp only [ExprPhrase.tree, Expr.erase, Expr.call.injEq, true_and, Expr.regroupAll,
        Expr.eraseAll, and_true, (callee.agrees hLexed.1).free, ExprPhrase.isFaithful]
  | .call callee opening args closing, hLexed => by
      simp only [ExprPhrase.tokens, allLexed_append, allLexed_cons] at hLexed
      refine agrees_of_attach (fun _ => rfl) (fun _ => rfl) ?_ rfl
      simp only [ExprPhrase.tree, Expr.erase, Expr.call.injEq, true_and,
        (callee.agrees hLexed.1).free, args.agree hLexed.2.2.1, ExprPhrase.isFaithful,
        Bool.and_eq_true]
  | .select left dot field, hLexed => by
      simp only [ExprPhrase.tokens, allLexed_append] at hLexed
      refine agrees_of_attach (fun _ => rfl) (fun _ => rfl) ?_ rfl
      simp only [ExprPhrase.tree, Expr.erase, Expr.select.injEq, true_and, and_true,
        (left.agrees hLexed.1).free, ExprPhrase.isFaithful]
  | .index left opening position closing, hLexed => by
      simp only [ExprPhrase.tokens, allLexed_append, allLexed_cons] at hLexed
      refine agrees_of_attach (fun _ => rfl) (fun _ => rfl) ?_ rfl
      simp only [ExprPhrase.tree, Expr.erase, Expr.index.injEq, true_and,
        (left.agrees hLexed.1).free, (position.agrees hLexed.2.2.1).free, ExprPhrase.isFaithful,
        Bool.and_eq_true]

/-- Expressions between commas are regrouped one by one. -/
theorem ExprsPhrase.agree : (phrase : ExprsPhrase) → AllLexed phrase.tokens →
    (Expr.eraseAll phrase.regroup.trees = Expr.regroupAll phrase.trees ↔ phrase.isFaithful = true)
  | .last e, hLexed => by
      simp only [ExprsPhrase.regroup, ExprsPhrase.trees, Expr.eraseAll, Expr.regroupAll,
        List.cons.injEq, and_true, (e.agrees hLexed).free, ExprsPhrase.isFaithful]
  | .more e comma rest, hLexed => by
      simp only [ExprsPhrase.tokens, allLexed_append, allLexed_cons] at hLexed
      simp only [ExprsPhrase.regroup, ExprsPhrase.trees, Expr.eraseAll, Expr.regroupAll,
        List.cons.injEq, (e.agrees hLexed.1).free, rest.agree hLexed.2.2, ExprsPhrase.isFaithful,
        Bool.and_eq_true]

end

/-! ### Printed phrases -/

/-- What is in parentheses below the level of order comparisons is none. -/
theorem ExprPhrase.isOrder_of_level_lt {phrase : ExprPhrase}
    (hLevel : phrase.level TokenKind.level < Precedence.lessGreater.level) :
    phrase.isOrder = false := by
  cases phrase with
  | group => exact absurd hLevel (by simp [ExprPhrase.level, Precedence.level])
  | binary left op hOp right =>
      rw [Bool.eq_false_iff]
      intro hOrder
      have hKind := (TokenKind.level_of_isRelational hOrder).1
      exact absurd hLevel (Nat.not_lt.mpr (Nat.le_of_eq hKind.symm))
  | _ => rfl

/-- A chain without needless parentheses does not lead with an order comparison in parentheses. -/
theorem ExprPhrase.leadsWithOrder_of_sparing : (phrase : ExprPhrase) →
    phrase.BareAt TokenKind.level Precedence.lessGreater.level → phrase.Sparing TokenKind.level →
      phrase.leadsWithOrder = false
  | .group _ inner _, hBare, _ => ExprPhrase.isOrder_of_level_lt hBare
  | .binary left op _ _, _, hSparing => by
      rw [ExprPhrase.leadsWithOrder]
      cases hRelational : op.kind.isRelational with
      | false => rfl
      | true =>
          have hBare := hSparing.1
          rw [(TokenKind.level_of_isRelational hRelational).1] at hBare
          exact left.leadsWithOrder_of_sparing hBare hSparing.2.2.1
  | .atom _ _ _, _, _ | .unary _ _ _, _, _ | .callEmpty _ _ _, _, _ | .call _ _ _ _, _, _
  | .select _ _ _, _, _ | .index _ _ _ _, _, _ => rfl

mutual

/-- A phrase without needless parentheses is faithful. -/
theorem ExprPhrase.isFaithful_of_sparing : (phrase : ExprPhrase) →
    phrase.Sparing TokenKind.level → phrase.isFaithful = true
  | .atom _ _ _, _ => rfl
  | .group _ inner _, hSparing => inner.isFaithful_of_sparing hSparing.2
  | .unary _ _ operand, hSparing => operand.isFaithful_of_sparing hSparing.2
  | .binary left op _ right, hSparing => by
      obtain ⟨-, hBare, hLeft, hRight⟩ := hSparing
      rw [ExprPhrase.isFaithful, left.isFaithful_of_sparing hLeft,
        right.isFaithful_of_sparing hRight]
      cases hEquality : op.kind.isEquality with
      | false => rfl
      | true =>
          rw [(TokenKind.level_of_isEquality hEquality).1] at hBare
          rw [right.leadsWithOrder_of_sparing hBare hRight]
          rfl
  | .callEmpty callee _ _, hSparing => callee.isFaithful_of_sparing hSparing.2
  | .call callee _ args _, hSparing => by
      obtain ⟨-, hCallee, hArgs⟩ := hSparing
      rw [ExprPhrase.isFaithful, callee.isFaithful_of_sparing hCallee,
        args.isFaithful_of_sparing hArgs]
      rfl
  | .select left _ _, hSparing => left.isFaithful_of_sparing hSparing.2
  | .index left _ position _, hSparing => by
      obtain ⟨-, -, hLeft, hPosition⟩ := hSparing
      rw [ExprPhrase.isFaithful, left.isFaithful_of_sparing hLeft,
        position.isFaithful_of_sparing hPosition]
      rfl

/-- A list with only the groups it needs is faithful as it is printed. -/
theorem ExprsPhrase.isFaithful_of_sparing : (phrase : ExprsPhrase) →
    phrase.Sparing TokenKind.level → phrase.isFaithful = true
  | .last e, hSparing => e.isFaithful_of_sparing hSparing.2
  | .more e _ rest, hSparing => by
      obtain ⟨-, hFirst, hRest⟩ := hSparing
      rw [ExprsPhrase.isFaithful, e.isFaithful_of_sparing hFirst, rest.isFaithful_of_sparing hRest]
      rfl

end

end TryGo
