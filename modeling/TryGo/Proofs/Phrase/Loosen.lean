import TryGo.Proofs.GoReading.Phrase
import TryGo.Proofs.Phrase.Layout
import TryGo.Proofs.Phrase.Yield

/-! Phrases without one pair of their grouping parentheses. If the parentheses of a phrase are
spared where they can be, what is left when a pair is taken out is no longer levelled. Only the
parentheses around a unary phrase under a unary operator can be spared in any case. -/
namespace TryGo

/-- Whether a text is that of some tiles with an opening and a closing token taken out. The blanks
in front of the opening one stay. -/
def Omits (opening closing : Token) (tiles : List Tile) (text : List Char) : Prop :=
  ∃ front blank middle back,
    tiles = front ++ opening.tile blank :: (middle ++ closing.tile [] :: back)
      ∧ text = front.flatMap Tile.chars
        ++ (blank ++ (middle.flatMap Tile.chars ++ back.flatMap Tile.chars))

/-- What is omitted inside a text is omitted from the whole. -/
theorem Omits.within {opening closing : Token} {tiles : List Tile} {text : List Char}
    (hOmits : Omits opening closing tiles text) (before after : List Tile) :
    Omits opening closing (before ++ (tiles ++ after))
      (before.flatMap Tile.chars ++ (text ++ after.flatMap Tile.chars)) := by
  obtain ⟨front, blank, middle, back, rfl, rfl⟩ := hOmits
  exact ⟨before ++ front, blank, middle, back ++ after, by simp, by simp⟩

/-- Whether a phrase is left when a pair of grouping parentheses is taken out of another one. -/
structure ExprPhrase.Loosens (opening closing : Token) (phrase loose : ExprPhrase) : Prop where
  tree : loose.tree = phrase.tree
  tokens : loose.tokens.Sublist phrase.tokens
  text : ∀ gap, Omits opening closing (phrase.tiles gap) (gap ++ loose.source)

structure ExprsPhrase.Loosen (opening closing : Token) (phrase loose : ExprsPhrase) : Prop where
  trees : loose.trees = phrase.trees
  tokens : loose.tokens.Sublist phrase.tokens
  text : ∀ gap, Omits opening closing (phrase.tiles gap) (gap ++ loose.source)

namespace ExprPhrase

variable {opening closing : Token} {phrase loose : ExprPhrase}

/-- A group is loosened by leaving its brackets out. -/
theorem loosens_group (opening : Mark .lparen) (inner : ExprPhrase) (closing : Mark .rparen) :
    (ExprPhrase.group opening inner closing).Loosens opening.val closing.val inner where
  tree := rfl
  tokens := (List.sublist_append_left _ _).cons _
  text gap := ⟨[], gap, inner.tiles [], [], rfl, by simp [inner.flatMap_tiles]⟩

namespace Loosens

variable (hLoosens : phrase.Loosens opening closing loose)

include hLoosens

/-- What is loosened in a group is loosened in the same group. -/
theorem group (outer : Mark .lparen) (last : Mark .rparen) :
    (ExprPhrase.group outer phrase last).Loosens opening closing (.group outer loose last) where
  tree := hLoosens.tree
  tokens := (hLoosens.tokens.append_right _).cons_cons _
  text gap := by
    have hText := (hLoosens.text []).within [outer.val.tile gap] [last.val.tile []]
    simpa [ExprPhrase.tiles, ExprPhrase.source] using hText

/-- An operand may be loosened under its operator. -/
theorem unary (op : Token) (hOp : op.kind.isUnary = true) :
    (ExprPhrase.unary op hOp phrase).Loosens opening closing (.unary op hOp loose) where
  tree := by rw [ExprPhrase.tree, ExprPhrase.tree, hLoosens.tree]
  tokens := hLoosens.tokens.cons_cons _
  text gap := by
    have hText := (hLoosens.text []).within [op.tile gap] []
    simpa [ExprPhrase.tiles, ExprPhrase.source] using hText

/-- The left side of an operator may be loosened. -/
theorem left (op : Token) (hOp : op.kind.isBinary = true) (right : ExprPhrase) :
    (ExprPhrase.binary phrase op hOp right).Loosens opening closing
      (.binary loose op hOp right) where
  tree := by rw [ExprPhrase.tree, ExprPhrase.tree, hLoosens.tree]
  tokens := hLoosens.tokens.append_right _
  text gap := by
    have hText := (hLoosens.text gap).within [] (op.tile [' '] :: right.tiles [' '])
    simpa [ExprPhrase.tiles, ExprPhrase.source, right.flatMap_tiles] using hText

/-- The right side of an operator may be loosened. -/
theorem right (left : ExprPhrase) (op : Token) (hOp : op.kind.isBinary = true) :
    (ExprPhrase.binary left op hOp phrase).Loosens opening closing
      (.binary left op hOp loose) where
  tree := by rw [ExprPhrase.tree, ExprPhrase.tree, hLoosens.tree]
  tokens := (hLoosens.tokens.cons_cons _).append_left _
  text gap := by
    have hText := (hLoosens.text [' ']).within (left.tiles gap ++ [op.tile [' ']]) []
    simpa [ExprPhrase.tiles, ExprPhrase.source, left.flatMap_tiles] using hText

/-- What is called may be loosened. -/
theorem callEmpty (first : Mark .lparen) (last : Mark .rparen) :
    (ExprPhrase.callEmpty phrase first last).Loosens opening closing
      (.callEmpty loose first last) where
  tree := by rw [ExprPhrase.tree, ExprPhrase.tree, hLoosens.tree]
  tokens := hLoosens.tokens.append_right _
  text gap := by
    have hText := (hLoosens.text gap).within [] [first.val.tile [], last.val.tile []]
    simpa [ExprPhrase.tiles, ExprPhrase.source] using hText

/-- What is called with arguments may be loosened. -/
theorem callee (first : Mark .lparen) (args : ExprsPhrase) (last : Mark .rparen) :
    (ExprPhrase.call phrase first args last).Loosens opening closing
      (.call loose first args last) where
  tree := by rw [ExprPhrase.tree, ExprPhrase.tree, hLoosens.tree]
  tokens := hLoosens.tokens.append_right _
  text gap := by
    have hText := (hLoosens.text gap).within []
      (first.val.tile [] :: (args.tiles [] ++ [last.val.tile []]))
    simpa [ExprPhrase.tiles, ExprPhrase.source, args.flatMap_tiles] using hText

/-- What a field is selected from may be loosened. -/
theorem select (dot : Mark .dot) (field : Mark .ident) :
    (ExprPhrase.select phrase dot field).Loosens opening closing (.select loose dot field) where
  tree := by rw [ExprPhrase.tree, ExprPhrase.tree, hLoosens.tree]
  tokens := hLoosens.tokens.append_right _
  text gap := by
    have hText := (hLoosens.text gap).within [] [dot.val.tile [], field.val.tile []]
    simpa [ExprPhrase.tiles, ExprPhrase.source] using hText

/-- What is looked into may be loosened. -/
theorem indexed (first : Mark .lbracket) (position : ExprPhrase) (last : Mark .rbracket) :
    (ExprPhrase.index phrase first position last).Loosens opening closing
      (.index loose first position last) where
  tree := by rw [ExprPhrase.tree, ExprPhrase.tree, hLoosens.tree]
  tokens := hLoosens.tokens.append_right _
  text gap := by
    have hText := (hLoosens.text gap).within []
      (first.val.tile [] :: (position.tiles [] ++ [last.val.tile []]))
    simpa [ExprPhrase.tiles, ExprPhrase.source, position.flatMap_tiles] using hText

/-- The index may be loosened between its brackets. -/
theorem position (left : ExprPhrase) (first : Mark .lbracket) (last : Mark .rbracket) :
    (ExprPhrase.index left first phrase last).Loosens opening closing
      (.index left first loose last) where
  tree := by rw [ExprPhrase.tree, ExprPhrase.tree, hLoosens.tree]
  tokens := ((hLoosens.tokens.append_right _).cons_cons _).append_left _
  text gap := by
    have hText := (hLoosens.text []).within (left.tiles gap ++ [first.val.tile []])
      [last.val.tile []]
    simpa [ExprPhrase.tiles, ExprPhrase.source, left.flatMap_tiles] using hText

/-- The last of some expressions may be loosened. -/
theorem last : (ExprsPhrase.last phrase).Loosen opening closing (.last loose) where
  trees := by rw [ExprsPhrase.trees, ExprsPhrase.trees, hLoosens.tree]
  tokens := hLoosens.tokens
  text := hLoosens.text

/-- The first of some expressions may be loosened. -/
theorem first (comma : Mark .comma) (rest : ExprsPhrase) :
    (ExprsPhrase.more phrase comma rest).Loosen opening closing (.more loose comma rest) where
  trees := by rw [ExprsPhrase.trees, ExprsPhrase.trees, hLoosens.tree]
  tokens := hLoosens.tokens.append_right _
  text gap := by
    have hText := (hLoosens.text gap).within [] (comma.val.tile [] :: rest.tiles [' '])
    simpa [ExprsPhrase.tiles, ExprsPhrase.source, rest.flatMap_tiles] using hText

end Loosens

end ExprPhrase

namespace ExprsPhrase.Loosen

variable {opening closing : Token} {args loose : ExprsPhrase}
  (hLoosen : args.Loosen opening closing loose)

include hLoosen

/-- The arguments of a call may be loosened. -/
theorem call (callee : ExprPhrase) (first : Mark .lparen) (last : Mark .rparen) :
    (ExprPhrase.call callee first args last).Loosens opening closing
      (.call callee first loose last) where
  tree := by rw [ExprPhrase.tree, ExprPhrase.tree, hLoosen.trees]
  tokens := ((hLoosen.tokens.append_right _).cons_cons _).append_left _
  text gap := by
    have hText := (hLoosen.text []).within (callee.tiles gap ++ [first.val.tile []])
      [last.val.tile []]
    simpa [ExprPhrase.tiles, ExprPhrase.source, callee.flatMap_tiles] using hText

/-- Any expression behind the first may be loosened. -/
theorem more (e : ExprPhrase) (comma : Mark .comma) :
    (ExprsPhrase.more e comma args).Loosen opening closing (.more e comma loose) where
  trees := by rw [ExprsPhrase.trees, ExprsPhrase.trees, hLoosen.trees]
  tokens := (hLoosen.tokens.cons_cons _).append_left _
  text gap := by
    have hText := (hLoosen.text [' ']).within (e.tiles gap ++ [comma.val.tile []]) []
    simpa [ExprsPhrase.tiles, ExprsPhrase.source, e.flatMap_tiles] using hText

end ExprsPhrase.Loosen

/-! ### What is left is not levelled -/

/-- Only unary phrases have the level of unary operators. -/
theorem ExprPhrase.exists_unary {phrase : ExprPhrase}
    (hLevel : phrase.level TokenKind.level = Precedence.unary.level) :
    ∃ op hOp operand, phrase = .unary op hOp operand := by
  cases phrase with
  | unary op hOp operand => exact ⟨op, hOp, operand, rfl⟩
  | binary _ op hOp _ =>
      exact absurd hLevel (TokenKind.level_lt_unary_of_isBinary hOp).ne
  | _ => exact absurd hLevel (by simp [ExprPhrase.level, Precedence.level])

/-- A group that stands bare holds less than its place asks for. -/
theorem ExprPhrase.BareAt.lt_of_group {table : TokenKind → Nat} {level : Nat}
    {phrase inner : ExprPhrase} {opening : Mark .lparen} {closing : Mark .rparen}
    (hBare : phrase.BareAt table level) (hGroup : phrase = .group opening inner closing) :
    inner.level table < level := by
  subst hGroup
  exact hBare

section Pair

variable {opening : Mark .lparen} {inner : ExprPhrase} {closing : Mark .rparen}

mutual

/-- If parentheses are spared in a phrase, then any pair that stands around an operand can be taken
out, and what is left either binds too loosely for its place or is not levelled. The pair must not
stand around a unary phrase under a unary operator. -/
theorem ExprPhrase.exists_loosens : (phrase : ExprPhrase) → {level : Nat} →
    phrase.Sparing TokenKind.level →
    (phrase = .group opening inner closing → inner.level TokenKind.level < level) →
    .group opening inner closing ∈ phrase.parts →
    (∀ op hOp, .unary op hOp (.group opening inner closing) ∈ phrase.parts →
      inner.level TokenKind.level ≠ Precedence.unary.level) →
    ∃ loose, phrase.Loosens opening.val closing.val loose
      ∧ (level ≤ loose.level TokenKind.level → ¬loose.Levelled TokenKind.level)
  | .atom _ _ _, _, _, _, hMem, _ => by cases List.mem_singleton.mp hMem
  | .group outer body last, level, hSparing, hNeeded, hMem, hSigns => by
      by_cases hGroup : ExprPhrase.group outer body last = .group opening inner closing
      · have hLow := hNeeded hGroup
        obtain ⟨rfl, rfl, rfl⟩ := ExprPhrase.group.inj hGroup
        exact ⟨_, ExprPhrase.loosens_group _ _ _, fun hLevel => absurd hLow (Nat.not_lt.mpr hLevel)⟩
      · have hBody := (List.mem_cons.mp hMem).resolve_left (Ne.symm hGroup)
        obtain ⟨loose, hLoosens, hLoose⟩ := body.exists_loosens hSparing.2
          (fun hSame => hSparing.1.lt_of_group hSame) hBody
          fun op hOp hUnary => hSigns op hOp (List.mem_cons_of_mem _ hUnary)
        exact ⟨_, hLoosens.group outer last, fun _ => hLoose loose.lowest_lt_level.le⟩
  | .unary op hOp operand, _, hSparing, _, hMem, hSigns => by
      have hOperand := (List.mem_cons.mp hMem).resolve_left nofun
      have hNeeded : operand = .group opening inner closing →
          inner.level TokenKind.level < Precedence.unary.level := by
        intro hSame
        have hLe := Nat.lt_succ_iff.mp (hSparing.1.lt_of_group hSame)
        refine lt_of_le_of_ne hLe (hSigns op hOp ?_)
        rw [ExprPhrase.parts, hSame]
        exact List.mem_cons_self
      obtain ⟨loose, hLoosens, hLoose⟩ := operand.exists_loosens hSparing.2 hNeeded hOperand
        fun op' hOp' hUnary => hSigns op' hOp' (List.mem_cons_of_mem _ hUnary)
      exact ⟨_, hLoosens.unary op hOp, fun _ hLevelled => hLoose hLevelled.1 hLevelled.2⟩
  | .binary left op hOp right, _, hSparing, _, hMem, hSigns => by
      obtain ⟨hLeftBare, hRightBare, hLeftSparing, hRightSparing⟩ := hSparing
      rcases List.mem_append.mp ((List.mem_cons.mp hMem).resolve_left nofun) with hLeft | hRight
      · obtain ⟨loose, hLoosens, hLoose⟩ := left.exists_loosens hLeftSparing
          (fun hSame => hLeftBare.lt_of_group hSame) hLeft fun op' hOp' hUnary =>
            hSigns op' hOp' (List.mem_cons_of_mem _ (List.mem_append_left _ hUnary))
        exact ⟨_, hLoosens.left op hOp right, fun _ hLevelled =>
          hLoose hLevelled.1 hLevelled.2.2.1⟩
      · obtain ⟨loose, hLoosens, hLoose⟩ := right.exists_loosens hRightSparing
          (fun hSame => hRightBare.lt_of_group hSame) hRight fun op' hOp' hUnary =>
            hSigns op' hOp' (List.mem_cons_of_mem _ (List.mem_append_right _ hUnary))
        exact ⟨_, hLoosens.right left op hOp, fun _ hLevelled =>
          hLoose hLevelled.2.1 hLevelled.2.2.2⟩
  | .callEmpty callee first last, _, hSparing, _, hMem, hSigns => by
      have hCallee := (List.mem_cons.mp hMem).resolve_left nofun
      obtain ⟨loose, hLoosens, hLoose⟩ := callee.exists_loosens hSparing.2
        (fun hSame => hSparing.1.lt_of_group hSame) hCallee
        fun op hOp hUnary => hSigns op hOp (List.mem_cons_of_mem _ hUnary)
      exact ⟨_, hLoosens.callEmpty first last, fun _ hLevelled => hLoose hLevelled.1 hLevelled.2⟩
  | .call callee first args last, _, hSparing, _, hMem, hSigns => by
      obtain ⟨hBare, hCalleeSparing, hArgsSparing⟩ := hSparing
      rcases List.mem_append.mp ((List.mem_cons.mp hMem).resolve_left nofun) with hCallee | hArgs
      · obtain ⟨loose, hLoosens, hLoose⟩ := callee.exists_loosens hCalleeSparing
          (fun hSame => hBare.lt_of_group hSame) hCallee fun op hOp hUnary =>
            hSigns op hOp (List.mem_cons_of_mem _ (List.mem_append_left _ hUnary))
        exact ⟨_, hLoosens.callee first args last, fun _ hLevelled =>
          hLoose hLevelled.1 hLevelled.2.1⟩
      · obtain ⟨loose, hLoosen, hLoose⟩ := args.exists_loosen hArgsSparing hArgs
          fun op hOp hUnary =>
            hSigns op hOp (List.mem_cons_of_mem _ (List.mem_append_right _ hUnary))
        exact ⟨_, hLoosen.call callee first last, fun _ hLevelled => hLoose hLevelled.2.2⟩
  | .select left dot field, _, hSparing, _, hMem, hSigns => by
      have hLeft := (List.mem_cons.mp hMem).resolve_left nofun
      obtain ⟨loose, hLoosens, hLoose⟩ := left.exists_loosens hSparing.2
        (fun hSame => hSparing.1.lt_of_group hSame) hLeft
        fun op hOp hUnary => hSigns op hOp (List.mem_cons_of_mem _ hUnary)
      exact ⟨_, hLoosens.select dot field, fun _ hLevelled => hLoose hLevelled.1 hLevelled.2⟩
  | .index left first position last, _, hSparing, _, hMem, hSigns => by
      obtain ⟨hLeftBare, hPositionBare, hLeftSparing, hPositionSparing⟩ := hSparing
      rcases List.mem_append.mp ((List.mem_cons.mp hMem).resolve_left nofun) with hLeft | hPosition
      · obtain ⟨loose, hLoosens, hLoose⟩ := left.exists_loosens hLeftSparing
          (fun hSame => hLeftBare.lt_of_group hSame) hLeft fun op hOp hUnary =>
            hSigns op hOp (List.mem_cons_of_mem _ (List.mem_append_left _ hUnary))
        exact ⟨_, hLoosens.indexed first position last, fun _ hLevelled =>
          hLoose hLevelled.1 hLevelled.2.1⟩
      · obtain ⟨loose, hLoosens, hLoose⟩ := position.exists_loosens hPositionSparing
          (fun hSame => hPositionBare.lt_of_group hSame) hPosition fun op hOp hUnary =>
            hSigns op hOp (List.mem_cons_of_mem _ (List.mem_append_right _ hUnary))
        exact ⟨_, hLoosens.position left first last, fun _ hLevelled =>
          hLoose loose.lowest_lt_level.le hLevelled.2.2⟩

/-- Any group in a list can be loosened. -/
theorem ExprsPhrase.exists_loosen : (phrase : ExprsPhrase) → phrase.Sparing TokenKind.level →
    .group opening inner closing ∈ phrase.parts →
    (∀ op hOp, .unary op hOp (.group opening inner closing) ∈ phrase.parts →
      inner.level TokenKind.level ≠ Precedence.unary.level) →
    ∃ loose, phrase.Loosen opening.val closing.val loose ∧ ¬loose.Levelled TokenKind.level
  | .last e, hSparing, hMem, hSigns => by
      obtain ⟨loose, hLoosens, hLoose⟩ := e.exists_loosens hSparing.2
        (fun hSame => hSparing.1.lt_of_group hSame) hMem hSigns
      exact ⟨_, hLoosens.last, hLoose loose.lowest_lt_level.le⟩
  | .more e comma rest, hSparing, hMem, hSigns => by
      obtain ⟨hBare, hFirstSparing, hRestSparing⟩ := hSparing
      rcases List.mem_append.mp hMem with hFirst | hRest
      · obtain ⟨loose, hLoosens, hLoose⟩ := e.exists_loosens hFirstSparing
          (fun hSame => hBare.lt_of_group hSame) hFirst
          fun op hOp hUnary => hSigns op hOp (List.mem_append_left _ hUnary)
        exact ⟨_, hLoosens.first comma rest, fun hLevelled =>
          hLoose loose.lowest_lt_level.le hLevelled.1⟩
      · obtain ⟨loose, hLoosen, hLoose⟩ := rest.exists_loosen hRestSparing hRest
          fun op hOp hUnary => hSigns op hOp (List.mem_append_right _ hUnary)
        exact ⟨_, hLoosen.more e comma, fun hLevelled => hLoose hLevelled.2⟩

end

end Pair

end TryGo
