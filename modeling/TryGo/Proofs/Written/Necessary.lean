import TryGo.Proofs.Phrase.Divided
import TryGo.Proofs.Phrase.Loosen
import TryGo.Proofs.Phrase.Placed
import TryGo.Proofs.Written.ReadBack

/-! The parentheses of a printed expression are needed. Without a pair of them that stands around an
operand, the text is not read as the expression again. The exception are the parentheses that keep
two unary operators apart. -/
namespace TryGo

/-- Whether a phrase has all tokens of a text and nests as the parser wants it to. -/
structure ExprPhrase.Reads (phrase : ExprPhrase) (text : String) : Prop where
  covers : phrase.tokens = (Lexer.ofString text).words
  levelled : phrase.Levelled TokenKind.level

/-- A text has one such phrase at most. -/
theorem ExprPhrase.Reads.eq {a b : ExprPhrase} {text : String} (hA : a.Reads text)
    (hB : b.Reads text) : a = b := by
  have hTokens : a.tokens = b.tokens := hA.covers.trans hB.covers.symm
  have hTrees : a.tree = b.tree := tree_eq_of_levelled hTokens hA.levelled hB.levelled
  exact ExprPhrase.eq_of_tokens hTokens (congrArg Expr.erase hTrees)

/-! ### Tokens of a phrase -/

/-- The opening parenthesis of a group or of the arguments of a call. -/
def ExprPhrase.opening? : ExprPhrase → Option Token
  | .group opening _ _ | .callEmpty _ opening _ | .call _ opening _ _ => some opening.val
  | _ => none

theorem Mark.kind_ne {kind other : TokenKind} (mark : Mark kind) (hKind : kind ≠ other) :
    mark.val.kind ≠ other := by
  rw [mark.property]
  exact hKind

mutual

/-- Every opening parenthesis is that of a group or of the arguments of a call. -/
theorem ExprPhrase.exists_opening : (phrase : ExprPhrase) → ∀ token ∈ phrase.tokens,
    token.kind = .lparen → ∃ part ∈ phrase.parts, part.opening? = some token
  | .atom token value hValue, other, hMem, hKind => by
      rw [List.mem_singleton.mp hMem] at hKind
      rw [operand?, hKind] at hValue
      cases hValue
  | .group opening inner closing, token, hMem, hKind => by
      rw [ExprPhrase.tokens, List.mem_cons, List.mem_append, List.mem_singleton] at hMem
      rcases hMem with rfl | hInner | rfl
      · exact ⟨_, List.mem_cons_self, rfl⟩
      · obtain ⟨part, hPart, hOpening⟩ := inner.exists_opening token hInner hKind
        exact ⟨part, List.mem_cons_of_mem _ hPart, hOpening⟩
      · exact absurd hKind (closing.kind_ne (by decide))
  | .unary op hOp operand, token, hMem, hKind => by
      rcases List.mem_cons.mp hMem with rfl | hOperand
      · rw [hKind] at hOp
        cases hOp
      · obtain ⟨part, hPart, hOpening⟩ := operand.exists_opening token hOperand hKind
        exact ⟨part, List.mem_cons_of_mem _ hPart, hOpening⟩
  | .binary left op hOp right, token, hMem, hKind => by
      rw [ExprPhrase.tokens, List.mem_append, List.mem_cons] at hMem
      rcases hMem with hLeft | rfl | hRight
      · obtain ⟨part, hPart, hOpening⟩ := left.exists_opening token hLeft hKind
        exact ⟨part, List.mem_cons_of_mem _ (List.mem_append_left _ hPart), hOpening⟩
      · rw [hKind] at hOp
        cases hOp
      · obtain ⟨part, hPart, hOpening⟩ := right.exists_opening token hRight hKind
        exact ⟨part, List.mem_cons_of_mem _ (List.mem_append_right _ hPart), hOpening⟩
  | .callEmpty callee opening closing, token, hMem, hKind => by
      rw [ExprPhrase.tokens, List.mem_append, List.mem_cons, List.mem_singleton] at hMem
      rcases hMem with hCallee | rfl | rfl
      · obtain ⟨part, hPart, hOpening⟩ := callee.exists_opening token hCallee hKind
        exact ⟨part, List.mem_cons_of_mem _ hPart, hOpening⟩
      · exact ⟨_, List.mem_cons_self, rfl⟩
      · exact absurd hKind (closing.kind_ne (by decide))
  | .call callee opening args closing, token, hMem, hKind => by
      rw [ExprPhrase.tokens, List.mem_append, List.mem_cons, List.mem_append,
        List.mem_singleton] at hMem
      rcases hMem with hCallee | rfl | hArgs | rfl
      · obtain ⟨part, hPart, hOpening⟩ := callee.exists_opening token hCallee hKind
        exact ⟨part, List.mem_cons_of_mem _ (List.mem_append_left _ hPart), hOpening⟩
      · exact ⟨_, List.mem_cons_self, rfl⟩
      · obtain ⟨part, hPart, hOpening⟩ := args.exists_opening token hArgs hKind
        exact ⟨part, List.mem_cons_of_mem _ (List.mem_append_right _ hPart), hOpening⟩
      · exact absurd hKind (closing.kind_ne (by decide))
  | .select left dot field, token, hMem, hKind => by
      rw [ExprPhrase.tokens, List.mem_append, List.mem_cons, List.mem_singleton] at hMem
      rcases hMem with hLeft | rfl | rfl
      · obtain ⟨part, hPart, hOpening⟩ := left.exists_opening token hLeft hKind
        exact ⟨part, List.mem_cons_of_mem _ hPart, hOpening⟩
      · exact absurd hKind (dot.kind_ne (by decide))
      · exact absurd hKind (field.kind_ne (by decide))
  | .index left opening position closing, token, hMem, hKind => by
      rw [ExprPhrase.tokens, List.mem_append, List.mem_cons, List.mem_append,
        List.mem_singleton] at hMem
      rcases hMem with hLeft | rfl | hPosition | rfl
      · obtain ⟨part, hPart, hOpening⟩ := left.exists_opening token hLeft hKind
        exact ⟨part, List.mem_cons_of_mem _ (List.mem_append_left _ hPart), hOpening⟩
      · exact absurd hKind (opening.kind_ne (by decide))
      · obtain ⟨part, hPart, hOpening⟩ := position.exists_opening token hPosition hKind
        exact ⟨part, List.mem_cons_of_mem _ (List.mem_append_right _ hPart), hOpening⟩
      · exact absurd hKind (closing.kind_ne (by decide))

theorem ExprsPhrase.exists_opening : (phrase : ExprsPhrase) → ∀ token ∈ phrase.tokens,
    token.kind = .lparen → ∃ part ∈ phrase.parts, part.opening? = some token
  | .last e, token, hMem, hKind => e.exists_opening token hMem hKind
  | .more e comma rest, token, hMem, hKind => by
      rw [ExprsPhrase.tokens, List.mem_append, List.mem_cons] at hMem
      rcases hMem with hFirst | rfl | hRest
      · obtain ⟨part, hPart, hOpening⟩ := e.exists_opening token hFirst hKind
        exact ⟨part, List.mem_append_left _ hPart, hOpening⟩
      · exact absurd hKind (comma.kind_ne (by decide))
      · obtain ⟨part, hPart, hOpening⟩ := rest.exists_opening token hRest hKind
        exact ⟨part, List.mem_append_right _ hPart, hOpening⟩

end

mutual

/-- No phrase has a token of two minus signs. -/
theorem ExprPhrase.dec_not_mem_kinds : (phrase : ExprPhrase) → .dec ∉ phrase.kinds
  | .atom token _ hValue => by
      rw [ExprPhrase.kinds, List.mem_singleton]
      intro hKind
      rw [operand?, ← hKind] at hValue
      cases hValue
  | .group _ inner _ => by simp [ExprPhrase.kinds, inner.dec_not_mem_kinds]
  | .unary op hOp operand => by
      have hKind : .dec ≠ op.kind := fun hKind => by
        rw [← hKind] at hOp
        cases hOp
      simp [ExprPhrase.kinds, operand.dec_not_mem_kinds, hKind]
  | .binary left op hOp right => by
      have hKind : .dec ≠ op.kind := fun hKind => by
        rw [← hKind] at hOp
        cases hOp
      simp [ExprPhrase.kinds, left.dec_not_mem_kinds, right.dec_not_mem_kinds, hKind]
  | .callEmpty callee _ _ => by simp [ExprPhrase.kinds, callee.dec_not_mem_kinds]
  | .call callee _ args _ => by
      simp [ExprPhrase.kinds, callee.dec_not_mem_kinds, args.dec_not_mem_kinds]
  | .select left _ _ => by simp [ExprPhrase.kinds, left.dec_not_mem_kinds]
  | .index left _ position _ => by
      simp [ExprPhrase.kinds, left.dec_not_mem_kinds, position.dec_not_mem_kinds]

theorem ExprsPhrase.dec_not_mem_kinds : (phrase : ExprsPhrase) → .dec ∉ phrase.kinds
  | .last e => e.dec_not_mem_kinds
  | .more e _ rest => by simp [ExprsPhrase.kinds, e.dec_not_mem_kinds, rest.dec_not_mem_kinds]

end

mutual

/-- No quoted literal breaks off if each ends where its quote stands. -/
theorem Expr.isClosed_of_lexical : (e : Expr) → e.Lexical → e.isClosed = true
  | .missing, _ | .ident _ _, _ | .int _ _, _ | .float _ _, _ | .str _ _ true, _ | .bool _ _, _
  | .nil _, _ | .foreign _ _ _, _ => rfl
  | .str _ _ false, hLexical => hLexical
  | .char _ _, hLexical => hLexical
  | .unary _ _ operand, hLexical => operand.isClosed_of_lexical hLexical
  | .binary _ left _ right, hLexical => by
      rw [Expr.isClosed, left.isClosed_of_lexical hLexical.1, right.isClosed_of_lexical hLexical.2]
      rfl
  | .call _ callee args, hLexical => by
      rw [Expr.isClosed, callee.isClosed_of_lexical hLexical.1,
        Expr.allClosed_of_lexical args hLexical.2]
      rfl
  | .select _ left _, hLexical => left.isClosed_of_lexical hLexical.1
  | .index _ left position, hLexical => by
      rw [Expr.isClosed, left.isClosed_of_lexical hLexical.1,
        position.isClosed_of_lexical hLexical.2]
      rfl

theorem Expr.allClosed_of_lexical :
    (es : List Expr) → Expr.AllLexical es → Expr.allClosed es = true
  | [], _ => rfl
  | e :: es, hLexical => by
      rw [Expr.allClosed, e.isClosed_of_lexical hLexical.1,
        Expr.allClosed_of_lexical es hLexical.2]
      rfl

end

/-! ### Texts of phrases -/

section Texts

variable {e : Expr} {phrase loose : ExprPhrase}

/-- The text of a phrase that is not levelled is not read as the tree of the phrase. -/
theorem ExprPhrase.not_readsBack (hSound : AllSound phrase.tokens)
    (hErased : phrase.tree.erase = e.erase) (hLevelled : ¬phrase.Levelled TokenKind.level) :
    ¬Parse.ReadsBack (String.ofList phrase.source) e := by
  intro hReads
  obtain ⟨read, hTokens, hRead, hTree⟩ := hReads.exists_phrase
  have hKinds : read.kinds = (spellings phrase.source).map Prod.fst := by
    have hWords : read.tokens.map Token.spelling = spellings phrase.source := by
      rw [hTokens, map_spelling_words_eq]
      exact congrArg spellings String.toList_ofList
    rw [← read.map_kind_tokens, ← hWords, List.map_map]
    rfl
  have hDivides := phrase.divides hSound [] trivial
  rw [Divides, List.append_nil, spellings_nil, List.append_nil] at hDivides
  rcases hDivides with hWhole | ⟨-, hDec⟩
  · have hSame : read.kinds = phrase.kinds := by
      rw [hKinds, hWhole, List.map_map, ← phrase.map_kind_tokens]
      rfl
    have hAlike : read.Alike TokenKind.level phrase :=
      read.alike_of_kinds phrase hSame (hTree.trans hErased.symm)
    exact hLevelled (hAlike.levelled.mp hRead)
  · -- Two signs that have run together are no part of an expression.
    rw [← hKinds] at hDec
    exact read.dec_not_mem_kinds hDec

theorem ExprPhrase.Loosens.mem_tokens {opening closing : Token}
    (hLoosens : phrase.Loosens opening closing loose) :
    opening ∈ phrase.tokens ∧ closing ∈ phrase.tokens := by
  obtain ⟨front, blank, middle, back, hTiles, -⟩ := hLoosens.text []
  rw [← phrase.map_token_tiles [], hTiles]
  constructor <;> simp

/-- The text without a pair of parentheses is that of the phrase without them. -/
theorem ExprPhrase.Loosens.exists_text {opening : Mark .lparen} {closing : Mark .rparen}
    {text : String} (hLoosens : phrase.Loosens opening.val closing.val loose)
    (hReads : phrase.Reads text) (hSource : phrase.source = text.toList)
    (hSound : AllSound phrase.tokens) :
    ∃ before between after, text.toList = before ++ '(' :: (between ++ ')' :: after)
      ∧ opening.val.pos.offset = before.length
      ∧ closing.val.pos.offset = before.length + 1 + between.length
      ∧ loose.source = before ++ (between ++ after) := by
  have hMem := hLoosens.mem_tokens
  have hOpening : opening.val.source = ['('] := by
    rw [opening.source_eq rfl, (hSound _ hMem.1).lexed.literal_eq opening.property rfl]
    rfl
  have hClosing : closing.val.source = [')'] := by
    rw [closing.source_eq rfl, (hSound _ hMem.2).lexed.literal_eq closing.property rfl]
    rfl
  obtain ⟨front, blank, middle, back, hTiles, hText⟩ := hLoosens.text []
  have hSplit : phrase.tiles [] =
      (front ++ opening.val.tile blank :: middle) ++ closing.val.tile [] :: back := by
    rw [hTiles, List.append_assoc, List.cons_append]
  have hFirst : opening.val.pos.offset = _ :=
    ExprPhrase.offset_of_tiles hReads.covers hSource hTiles
  have hLast : closing.val.pos.offset = _ :=
    ExprPhrase.offset_of_tiles hReads.covers hSource hSplit
  refine ⟨front.flatMap Tile.chars ++ blank, middle.flatMap Tile.chars, back.flatMap Tile.chars,
    ?_, ?_, ?_, ?_⟩
  · rw [← hSource, ← List.nil_append phrase.source, ← phrase.flatMap_tiles [], hTiles]
    simp [hOpening, hClosing]
  · rw [hFirst, List.length_append]
    rfl
  · have hGap : (closing.val.tile []).gap.length = 0 := rfl
    rw [hLast, hGap, List.flatMap_append, List.flatMap_cons, Token.chars_tile, hOpening]
    simp only [List.length_append, List.length_singleton]
    omega
  · rw [List.append_assoc, ← hText, List.nil_append]

end Texts

/-- The printed form of an expression is read in one way, and each parenthesis that is opened in it
belongs to a group or to the arguments of a call. If the two parentheses of a group are deleted,
what is left is not read as the expression. The exception are the parentheses around a unary phrase
that is the operand of a unary operator. -/
theorem Expr.not_readsBack_without_parens (e : Expr) (hFormed : e.WellFormed)
    (hLexical : e.Lexical) :
    (∃ phrase : ExprPhrase, phrase.Reads e.go) ∧
    ∀ phrase : ExprPhrase, phrase.Reads e.go →
      (∀ token ∈ phrase.tokens, token.kind = .lparen →
        ∃ part ∈ phrase.parts, part.opening? = some token) ∧
      ∀ opening inner closing, .group opening inner closing ∈ phrase.parts →
        (∀ op hOp, .unary op hOp (.group opening inner closing) ∈ phrase.parts →
          ∀ sign hSign operand, inner ≠ .unary sign hSign operand) →
        ∃ before between after, e.go.toList = before ++ '(' :: (between ++ ')' :: after)
          ∧ opening.val.pos.offset = before.length
          ∧ closing.val.pos.offset = before.length + 1 + between.length
          ∧ ¬Parse.ReadsBack (String.ofList (before ++ (between ++ after))) e := by
  obtain ⟨printed, hStands, -, hBare, hSource⟩ :=
    e.hasPhrase hFormed _ (e.map_spelling_words_go hFormed hLexical)
  have hPrinted : printed.Reads e.go := ⟨hStands.covers, hStands.levelled⟩
  rw [← Expr.go_eq] at hSource
  refine ⟨⟨printed, hPrinted⟩, fun phrase hReads => ⟨phrase.exists_opening, ?_⟩⟩
  obtain rfl := hReads.eq hPrinted
  have hSound : AllSound phrase.tokens := by
    rw [hReads.covers]
    refine Lexer.sound _ (List.all_eq_true.mp ?_)
    rw [← hReads.covers, ← phrase.isClosed_tree, ← Expr.isClosed_erase, hStands.erased,
      Expr.isClosed_erase]
    exact e.isClosed_of_lexical hLexical
  intro opening inner closing hGroup hSigns
  have hPlain : ∀ op hOp, .unary op hOp (.group opening inner closing) ∈ phrase.parts →
      inner.level TokenKind.level ≠ Precedence.unary.level := by
    intro op hOp hUnary hLevel
    obtain ⟨sign, hSign, operand, hInner⟩ := ExprPhrase.exists_unary hLevel
    exact hSigns op hOp hUnary sign hSign operand hInner
  obtain ⟨loose, hLoosens, hLoose⟩ := ExprPhrase.exists_loosens phrase hStands.sparing
    (fun hSame => (hBare Precedence.lowest.level).lt_of_group hSame) hGroup hPlain
  obtain ⟨before, between, after, hText, hFirst, hLast, hLooseText⟩ :=
    hLoosens.exists_text hReads hSource hSound
  refine ⟨before, between, after, hText, hFirst, hLast, ?_⟩
  rw [← hLooseText]
  refine ExprPhrase.not_readsBack (fun token hMem => hSound token (hLoosens.tokens.subset hMem)) ?_
    (hLoose loose.lowest_lt_level.le)
  rw [hLoosens.tree, hStands.erased]

/-- The parentheses around a sum under two signs are needed, although those around the inner sign
are only there to keep the signs apart. -/
theorem Expr.not_readsBack_sum :
    ¬Parse.ReadsBack "-(-a + b)" (.unary .blank "-" (.unary .blank "-"
      (.binary .blank (.ident .blank "a") "+" (.ident .blank "b")))) := by
  let sum : ExprPhrase := .binary
    (.atom ⟨.ident, "a", ⟨1, 5, 4⟩⟩ (.ident ⟨.ident, "a", ⟨1, 5, 4⟩⟩ "a") rfl)
    ⟨.plus, "+", ⟨1, 7, 6⟩⟩ rfl
    (.atom ⟨.ident, "b", ⟨1, 9, 8⟩⟩ (.ident ⟨.ident, "b", ⟨1, 9, 8⟩⟩ "b") rfl)
  let group : ExprPhrase := .group ⟨⟨.lparen, "(", ⟨1, 4, 3⟩⟩, rfl⟩ sum
    ⟨⟨.rparen, ")", ⟨1, 10, 9⟩⟩, rfl⟩
  let phrase : ExprPhrase := .unary ⟨.minus, "-", ⟨1, 1, 0⟩⟩ rfl
    (.group ⟨⟨.lparen, "(", ⟨1, 2, 1⟩⟩, rfl⟩ (.unary ⟨.minus, "-", ⟨1, 3, 2⟩⟩ rfl group)
      ⟨⟨.rparen, ")", ⟨1, 11, 10⟩⟩, rfl⟩)
  have hReads : phrase.Reads "-(-(a + b))" :=
    ⟨by decide +kernel, by simp only [phrase, group, sum, ExprPhrase.Levelled]; decide⟩
  have hMem : group ∈ phrase.parts :=
    List.mem_cons_of_mem _ (List.mem_cons_of_mem _ (List.mem_cons_of_mem _ List.mem_cons_self))
  obtain ⟨before, between, after, hText, hFirst, hLast, hNot⟩ :=
    ((Expr.not_readsBack_without_parens (.unary .blank "-" (.unary .blank "-"
      (.binary .blank (.ident .blank "a") "+" (.ident .blank "b"))))
      (by simp only [Expr.WellFormed]; decide) (by simp only [Expr.Lexical]; decide)).2 phrase
        hReads).2 _ sum _ hMem fun _ _ _ _ _ _ => nofun
  have hSplit : ['-', '(', '-'] ++ '(' :: (['a', ' ', '+', ' ', 'b'] ++ [')', ')']) =
      before ++ '(' :: (between ++ ')' :: after) := hText
  obtain ⟨rfl, hRest⟩ := List.append_inj hSplit hFirst
  obtain ⟨rfl, hEnd⟩ := List.append_inj (List.cons.inj hRest).2 (Nat.add_left_cancel hLast)
  obtain rfl := (List.cons.inj hEnd).2
  exact hNot

end TryGo
