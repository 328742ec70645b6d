import TryGo.Proofs.Phrase.Expr
import TryGo.Proofs.Token.Tiling

/-! The text of a phrase. Every token stands for its characters, and blanks are put around binary
operators and behind commas only. The tokens are tiles of this text. -/
namespace TryGo

/-- The characters of a token: its literal, with its delimiters if the kind has them. -/
def Token.source (token : Token) : List Char :=
  match token.kind.delimiter? with
  | none => token.literal.toList
  | some mark => mark :: (token.literal.toList ++ [mark])

/-- The characters of a token whose kind has no delimiters are its literal. -/
theorem Mark.source_eq {kind : TokenKind} (mark : Mark kind) (hKind : kind.delimiter? = none) :
    mark.val.source = mark.val.literal.toList := by
  rw [Token.source, mark.property, hKind]

/-- A token with some blanks in front of it. -/
def Token.tile (gap : List Char) (token : Token) : Tile := ⟨gap, token.source, token⟩

mutual

def ExprPhrase.source : ExprPhrase → List Char
  | .atom token _ _ => token.source
  | .group opening inner closing =>
      opening.val.source ++ (inner.source ++ closing.val.source)
  | .unary op _ operand => op.source ++ operand.source
  | .binary left op _ right => left.source ++ ' ' :: (op.source ++ ' ' :: right.source)
  | .callEmpty callee opening closing =>
      callee.source ++ (opening.val.source ++ closing.val.source)
  | .call callee opening args closing =>
      callee.source ++ (opening.val.source ++ (args.source ++ closing.val.source))
  | .select left dot field => left.source ++ (dot.val.source ++ field.val.source)
  | .index left opening position closing =>
      left.source ++ (opening.val.source ++ (position.source ++ closing.val.source))

def ExprsPhrase.source : ExprsPhrase → List Char
  | .last e => e.source
  | .more e comma rest => e.source ++ (comma.val.source ++ ' ' :: rest.source)

end

mutual

/-- The tokens of a phrase with the blanks in front of each. Those in front of the first token are
given. -/
def ExprPhrase.tiles (gap : List Char) : ExprPhrase → List Tile
  | .atom token _ _ => [token.tile gap]
  | .group opening inner closing =>
      opening.val.tile gap :: (inner.tiles [] ++ [closing.val.tile []])
  | .unary op _ operand => op.tile gap :: operand.tiles []
  | .binary left op _ right => left.tiles gap ++ op.tile [' '] :: right.tiles [' ']
  | .callEmpty callee opening closing =>
      callee.tiles gap ++ [opening.val.tile [], closing.val.tile []]
  | .call callee opening args closing =>
      callee.tiles gap ++ opening.val.tile [] :: (args.tiles [] ++ [closing.val.tile []])
  | .select left dot field => left.tiles gap ++ [dot.val.tile [], field.val.tile []]
  | .index left opening position closing =>
      left.tiles gap ++ opening.val.tile [] :: (position.tiles [] ++ [closing.val.tile []])

def ExprsPhrase.tiles (gap : List Char) : ExprsPhrase → List Tile
  | .last e => e.tiles gap
  | .more e comma rest => e.tiles gap ++ comma.val.tile [] :: rest.tiles [' ']

end

@[simp] theorem Token.token_tile (gap : List Char) (token : Token) :
    (token.tile gap).token = token := rfl

@[simp] theorem Token.chars_tile (gap : List Char) (token : Token) :
    (token.tile gap).chars = gap ++ token.source := rfl

mutual

theorem ExprPhrase.map_token_tiles (gap : List Char) : (phrase : ExprPhrase) →
    (phrase.tiles gap).map Tile.token = phrase.tokens
  | .atom _ _ _ => rfl
  | .group _ inner _ => by
      simp [ExprPhrase.tiles, ExprPhrase.tokens, inner.map_token_tiles]
  | .unary _ _ operand => by
      simp [ExprPhrase.tiles, ExprPhrase.tokens, operand.map_token_tiles]
  | .binary left _ _ right => by
      simp [ExprPhrase.tiles, ExprPhrase.tokens, left.map_token_tiles, right.map_token_tiles]
  | .callEmpty callee _ _ => by
      simp [ExprPhrase.tiles, ExprPhrase.tokens, callee.map_token_tiles]
  | .call callee _ args _ => by
      simp [ExprPhrase.tiles, ExprPhrase.tokens, callee.map_token_tiles, args.map_token_tiles]
  | .select left _ _ => by
      simp [ExprPhrase.tiles, ExprPhrase.tokens, left.map_token_tiles]
  | .index left _ position _ => by
      simp [ExprPhrase.tiles, ExprPhrase.tokens, left.map_token_tiles, position.map_token_tiles]

theorem ExprsPhrase.map_token_tiles (gap : List Char) : (phrase : ExprsPhrase) →
    (phrase.tiles gap).map Tile.token = phrase.tokens
  | .last e => e.map_token_tiles gap
  | .more e _ rest => by
      simp [ExprsPhrase.tiles, ExprsPhrase.tokens, e.map_token_tiles, rest.map_token_tiles]

end

mutual

/-- The tiles of a phrase make up its text. -/
theorem ExprPhrase.flatMap_tiles (gap : List Char) : (phrase : ExprPhrase) →
    (phrase.tiles gap).flatMap Tile.chars = gap ++ phrase.source
  | .atom _ _ _ => by simp [ExprPhrase.tiles, ExprPhrase.source]
  | .group _ inner _ => by
      simp [ExprPhrase.tiles, ExprPhrase.source, inner.flatMap_tiles]
  | .unary _ _ operand => by
      simp [ExprPhrase.tiles, ExprPhrase.source, operand.flatMap_tiles]
  | .binary left _ _ right => by
      simp [ExprPhrase.tiles, ExprPhrase.source, left.flatMap_tiles, right.flatMap_tiles]
  | .callEmpty callee _ _ => by
      simp [ExprPhrase.tiles, ExprPhrase.source, callee.flatMap_tiles]
  | .call callee _ args _ => by
      simp [ExprPhrase.tiles, ExprPhrase.source, callee.flatMap_tiles, args.flatMap_tiles]
  | .select left _ _ => by
      simp [ExprPhrase.tiles, ExprPhrase.source, left.flatMap_tiles]
  | .index left _ position _ => by
      simp [ExprPhrase.tiles, ExprPhrase.source, left.flatMap_tiles, position.flatMap_tiles]

theorem ExprsPhrase.flatMap_tiles (gap : List Char) : (phrase : ExprsPhrase) →
    (phrase.tiles gap).flatMap Tile.chars = gap ++ phrase.source
  | .last e => e.flatMap_tiles gap
  | .more e _ rest => by
      simp [ExprsPhrase.tiles, ExprsPhrase.source, e.flatMap_tiles, rest.flatMap_tiles]

end

end TryGo
