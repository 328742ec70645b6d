import TryGo.GoType.Basic
import TryGo.Proofs.Phrase.Expr

/-! Type phrases: the tokens of a type together with their grammatical structure.

Some types have no closing token. Where such a type ends depends on what follows, and
`TypePhrase.Fits` says which kinds may follow. -/
namespace TryGo

mutual

/-- The phrases of types. The size of an array is any token but the closing bracket. -/
inductive TypePhrase where
  | named (name : Mark .ident)
  | qualified (package : Mark .ident) (dot : Mark .dot) (name : Mark .ident)
  | pointer (star : Mark .asterisk) (elem : TypePhrase)
  | variadic (dots : Mark .ellipsis) (elem : TypePhrase)
  | slice (opening : Mark .lbracket) (closing : Mark .rbracket) (elem : TypePhrase)
  | array (opening : Mark .lbracket) (size : Token) (hSize : size.kind ≠ .rbracket)
      (closing : Mark .rbracket) (elem : TypePhrase)
  | map (keyword : Mark .kwMap) (opening : Mark .lbracket) (key : TypePhrase)
      (closing : Mark .rbracket) (value : TypePhrase)
  | chan (keyword : Mark .kwChan) (elem : TypePhrase)
  | receiveChan (arrow : Mark .arrow) (keyword : Mark .kwChan) (elem : TypePhrase)
  | interface (keyword : Mark .kwInterface) (opening : Mark .lbrace) (closing : Mark .rbrace)
  | struct (keyword : Mark .kwStruct) (opening : Mark .lbrace) (closing : Mark .rbrace)
  | func (keyword : Mark .kwFunc) (params : TuplePhrase)
  | funcTo (keyword : Mark .kwFunc) (params : TuplePhrase) (result : TypePhrase)
  | funcToTuple (keyword : Mark .kwFunc) (params : TuplePhrase) (results : TuplePhrase)

/-- Types in parentheses. There may be none. -/
inductive TuplePhrase where
  | empty (opening : Mark .lparen) (closing : Mark .rparen)
  | full (opening : Mark .lparen) (types : TypesPhrase) (closing : Mark .rparen)

inductive TypesPhrase where
  | last (type : TypePhrase)
  | more (type : TypePhrase) (comma : Mark .comma) (rest : TypesPhrase)

end

mutual

def TypePhrase.tokens : TypePhrase → List Token
  | .named name => [name.val]
  | .qualified package dot name => [package.val, dot.val, name.val]
  | .pointer star elem => star.val :: elem.tokens
  | .variadic dots elem => dots.val :: elem.tokens
  | .slice opening closing elem => opening.val :: closing.val :: elem.tokens
  | .array opening size _ closing elem => opening.val :: size :: closing.val :: elem.tokens
  | .map keyword opening key closing value =>
      keyword.val :: opening.val :: (key.tokens ++ closing.val :: value.tokens)
  | .chan keyword elem => keyword.val :: elem.tokens
  | .receiveChan arrow keyword elem => arrow.val :: keyword.val :: elem.tokens
  | .interface keyword opening closing => [keyword.val, opening.val, closing.val]
  | .struct keyword opening closing => [keyword.val, opening.val, closing.val]
  | .func keyword params => keyword.val :: params.tokens
  | .funcTo keyword params result => keyword.val :: (params.tokens ++ result.tokens)
  | .funcToTuple keyword params results => keyword.val :: (params.tokens ++ results.tokens)

def TuplePhrase.tokens : TuplePhrase → List Token
  | .empty opening closing => [opening.val, closing.val]
  | .full opening types closing => opening.val :: (types.tokens ++ [closing.val])

def TypesPhrase.tokens : TypesPhrase → List Token
  | .last type => type.tokens
  | .more type comma rest => type.tokens ++ comma.val :: rest.tokens

end

mutual

def TypePhrase.type : TypePhrase → GoType
  | .named name => .named name.val.literal
  | .qualified package _ name => .qualified package.val.literal name.val.literal
  | .pointer _ elem => .pointer elem.type
  | .variadic _ elem => .variadic elem.type
  | .slice _ _ elem => .slice elem.type
  | .array _ size _ _ elem => .array size elem.type
  | .map _ _ key _ value => .map key.type value.type
  | .chan _ elem => .chan elem.type
  | .receiveChan _ _ elem => .receiveChan elem.type
  | .interface _ _ _ => .interface
  | .struct _ _ _ => .struct
  | .func _ params => .func params.types
  | .funcTo _ params result => .funcTo params.types result.type
  | .funcToTuple _ params results => .funcTo params.types (.tuple results.types)

def TuplePhrase.types : TuplePhrase → List GoType
  | .empty _ _ => []
  | .full _ types _ => types.types

def TypesPhrase.types : TypesPhrase → List GoType
  | .last type => [type.type]
  | .more type _ rest => type.type :: rest.types

end

def TypePhrase.isVariadic : TypePhrase → Bool
  | .variadic _ _ => true
  | _ => false

mutual

/-- Whether a type ends where its phrase does if a token of the given kind follows. A name
must not be continued by a selector, and a function type without a result must not be
followed by one. -/
def TypePhrase.Fits (next : TokenKind) : TypePhrase → Prop
  | .named _ => next ≠ .dot
  | .qualified _ _ _ | .interface _ _ _ | .struct _ _ _ => True
  | .pointer _ elem | .variadic _ elem | .slice _ _ elem | .array _ _ _ _ elem | .chan _ elem
  | .receiveChan _ _ elem => elem.Fits next
  | .map _ _ key _ value => key.Fits .rbracket ∧ value.Fits next
  | .func _ params => params.Fits ∧ next ≠ .lparen ∧ next ∉ TokenKind.typeStarts
  | .funcTo _ params result => params.Fits ∧ result.isVariadic = false ∧ result.Fits next
  | .funcToTuple _ params results => params.Fits ∧ results.Fits

def TuplePhrase.Fits : TuplePhrase → Prop
  | .empty _ _ => True
  | .full _ types _ => types.Fits

def TypesPhrase.Fits : TypesPhrase → Prop
  | .last type => type.Fits .rparen
  | .more type _ rest => type.Fits .comma ∧ rest.Fits

end

/-- Whether a kind continues no type. -/
def TokenKind.ClosesType (kind : TokenKind) : Prop :=
  kind ≠ .dot ∧ kind ≠ .lparen ∧ kind ∉ TokenKind.typeStarts

/-- A type ends in front of whatever continues no type. -/
theorem TypePhrase.Fits.of_closesType {phrase : TypePhrase} {next other : TokenKind}
    (hFits : phrase.Fits next) (hCloses : other.ClosesType) : phrase.Fits other := by
  induction phrase using TypePhrase.rec
    (motive_2 := fun _ => True) (motive_3 := fun _ => True) with
  | named name => exact hCloses.1
  | qualified | interface | struct => trivial
  | pointer _ elem ih | variadic _ elem ih | slice _ _ elem ih | array _ _ _ _ elem ih
  | chan _ elem ih | receiveChan _ _ elem ih => exact ih hFits
  | map _ _ key _ value _ ih => exact ⟨hFits.1, ih hFits.2⟩
  | func _ params _ => exact ⟨hFits.1, hCloses.2⟩
  | funcTo _ params result _ ih => exact ⟨hFits.1, hFits.2.1, ih hFits.2.2⟩
  | funcToTuple _ params results => exact hFits
  | empty | full | last | more => trivial

/-- A type phrase that is not variadic starts with a token that can start a type. -/
theorem TypePhrase.nextKind_mem (phrase : TypePhrase) (hVariadic : phrase.isVariadic = false)
    (more : List Token) : nextKind (phrase.tokens ++ more) ∈ TokenKind.typeStarts := by
  cases phrase with
  | variadic => cases hVariadic
  | named mark | qualified mark | pointer mark | slice mark | array mark | map mark | chan mark
  | receiveChan mark | interface mark | struct mark | func mark | funcTo mark
  | funcToTuple mark =>
      rw [TypePhrase.tokens, List.cons_append, nextKind_cons, mark.property]
      decide

theorem TypePhrase.nextKind_of_isVariadic (phrase : TypePhrase)
    (hVariadic : phrase.isVariadic = true) (more : List Token) :
    nextKind (phrase.tokens ++ more) = .ellipsis := by
  cases phrase with
  | variadic dots elem => exact dots.property
  | _ => cases hVariadic

theorem TypePhrase.nextKind_ne {kind : TokenKind} (hKind : kind ∉ TokenKind.typeStarts)
    (hEllipsis : kind ≠ .ellipsis) (phrase : TypePhrase) (more : List Token) :
    nextKind (phrase.tokens ++ more) ≠ kind := by
  intro hEq
  cases hVariadic : phrase.isVariadic with
  | false => exact hKind (hEq ▸ phrase.nextKind_mem hVariadic more)
  | true => exact hEllipsis (hEq ▸ phrase.nextKind_of_isVariadic hVariadic more)

theorem TypesPhrase.nextKind_ne {kind : TokenKind} (hKind : kind ∉ TokenKind.typeStarts)
    (hEllipsis : kind ≠ .ellipsis) (phrase : TypesPhrase) (more : List Token) :
    nextKind (phrase.tokens ++ more) ≠ kind := by
  cases phrase with
  | last type => exact type.nextKind_ne hKind hEllipsis more
  | more type comma rest =>
      rw [TypesPhrase.tokens, List.append_assoc]
      exact type.nextKind_ne hKind hEllipsis _

theorem TuplePhrase.nextKind_tokens (phrase : TuplePhrase) (more : List Token) :
    nextKind (phrase.tokens ++ more) = .lparen := by
  cases phrase with
  | empty opening closing => exact opening.property
  | full opening types closing => exact opening.property

end TryGo
