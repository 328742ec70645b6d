import TryGo.GoType.Basic
import TryGo.Parse.Cursor
import TryGo.Precedence

/-! Parsing of types. Each function starts with the current token on the first token of its
construct and ends with it on the last one. -/
namespace TryGo.Parse

mutual

def goType : Nat → ParseM GoType
  | 0 => outOfFuel
  | fuel + 1 => do
      let token ← cur
      match token.kind with
      | .ident =>
          if ← peekIs .dot then
            advance
            expect .ident
            return .qualified token.literal (← cur).literal
          else
            return .named token.literal
      | .asterisk =>
          advance
          return .pointer (← goType fuel)
      | .ellipsis =>
          advance
          return .variadic (← goType fuel)
      | .lbracket =>
          if ← peekIs .rbracket then
            advance
            advance
            return .slice (← goType fuel)
          else
            advance
            let size ← cur
            expect .rbracket
            advance
            return .array size (← goType fuel)
      | .kwMap =>
          expect .lbracket
          advance
          let key ← goType fuel
          expect .rbracket
          advance
          return .map key (← goType fuel)
      | .kwChan =>
          advance
          return .chan (← goType fuel)
      | .arrow =>
          expect .kwChan
          advance
          return .receiveChan (← goType fuel)
      | .kwInterface =>
          expect .lbrace
          expect .rbrace
          return .interface
      | .kwStruct =>
          expect .lbrace
          expect .rbrace
          return .struct
      | .kwFunc => funcType fuel
      | kind =>
          report (.noType kind)
          abandon

/-- The parameters and the result of a function type, from its keyword. -/
def funcType : Nat → ParseM GoType
  | 0 => outOfFuel
  | fuel + 1 => do
      expect .lparen
      let params ← typesUntilParen fuel
      let next ← peek
      if next.kind == .lparen then
        advance
        return .funcTo params (.tuple (← typesUntilParen fuel))
      else if TokenKind.typeStarts.contains next.kind then
        advance
        return .funcTo params (← goType fuel)
      else
        return .func params

/-- The types between an opening parenthesis, which is current, and the closing one. -/
def typesUntilParen : Nat → ParseM (List GoType)
  | 0 => outOfFuel
  | fuel + 1 => do
      if ← peekIs .rparen then
        advance
        return []
      else
        let types ← typeList fuel
        expect .rparen
        return types

/-- One or more types with commas between them, after the current token. -/
def typeList : Nat → ParseM (List GoType)
  | 0 => outOfFuel
  | fuel + 1 => do
      advance
      let type ← goType fuel
      if ← peekIs .comma then
        advance
        return type :: (← typeList fuel)
      else
        return [type]

end

/-! Without fuel nothing is read. -/

@[simp]
theorem goType_zero : goType 0 = outOfFuel := by rw [goType]

@[simp]
theorem funcType_zero : funcType 0 = outOfFuel := by rw [funcType]

@[simp]
theorem typesUntilParen_zero : typesUntilParen 0 = outOfFuel := by rw [typesUntilParen]

@[simp]
theorem typeList_zero : typeList 0 = outOfFuel := by rw [typeList]

/-- Enough fuel for the types that a number of tokens can hold. -/
def typeFuel (tokens : Nat) : Nat := 4 * tokens + 4

def readType : ParseM GoType := do goType (typeFuel (← tokensLeft))

/-- A parenthesised list of result types, from its opening parenthesis. -/
def readResults : ParseM GoType := do
  return .tuple (← typesUntilParen (typeFuel (← tokensLeft)))

end TryGo.Parse
