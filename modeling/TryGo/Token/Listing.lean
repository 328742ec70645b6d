import TryGo.Text.Quoted
import TryGo.Token.Basic

/-! How a token is shown in a token listing. -/
namespace TryGo

/-- A token with its kind, its literal in quotes and its line and column. -/
def Token.shown (token : Token) : String :=
  "Token(" ++ token.kind.name ++ ", " ++ Text.quoted token.literal ++ ", " ++ token.pos.text ++ ")"

end TryGo
