import TryGo.Token.Kind
import TryGo.Token.Position

/-! Tokens. The literal of a string, raw string or character token leaves out the
delimiters, while a comment keeps its marks. The position is that of the first character,
delimiter included. -/
namespace TryGo

structure Token where
  kind : TokenKind
  literal : String
  pos : Position
deriving DecidableEq, Inhabited

namespace Token

def eof (pos : Position) : Token := ⟨.eof, "", pos⟩

/-- A token that stands for no source text. A tree that was not read from a text carries
it where a token is asked for. -/
def blank : Token := ⟨.illegal, "", Position.start⟩

end Token

end TryGo
