import TryGo.Text.Join

/-! Text on its way to a terminal that shows no colours. Control sequences are taken out, and
a line end of two characters becomes a newline.

A control sequence is an escape with an opening bracket, parameter characters, intermediate
characters and one final character, in this order. What starts like one but does not end
like one is left as it is. -/
namespace TryGo.Text

/-- The character that introduces a control sequence. -/
def escape : Char := '\x1b'

/-- The digits and punctuation that stand first in a control sequence. -/
def isParameterChar (c : Char) : Bool := '0' ≤ c && c ≤ '?'

/-- The blank and the punctuation that may follow the parameters. -/
def isIntermediateChar (c : Char) : Bool := ' ' ≤ c && c ≤ '/'

/-- The characters that end a control sequence. -/
def isFinalChar (c : Char) : Bool := '@' ≤ c && c ≤ '~'

/-- What follows a control sequence, given what follows its opening bracket. -/
def afterSequence? (rest : List Char) : Option (List Char) :=
  match (rest.dropWhile isParameterChar).dropWhile isIntermediateChar with
  | c :: tail => if isFinalChar c then some tail else none
  | [] => none

theorem length_afterSequence?_lt {rest tail : List Char}
    (hAfter : afterSequence? rest = some tail) : tail.length < rest.length := by
  have hDrop : ((rest.dropWhile isParameterChar).dropWhile isIntermediateChar).length
      ≤ rest.length :=
    ((List.dropWhile_sublist _).trans (List.dropWhile_sublist _)).length_le
  unfold afterSequence? at hAfter
  split at hAfter
  next c left hCons =>
    rw [hCons, List.length_cons] at hDrop
    split at hAfter
    · obtain rfl := Option.some.inj hAfter
      omega
    · exact absurd hAfter (by simp)
  next => exact absurd hAfter (by simp)

/-- A text without its control sequences. Taking them out may bring together characters that
form a new one, which stays. -/
def withoutSequences : List Char → List Char
  | [] => []
  | [c] => [c]
  | c :: d :: rest =>
      if c == escape && d == '[' then
        match _ : afterSequence? rest with
        | some tail => withoutSequences tail
        | none => c :: withoutSequences (d :: rest)
      else c :: withoutSequences (d :: rest)
termination_by text => text.length
decreasing_by
  · have hShort := length_afterSequence?_lt ‹afterSequence? rest = some _›
    simp only [List.length_cons]
    omega
  · simp
  · simp

/-- A text in which a carriage return in front of a newline is dropped. -/
def joinLineEnds : List Char → List Char
  | [] => []
  | '\r' :: '\n' :: rest => '\n' :: joinLineEnds rest
  | c :: rest => c :: joinLineEnds rest

/-- A message as the terminal shows it. -/
def printed (text : String) : String :=
  String.ofList (joinLineEnds (withoutSequences text.toList))

/-- A log line as the terminal shows it. Control sequences are kept in it. -/
def logged (text : String) : String := String.ofList (joinLineEnds text.toList)

end TryGo.Text
