/-! Positions in a source text. Lines and columns are counted from one and offsets from
zero, all in characters. A newline belongs to the line that it ends. -/
namespace TryGo

/-- The place of one character of a source text. -/
structure Position where
  line : Nat
  column : Nat
  offset : Nat
deriving DecidableEq, Inhabited

namespace Position

def start : Position := ⟨1, 1, 0⟩

/-- The place after a character. Only a newline begins a new line; a carriage return
counts as an ordinary character. -/
def step (pos : Position) (c : Char) : Position :=
  if c = '\n' then ⟨pos.line + 1, 1, pos.offset + 1⟩
  else ⟨pos.line, pos.column + 1, pos.offset + 1⟩

def advance (pos : Position) (chars : List Char) : Position := chars.foldl step pos

/-- A position as messages show it: line and column. -/
def text (pos : Position) : String := toString pos.line ++ ":" ++ toString pos.column

@[simp] theorem advance_nil (pos : Position) : pos.advance [] = pos := rfl

@[simp] theorem advance_cons (pos : Position) (c : Char) (chars : List Char) :
    pos.advance (c :: chars) = (pos.step c).advance chars := rfl

theorem advance_append (pos : Position) (front back : List Char) :
    pos.advance (front ++ back) = (pos.advance front).advance back := by
  simp [advance, List.foldl_append]

@[simp] theorem offset_step (pos : Position) (c : Char) :
    (pos.step c).offset = pos.offset + 1 := by
  unfold step
  split <;> rfl

/-- The offset counts every character, newlines included. -/
theorem offset_advance (pos : Position) (chars : List Char) :
    (pos.advance chars).offset = pos.offset + chars.length := by
  induction chars generalizing pos with
  | nil => rfl
  | cons c rest ih =>
      rw [advance_cons, ih, offset_step, List.length_cons]
      omega

end Position

end TryGo
