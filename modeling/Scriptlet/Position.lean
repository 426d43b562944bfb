/-!
# Positions

A position is a line and a column of a text, both counted from one, a column counting
characters.  Reading a character moves a position on: a line feed to the first column of the
next line, any other character one column to the right.
-/

namespace Scriptlet

/-- A line and a column of a text. -/
structure Position where
  /-- The line, counted from one. -/
  line : Nat
  /-- The column, counted from one in characters. -/
  column : Nat
deriving DecidableEq

namespace Position

/-- The position of the first character of a text. -/
def start : Position := ⟨1, 1⟩

/-- No place in any text: the call site of a machine that has made no call. -/
def nowhere : Position := ⟨0, 0⟩

/-- The position that follows the character `c` read at `p`. -/
def next (p : Position) (c : Char) : Position :=
  if c = '\n' then ⟨p.line + 1, 1⟩ else ⟨p.line, p.column + 1⟩

/-- The position that follows the characters `cs` read from `p` on. -/
def after (p : Position) (cs : List Char) : Position :=
  cs.foldl next p

@[simp] theorem after_nil (p : Position) :
  p.after [] = p
  := rfl

@[simp] theorem after_cons (p : Position) (c : Char) (cs : List Char) :
  p.after (c :: cs) = (p.next c).after cs
  := rfl

/-- Behind two parts of a text is behind the second, from behind the first. -/
theorem after_append (p : Position) (cs ds : List Char) :
  p.after (cs ++ ds) = (p.after cs).after ds
  := by
  simp [after]

/-- The written form of a position, `line:column`. -/
def text (p : Position) : String :=
  toString p.line ++ ":" ++ toString p.column

end Position

end Scriptlet
