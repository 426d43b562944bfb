import Scriptlet.Options
import Scriptlet.SyntaxError

/-!
# Reports

How an error is shown: a prefix, the message, and in parentheses the file and the position.
There are two layouts: a plain one, and one for a terminal, drawn piece by piece with escape
sequences around the prefix, the message and the position.
-/

namespace Scriptlet

namespace Report

/-- The colours of a report. -/
inductive Color where
  | redGround
  | red
  | yellow

/-- The escape sequence that ends all colours. -/
def reset : String := "\x1b[0m"

/-- The escape sequence that starts a colour. -/
def Color.start : Color → String
  | redGround => reset ++ "\x1b[41m"
  | red => reset ++ "\x1b[31m"
  | yellow => reset ++ "\x1b[33m"

/-- The escape sequences that start each of the colours, and the one that ends them. -/
structure Palette where
  start : Color → String
  reset : String

/-- The escape sequences that a report is written with. -/
def ansi : Palette := ⟨Color.start, reset⟩

/-- A text that stands in a report, in a colour or in none. -/
structure Piece where
  color : Option Color
  text : String

/-- The pieces one after the other, those in a colour between the sequences of the palette. -/
def Palette.draw (palette : Palette) : List Piece → String
  | [] => ""
  | ⟨none, s⟩ :: pieces => s ++ palette.draw pieces
  | ⟨some color, s⟩ :: pieces =>
    palette.start color ++ s ++ palette.reset ++ palette.draw pieces

/-- The pieces of an error that is shown in colours. -/
def pieces (options : Options) (message : String) (position : Option Position) (file : String) :
    List Piece :=
  (if options.showPrefix then [⟨some .redGround, "[Error]"⟩, ⟨none, " "⟩] else [])
    ++ [⟨some .red, message⟩, ⟨none, " ("⟩, ⟨none, file⟩]
    ++ position.elim [] (fun p => [⟨none, " "⟩, ⟨some .yellow, p.text⟩])
    ++ [⟨none, ")"⟩]

/-- An error that is shown without colours. -/
def plain (options : Options) (message : String) (position : Option Position) (file : String) :
    String :=
  let start := if options.showPrefix then "[Error] " else ""
  match position with
  | none => start ++ message ++ " (" ++ file ++ ")"
  | some p => start ++ message ++ " (" ++ file ++ " " ++ p.text ++ ")"

/-- An error as it is shown. -/
def text (options : Options) (message : String) (position : Option Position) (file : String) :
    String :=
  if options.showColor then ansi.draw (pieces options message position file)
  else plain options message position file

/-- A message with its position. -/
def located (message : String) (position : Position) : String :=
  message ++ " at " ++ position.text

/-- The refusal of a source with syntax errors: how many there are, and the first of them. -/
def refusal (count : Nat) (first : Option String) : String :=
  toString count ++ " parse error(s), first: " ++ first.getD ""

end Report

/-- A syntax error as it is shown. -/
def SyntaxError.report (e : SyntaxError) (options : Options) (file : String) : String :=
  Report.text options e.message (some e.position) file

end Scriptlet
