import Scriptlet.NativeCall

/-!
# The console

What is written for the user rather than by a program.  A text that cannot be written is lost,
and nothing else happens.
-/

namespace Scriptlet

namespace Run

variable {σ : Type}

/-- Writes a text to the output. -/
def say (setting : Setting σ) (text : String) : RunOn σ Unit :=
  discard <| writeOut setting.terminal text

/-- Writes a text to the errors. -/
def complain (setting : Setting σ) (text : String) : RunOn σ Unit :=
  discard <| writeErr setting.terminal text

/-- Shows the fault if a value is an error in a file. -/
def complainOf (setting : Setting σ) (file : String) (v : Value) : RunOn σ Unit :=
  match v with
  | .error f => complain setting (f.report setting.options file ++ "\n")
  | _ => return

/-- Shows the syntax errors of a file. -/
def complainAll (setting : Setting σ) (file : String) (errors : List SyntaxError) : RunOn σ Unit :=
  errors.forM fun e => complain setting (e.report setting.options file ++ "\n")

end Run

end Scriptlet
