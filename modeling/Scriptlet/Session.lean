import Scriptlet.Console
import Scriptlet.Script
import Scriptlet.Tree.Outline

/-!
# Sessions

A session takes a program line by line.  All lines are run in one scope, so that what a line
declares is known to the lines after it, and an error ends its line only.  A line that starts
with `//` is a command to the session itself, or a comment.
-/

namespace Scriptlet

/-- What a session shows of a line. -/
inductive Mode where
  /-- The value of the line. -/
  | repl
  /-- The syntax tree of the line, which is not run. -/
  | parser
  /-- The tokens of the line, which is not run. -/
  | lexer
  /-- The names that are bound after the line has been run. -/
  | env
deriving DecidableEq

namespace Mode

/-- The name of a mode. -/
def name : Mode → String
  | repl => "repl"
  | parser => "parser"
  | lexer => "lexer"
  | env => "env"

/-- The mode of a name. -/
def ofName? (name : String) : Option Mode :=
  [repl, parser, lexer, env].find? (·.name = name)

end Mode

/-- A token as it is listed. -/
def Token.listed (t : Token) : String :=
  "Token \x7b kind: " ++ t.kind.name ++ ", literal: " ++ quoted t.text
    ++ ", line: " ++ toString t.position.line ++ ", column: " ++ toString t.position.column
    ++ " \x7d"

/-- A session between two lines. -/
structure Session (σ : Type := Streams) where
  /-- What its runs can consult. -/
  setting : Setting σ
  /-- The scope in which all lines are run. -/
  scope : Scope
  /-- What it shows. -/
  mode : Mode

namespace Session

variable {σ : Type}

/-- The name of the lines in reports. -/
def file : String := "<REPL>"

/-- A session before its first line: the standard library has been imported if the options say
so, and is not imported again. -/
def start (setting : Setting σ) (fuel : Nat) : RunOn σ (Session σ) := do
  let scope ← Run.enclose [] []
  let quiet := { setting with options := { setting.options with useLibrary := false } }
  if setting.options.useLibrary then
    Run.complainOf quiet file (← Run.evaluate setting fuel ⟨[], ""⟩ scope)
  return ⟨quiet, scope, .repl⟩

/-- Runs a line and shows its value or the names that are bound. -/
def run (s : Session σ) (fuel : Nat) (line : String) : RunOn σ Unit := do
  match Program.parse line file with
  | (program, []) =>
    let v ← Run.evaluate s.setting fuel program s.scope
    Run.complainOf s.setting file v
    let h ← Run.heap
    match s.mode, v with
    | .env, _ =>
      let bindings := (← get).scopes.locals s.scope
      bindings.forM fun (name, bound) =>
        Run.say s.setting (name ++ " = " ++ h.inspect bound ++ "\n")
    | _, .null => return
    | _, .error _ => return
    | _, _ => Run.say s.setting (h.inspect v ++ "\n")
  | (_, errors) => Run.complainAll s.setting file errors

/-- Shows what there is to show of a line of code. -/
def code (s : Session σ) (fuel : Nat) (line : String) : RunOn σ Unit :=
  match s.mode with
  | .lexer => (Source.listing line).forM fun t => Run.say s.setting (t.listed ++ "\n")
  | .parser =>
    match Program.parse line file with
    | (program, []) => Run.say s.setting (program.outline.text ++ "\n")
    | (_, errors) => Run.complainAll s.setting file errors
  | .repl | .env => s.run fuel line

/-- Says which mode the session is in. -/
def sayMode (s : Session σ) : RunOn σ Unit :=
  Run.say s.setting ("mode: " ++ s.mode.name ++ "\n")

/-- The session after a command of the given words, none if it ends. -/
def command (s : Session σ) (words : List String) : RunOn σ (Option (Session σ)) := do
  match words with
  | "exit" :: _ => return none
  | ["mode"] =>
    s.sayMode
    return some s
  | "mode" :: name :: _ =>
    match Mode.ofName? name with
    | some mode =>
      let s := { s with mode }
      s.sayMode
      return some s
    | none =>
      Run.complain s.setting
        ("Unknown mode '" ++ name ++ "', expected repl, parser, lexer or env\n")
      return some s
  | _ => return some s

/-- The session after a line, none if it ends. -/
def handle (s : Session σ) (fuel : Nat) (line : String) : RunOn σ (Option (Session σ)) := do
  let trimmed := trimBlank line
  if trimmed.isEmpty then
    return some s
  else if trimmed.startsWith "//" then
    s.command (blankSeparated (String.ofList (trimmed.toList.drop 2)))
  else
    s.code fuel line
    return some s

/-- Asks for lines and handles them until the session or the input ends, for at most the given
number of rounds.  Every round takes a line of the input, so one round more than the input has
lines is enough. -/
def converse (fuel : Nat) : Nat → Session σ → RunOn σ Unit
  | 0, _ => return
  | rounds + 1, s => do
    Run.say s.setting "> "
    match ← Run.readLine s.setting.terminal with
    | .str line =>
      match ← s.handle fuel line with
      | some s => converse fuel rounds s
      | none => return
    | _ => return

end Session

end Scriptlet
