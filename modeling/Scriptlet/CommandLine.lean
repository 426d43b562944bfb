import Scriptlet.Check
import Scriptlet.Session

/-!
# Command lines

The words of a command line and what they ask for.  Flags may stand in front of the command and
anywhere behind it, but each only once on either side; of two limits the one behind the command
counts.  After a `--` no word is a flag.
-/

namespace Scriptlet

/-- The flags without a value. -/
inductive Switch where
  | allowEval
  | allowHost
  | noLibrary
  | noTag
  | noColor
deriving DecidableEq

/-- The flags with a number for their value. -/
inductive Limit where
  | steps
  | depth
deriving DecidableEq

/-- The role of a word of a command line. -/
inductive Word where
  | switch (s : Switch)
  /-- A limit, whose number is the next word unless it stands behind a `=`. -/
  | limit (l : Limit) (number : Option String)
  | version
  /-- The `--` after which no word is a flag. -/
  | close
  | operand (text : String)
  | unknown

/-- The flags on one side of the command. -/
structure Flags where
  /-- The flags without a value. -/
  switches : List Switch
  /-- The flags with a value. -/
  limits : List (Limit × Nat)

/-- What a command line asks for. -/
inductive Command where
  /-- To run a script. -/
  | run (file : String)
  /-- To check sources. -/
  | check (paths : List String)
  /-- To hold a session. -/
  | converse

/-- What comes of a command line. -/
inductive Request where
  /-- It cannot be understood. -/
  | unclear
  /-- It asks for the version. -/
  | version
  /-- It asks for a command. -/
  | perform (flags : Flags) (command : Command)

namespace CommandLine

/-- The name and the version of the program. -/
def banner : String := "tiny 0.1.2"

/-- What a word that starts with two dashes stands for. -/
def named (name : String) (value : Option String) : Word :=
  match name, value with
  | "allow-eval", none => .switch .allowEval
  | "allow-js", none => .switch .allowHost
  | "no-std", none => .switch .noLibrary
  | "no-prefix", none => .switch .noTag
  | "no-color", none => .switch .noColor
  | "version", none => .version
  | "max-steps", _ => .limit .steps value
  | "max-depth", _ => .limit .depth value
  | _, _ => .unknown

/-- The role of a word. -/
def word (text : String) : Word :=
  match text.toList with
  | ['-', '-'] => .close
  | '-' :: '-' :: rest =>
    let name := String.ofList (rest.takeWhile (· ≠ '='))
    match rest.dropWhile (· ≠ '=') with
    | [] => named name none
    | _ :: value => named name (some (String.ofList value))
  | '-' :: 'V' :: _ => .version
  | '-' :: _ :: _ => .unknown
  | _ => .operand text

/-- The number that a text of digits writes, which may have a plus sign and is below `2 ^ 64`. -/
def number? (text : String) : Option Nat :=
  let digits := match text.toList with
    | '+' :: rest => rest
    | all => all
  let n := Nat.ofDigitChars 10 digits 0
  if digits ≠ [] ∧ digits.all Char.isDigit ∧ n < Nat.pow 2 64 then some n else none

end CommandLine

namespace Flags

/-- No flags. -/
def empty : Flags := ⟨[], []⟩

/-- The flags with one more, none if it is there already. -/
def addSwitch (f : Flags) (s : Switch) : Option Flags :=
  if s ∈ f.switches then none else some { f with switches := s :: f.switches }

/-- The flags with one more, none if it is there already or has no number for its value. -/
def addLimit (f : Flags) (l : Limit) (text : String) : Option Flags := do
  if (f.limits.lookup l).isSome then
    none
  else
    let n ← CommandLine.number? text
    return { f with limits := (l, n) :: f.limits }

/-- The flags on both sides of a command. -/
def join (before behind : Flags) : Flags :=
  ⟨behind.switches ++ before.switches, behind.limits ++ before.limits⟩

/-- The options that flags stand for; errors are coloured on a terminal only. -/
def options (f : Flags) (terminal : Bool) : Options :=
  { Options.standard with
    allowEval := .allowEval ∈ f.switches
    allowHost := .allowHost ∈ f.switches
    useLibrary := .noLibrary ∉ f.switches
    showPrefix := .noTag ∉ f.switches
    showColor := terminal && .noColor ∉ f.switches
    maxSteps := f.limits.lookup .steps
    maxDepth := (f.limits.lookup .depth).getD defaultDepth }

end Flags

namespace CommandLine

/-- The flags and the operands among the words behind a command.  A word after a limit without
a number is its number. -/
def operands (f : Flags) (pending : Option Limit) : List String → Option (Flags × List String)
  | [] => if pending.isSome then none else some (f, [])
  | w :: rest =>
    match pending, word w with
    | some l, .operand text => do operands (← f.addLimit l text) none rest
    | some _, _ => none
    | none, .switch s => do operands (← f.addSwitch s) none rest
    | none, .limit l none => operands f (some l) rest
    | none, .limit l (some text) => do operands (← f.addLimit l text) none rest
    | none, .operand text => do
      let (f, others) ← operands f none rest
      return (f, text :: others)
    | none, .close => some (f, rest)
    | none, .version => none
    | none, .unknown => none

/-- The command of a name with its operands, none of which is empty. -/
def command? (name : String) (operands : List String) : Option Command :=
  if "" ∈ operands then
    none
  else
    match name, operands with
    | "run", [file] => some (.run file)
    | "check", path :: paths => some (.check (path :: paths))
    | "repl", [] => some .converse
    | _, _ => none

/-- What the words of a command line ask for, a session if there is no command. -/
def request (f : Flags) (pending : Option Limit) : List String → Request
  | [] => if pending.isSome then .unclear else .perform f .converse
  | w :: rest =>
    match pending, word w with
    | some l, .operand text =>
      match f.addLimit l text with
      | some f => request f none rest
      | none => .unclear
    | some _, _ => .unclear
    | none, .switch s =>
      match f.addSwitch s with
      | some f => request f none rest
      | none => .unclear
    | none, .limit l none => request f (some l) rest
    | none, .limit l (some text) =>
      match f.addLimit l text with
      | some f => request f none rest
      | none => .unclear
    | none, .operand name =>
      match operands .empty none rest with
      | none => .unclear
      | some (behind, texts) =>
        match command? name texts with
        | some command => .perform (f.join behind) command
        | none => .unclear
    | none, .close => if rest.isEmpty then .perform f .converse else .unclear
    | none, .version => .version
    | none, .unknown => .unclear

/-- Runs a script and shows the error that it ends in; whether there is none. -/
def runScript (setting : Setting) (fuel : Nat) (file : String) : Run Bool := do
  match ← Run.script setting fuel file with
  | .ok _ => return true
  | .error (.malformed errors) =>
    Run.complainAll setting file errors
    return false
  | .error (.stopped f) =>
    Run.complainOf setting file (.error f)
    return false
  | .error (.unreadable fault) =>
    let message := Report.unreadable fault.message
    Run.complain setting (Report.text setting.options message none file ++ "\n")
    return false

/-- Holds a session until it or the input ends. -/
def converse (setting : Setting) (fuel : Nat) : Run Unit := do
  Run.say setting (banner ++ " (//mode repl|parser|lexer|env, //exit)\n")
  let s ← Session.start setting fuel
  let lines := (← get).streams.input.length
  Session.converse fuel (lines + 1) s

/-- Does what a command line asks for; the exit status. -/
def perform (disk : Disk) (terminal : Bool) (fuel : Nat) (words : List String) : Run Nat := do
  match request .empty none words with
  | .unclear =>
    Run.complain ⟨.standard, Device.standard, disk⟩
      "usage: tiny [FLAG]... [run FILE | check PATH... | repl]\n"
    return 2
  | .version =>
    Run.say ⟨.standard, Device.standard, disk⟩ (banner ++ "\n")
    return 0
  | .perform f command =>
    let setting : Setting := ⟨f.options terminal, Device.standard, disk⟩
    match command with
    | .run file => return if ← runScript setting fuel file then 0 else 1
    | .check paths => return if ← Run.check setting paths then 0 else 1
    | .converse =>
      converse setting fuel
      return 0

/-- The lines of an input: each ends with a line break, which may have any number of carriage
returns in front, and the last one may lack it. -/
def lines (input : String) : List String :=
  let parts := input.splitOn "\n"
  let parts := if parts.getLast? = some "" then parts.dropLast else parts
  parts.map fun line =>
    String.ofList (line.toList.reverse.dropWhile (· = '\r')).reverse

end CommandLine

end Scriptlet
