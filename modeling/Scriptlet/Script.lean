import Scriptlet.Eval

/-!
# Scripts

A program is run in a scope by a machine that starts anew: only values, names and streams are
left of what ran before.  A script is a program in a file, run in a scope of its own; the units
it imports are looked for beside it unless the options name another directory.
-/

namespace Scriptlet

/-- Why a script has no value. -/
inductive ScriptFault where
  /-- Its file cannot be read. -/
  | unreadable (fault : DiskFault)
  /-- It has syntax errors, and has not been run. -/
  | malformed (errors : List SyntaxError)
  /-- It was stopped by a fault. -/
  | stopped (fault : Fault)

/-- The wording of a failure to read. -/
def Report.unreadable (reason : String) : String :=
  "I/O error: " ++ reason

/-- The wording of a fault that stopped a script. -/
def Report.stopped (fault : Fault) : String :=
  "Runtime error: " ++ fault.text

/-- The wording of a script's failure. -/
def ScriptFault.message : ScriptFault → String
  | unreadable fault => Report.unreadable fault.message
  | malformed errors =>
    Report.refusal errors.length (errors.head?.map fun e => Report.located e.message e.position)
  | stopped fault => Report.stopped fault

/-- The program in the file that a path leads to, unless it cannot be read or has syntax errors. -/
def Disk.program (d : Disk) (path : String) : Except ScriptFault Program :=
  match d.read path with
  | .error fault => .error (.unreadable fault)
  | .ok text =>
    match Program.parse text path with
    | (_, e :: errors) => .error (.malformed (e :: errors))
    | (program, []) => .ok program

/-- The setting in which units are looked for beside a script, unless the options name another
directory. -/
def Setting.beside {σ : Type} (setting : Setting σ) (path : String) : Setting σ :=
  let dir := setting.options.moduleDir.getD (Disk.directoryOf path)
  { setting with options := { setting.options with moduleDir := some dir } }

namespace Run

variable {σ : Type}

/-- The fuel for a run that is not meant to be bounded by it. -/
def plenty : Nat := Nat.pow 2 62

/-- The value of a program in a scope, after the standard library has been imported there if the
options say so. -/
def evaluate (setting : Setting σ) (fuel : Nat) (program : Program) (scope : Scope) :
    RunOn σ Value := do
  modifyControl fun _ => .initial
  if setting.options.useLibrary then
    match ← importUnit setting fuel Library.name scope with
    | .error f => return .error f
    | _ => runProgram setting fuel program scope
  else
    runProgram setting fuel program scope

/-- The value of the script that a path leads to. -/
def script (setting : Setting σ) (fuel : Nat) (path : String) :
    RunOn σ (Except ScriptFault Value) := do
  match setting.disk.program path with
  | .error fault => return .error fault
  | .ok program =>
    let scope ← enclose [] []
    match ← evaluate (setting.beside path) fuel program scope with
    | .error f => return .error (.stopped f)
    | v => return .ok v

end Run

/-- The result of a run and the machine it leaves, no result if the run has none. -/
def Machine.run {σ α : Type} (m : Machine σ) (run : RunOn σ α) : Option α × Machine σ :=
  match run m with
  | .ok a m => (some a, m)
  | .error _ m => (none, m)

end Scriptlet
