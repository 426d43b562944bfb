import Scriptlet.Console
import Scriptlet.Tree.Parser

/-!
# Checks

A check reads sources without running them and reports their syntax errors.  A directory stands
for the sources in it and in the directories below it.
-/

namespace Scriptlet

/-- Whether a file in a directory is a source by its name: there is something in front of
`.tiny`. -/
def isSourceName (name : String) : Bool :=
  name.endsWith ".tiny" && name != ".tiny"

/-- The paths of the sources that a path stands for: those in a directory that can be opened,
else the path itself. -/
def Disk.sources (d : Disk) (path : String) : List String :=
  if d.leadsToDirectory path then
    match d.resolve path with
    | .ok dir =>
      let found := d.files.map Prod.fst ++ d.links.map Prod.fst
      found.filterMap fun names =>
        let place := d.home ++ names
        let source := join path ("/".intercalate (place.drop dir.length))
        if dir.isPrefixOf place && names.getLast?.any isSourceName && d.leadsToFile source then
          some source
        else
          none
    | .error _ => []
  else
    [path]

namespace Run

variable {σ : Type}

/-- Reports the syntax errors of a source; whether it is in order. -/
def checkSource (setting : Setting σ) (path : String) : RunOn σ Bool := do
  match setting.disk.read path with
  | .error fault =>
    let message := "Could not read file: " ++ fault.message
    complain setting (Report.text setting.options message none path ++ "\n")
    return false
  | .ok text =>
    let errors := (Program.parse text path).2
    let verdict := if errors.isEmpty then "ok" else toString errors.length ++ " error(s)"
    say setting (verdict ++ " " ++ path ++ "\n")
    complainAll setting path errors
    return errors.isEmpty

/-- Reports the syntax errors of all sources that paths stand for; whether there are sources
and all of them are in order. -/
def check (setting : Setting σ) (paths : List String) : RunOn σ Bool := do
  match paths.flatMap setting.disk.sources with
  | [] =>
    complain setting "No .tiny files found\n"
    return false
  | files =>
    let verdicts ← files.mapM (checkSource setting)
    let failed := verdicts.count false
    say setting
      ("checked " ++ toString files.length ++ " file(s), " ++ toString failed
        ++ " with errors\n")
    return failed = 0

end Run

end Scriptlet
