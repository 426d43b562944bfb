/-!
# Options

What a run is allowed to do, how far it may go, and how errors are shown.
-/

namespace Scriptlet

/-- The number of calls that may be nested unless the options say otherwise. -/
def defaultDepth : Nat := 4096

/-- The options of a run. -/
structure Options where
  /-- Whether `eval` may run a text as code. -/
  allowEval : Bool
  /-- Whether `js` may hand code to the host. -/
  allowHost : Bool
  /-- Whether the standard library is imported before the program runs. -/
  useLibrary : Bool
  /-- Whether a shown error starts with `[Error]`. -/
  showPrefix : Bool
  /-- Whether a shown error is coloured. -/
  showColor : Bool
  /-- How many calls and loop rounds may be started, none for any number. -/
  maxSteps : Option Nat
  /-- How many calls and texts may be nested. -/
  maxDepth : Nat
  /-- The directory that names of modules are relative to, none for the working directory. -/
  moduleDir : Option String

/-- The options of a run about which nothing is said. -/
def Options.standard : Options where
  allowEval := false
  allowHost := false
  useLibrary := true
  showPrefix := true
  showColor := true
  maxSteps := none
  maxDepth := defaultDepth
  moduleDir := none

end Scriptlet
