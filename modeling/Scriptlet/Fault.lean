import Scriptlet.Number.Text
import Scriptlet.Report
import Scriptlet.Tree

/-!
# Faults

What can go wrong while a program runs.  A fault has a cause, and it picks up the position and
the file it is reported at on its way out: the first position and the first file win.
-/

namespace Scriptlet

/-- The kinds of values, as `typeof` tells them apart. -/
inductive ValueKind where
  | null
  | boolean
  | number
  | string
  | array
  | hash
  | function
  | builtin
  | error
deriving DecidableEq

/-- The name of a kind of values. -/
def ValueKind.name : ValueKind → String
  | null => "null"
  | boolean => "boolean"
  | number => "number"
  | string => "string"
  | array => "array"
  | hash => "hash"
  | function => "function"
  | builtin => "builtin"
  | error => "error"

/-- The cause of a fault. -/
inductive Cause where
  | invalidArguments
  | undefinedName (name : String)
  | undeclaredName (name : String)
  | invalidOperand (kind : ValueKind)
  | undecoratable
  | notCallable (kind : ValueKind)
  /-- The function `name`, if it has a name, takes `wanted` arguments and got `given`. -/
  | arity (name : Option String) (wanted given : Nat)
  | depthExceeded (limit : Nat)
  | budgetExceeded (limit : Nat)
  | typeMismatch (left : ValueKind) (op : BinaryOp) (right : ValueKind)
  | divisionByZero
  | notIndexable (collection index : ValueKind)
  | fractionalIndex (index : Float)
  | malformed (flaw : SyntaxFlaw)
  | evalRefused
  | hostRefused
  | hostFailed (reason : String)
  | outFailed (reason : String)
  | errFailed (reason : String)
  | inputFailed (reason : String)
  | importFailed (name : String)
  | circularImport (name : String)
  /-- The program said so itself. -/
  | thrown (text : String)

/-- The wording of a cause. -/
def Cause.message : Cause → String
  | invalidArguments => "Invalid arguments"
  | undefinedName name => "Undefined name '" ++ name ++ "'"
  | undeclaredName name => "Cannot assign to undeclared name '" ++ name ++ "'"
  | invalidOperand kind => "Invalid operand for '-': " ++ kind.name
  | undecoratable => "A decorator must wrap a declaration"
  | notCallable kind => "Not callable: " ++ kind.name
  | arity name wanted given =>
    let callee := match name with
      | some name => "Function '" ++ name ++ "'"
      | none => "Anonymous function"
    callee ++ " expects " ++ toString wanted ++ " argument(s) but got " ++ toString given
  | depthExceeded limit => "Maximum call depth of " ++ toString limit ++ " exceeded"
  | budgetExceeded limit => "Step budget of " ++ toString limit ++ " exceeded"
  | typeMismatch left op right =>
    "Type mismatch: " ++ left.name ++ " " ++ op.symbol ++ " " ++ right.name
  | divisionByZero => "Division by zero"
  | notIndexable collection index =>
    "Cannot index " ++ collection.name ++ " with " ++ index.name
  | fractionalIndex index => "Index must be an integer, got " ++ plainText index
  | malformed flaw => flaw.message
  | evalRefused => "allowEval is not allowed"
  | hostRefused => "allowJavaScript is not allowed"
  | hostFailed reason => "Could not eval JS code: " ++ reason
  | outFailed reason => "Could not write to stdout: " ++ reason
  | errFailed reason => "Could not write to stderr: " ++ reason
  | inputFailed reason => "Could not read from stdin: " ++ reason
  | importFailed name => "Could not import file: " ++ name
  | circularImport name => "Circular import of " ++ name
  | thrown text => text

/-- An error of a running program. -/
structure Fault where
  /-- What went wrong. -/
  cause : Cause
  /-- The line it is reported at. -/
  line : Option Nat
  /-- The column it is reported at. -/
  column : Option Nat
  /-- The file it is reported in. -/
  file : Option String

namespace Fault

/-- A fault without a position. -/
def bare (cause : Cause) : Fault :=
  ⟨cause, none, none, none⟩

/-- A fault at a position. -/
def placed (cause : Cause) (position : Position) : Fault :=
  ⟨cause, some position.line, some position.column, none⟩

/-- The wording of a fault. -/
def message (f : Fault) : String :=
  f.cause.message

/-- The fault at `position`, unless it has a line already. -/
def located (f : Fault) (position : Position) : Fault :=
  match f.line with
  | none => { f with line := some position.line, column := some position.column }
  | some _ => f

/-- The fault in `file`, unless it has a file already. -/
def inFile (f : Fault) (file : String) : Fault :=
  match f.file with
  | none => { f with file := some file }
  | some _ => f

/-- Where the fault is reported: at the start of its line if it has no column. -/
def position? (f : Fault) : Option Position :=
  f.line.map fun line => ⟨line, f.column.getD 1⟩

/-- The fault on one line, with its position and file. -/
def text (f : Fault) : String :=
  match f.position?, f.file with
  | some p, some file => f.message ++ " at " ++ file ++ " " ++ p.text
  | some p, none => Report.located f.message p
  | none, _ => f.message

/-- The fault as it is shown, in its own file if it has one. -/
def report (f : Fault) (options : Options) (file : String) : String :=
  Report.text options f.message f.position? (f.file.getD file)

/-- The fault that the first syntax error of a text becomes when the text is run. -/
def ofSyntaxError (e : SyntaxError) (file : String) : Fault :=
  ⟨.malformed e.flaw, some e.position.line, some e.position.column, some file⟩

end Fault

end Scriptlet
