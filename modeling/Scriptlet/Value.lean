import Scriptlet.Fault
import Scriptlet.Native

/-!
# Values

The values of a running program.  Arrays, hashes and functions are kept in a heap and are known
by their number there: two occurrences of one number are the same array, hash or function, and
what is pushed onto the one is seen through the other.
-/

namespace Scriptlet

/-- A value of a running program. -/
inductive Value where
  | null
  | bool (b : Bool)
  | num (x : Float)
  | str (s : String)
  | array (id : Nat)
  | hash (id : Nat)
  | func (id : Nat)
  | native (f : Native)
  | error (f : Fault)

namespace Value

/-- The kind of a value. -/
def kind : Value → ValueKind
  | null => .null
  | bool _ => .boolean
  | num _ => .number
  | str _ => .string
  | array _ => .array
  | hash _ => .hash
  | func _ => .function
  | native _ => .builtin
  | error _ => .error

/-- Whether a value counts as true in a condition: `null`, `false` and zero do not, any other
value does. -/
def truthy : Value → Bool
  | null => false
  | bool b => b
  | num x => x != 0
  | _ => true

/-- Whether a value is an error. -/
def isError : Value → Bool
  | error _ => true
  | _ => false

end Value

end Scriptlet
