/-!
# Native functions

The functions that every program can call by name without declaring them.
-/

namespace Scriptlet

/-- The native functions. -/
inductive Native where
  | importUnit
  | update
  | eval
  | host
  | print
  | printError
  | readLine
  | length
  | push
  | pop
  | shift
  | unshift
  | slice
  | forEach
  | arguments
  | keys
  | str
  | newLine
deriving DecidableEq

namespace Native

/-- The name of a native function. -/
def name : Native → String
  | importUnit => "import"
  | update => "update"
  | eval => "eval"
  | host => "js"
  | print => "__builtin_print"
  | printError => "__builtin_print_error"
  | readLine => "__builtin_readline"
  | length => "__builtin_length"
  | push => "__builtin_push"
  | pop => "__builtin_pop"
  | shift => "__builtin_shift"
  | unshift => "__builtin_unshift"
  | slice => "__builtin_slice"
  | forEach => "__builtin_forEach"
  | arguments => "__builtin__arguments"
  | keys => "__builtin_keys"
  | str => "__builtin_str"
  | newLine => "__new_line"

/-- All native functions, in the order of their names. -/
def all : List Native :=
  [arguments, forEach, keys, length, pop, print, printError, push, readLine, shift, slice, str,
    unshift, newLine, eval, importUnit, host, update]

/-- The native function of a name. -/
def ofName? (name : String) : Option Native :=
  all.find? fun f => f.name == name

end Native

end Scriptlet
