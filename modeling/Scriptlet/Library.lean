/-!
# The standard library

The unit `@std/lib`: short names for native functions, and functions on arrays in terms of
them.  It is a source text, for errors inside it are reported at its lines.
-/

namespace Scriptlet

namespace Library

/-- The name under which the standard library is imported. -/
def name : String := "@std/lib"

/-- What the names of all units that come with the interpreter start with. -/
def bundled : String := "@std/"

/-- The lines of the standard library. -/
def lines : List String :=
  ["// @std/lib: imported into the root scope before user code runs.",
    "",
    "let print = __builtin_print;",
    "let printError = __builtin_print_error;",
    "let readline = __builtin_readline;",
    "let len = __builtin_length;",
    "let push = __builtin_push;",
    "let pop = __builtin_pop;",
    "let shift = __builtin_shift;",
    "let unshift = __builtin_unshift;",
    "let slice = __builtin_slice;",
    "let forEach = __builtin_forEach;",
    "let keys = __builtin_keys;",
    "let str = __builtin_str;",
    "",
    "func println(value) \x7b",
    "    print(value, __new_line());",
    "\x7d",
    "",
    "func map(xs, f) \x7b",
    "    let result = [];",
    "    forEach(xs, func(x) \x7b push(result, f(x)); \x7d);",
    "    return result;",
    "\x7d",
    "",
    "func filter(xs, keep) \x7b",
    "    let result = [];",
    "    forEach(xs, func(x) \x7b",
    "        if (keep(x)) \x7b push(result, x); \x7d",
    "    \x7d);",
    "    return result;",
    "\x7d",
    "",
    "func reduce(xs, f, initial) \x7b",
    "    let acc = initial;",
    "    forEach(xs, func(x) \x7b acc = f(acc, x); \x7d);",
    "    return acc;",
    "\x7d",
    "",
    "func range(start, end) \x7b",
    "    let result = [];",
    "    let i = start;",
    "    while (i < end) \x7b",
    "        push(result, i);",
    "        i = i + 1;",
    "    \x7d",
    "    return result;",
    "\x7d",
    ""]

/-- The source text of the standard library. -/
def text : String :=
  "\n".intercalate lines

end Library

end Scriptlet
