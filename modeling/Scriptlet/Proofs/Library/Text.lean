import Mathlib
import Scriptlet.Library
import Scriptlet.Proofs.Parsing.Statements

/-!
# The text of the standard library

What the text of the standard library reads as.  The functions that go through an array are alike:
each of them has a variable, calls `forEach` with a function that calls the callback and puts what
it gives into the variable, and returns the variable.
-/

namespace Scriptlet

/-- The functions of the standard library that go through an array. -/
inductive Combinator where
  | map
  | filter
  | reduce

namespace Combinator

/-- The name of the function. -/
def name : Combinator → String
  | map => "map"
  | filter => "filter"
  | reduce => "reduce"

/-- The names of its parameters. -/
def params : Combinator → List String
  | map => ["xs", "f"]
  | filter => ["xs", "keep"]
  | reduce => ["xs", "f", "initial"]

/-- The name of its parameter for what is called with the elements. -/
def callback : Combinator → String
  | map | reduce => "f"
  | filter => "keep"

/-- The name of its variable. -/
def own : Combinator → String
  | map | filter => "result"
  | reduce => "acc"

/-- The line on which it is declared. -/
def line : Combinator → Nat
  | map => 20
  | filter => 26
  | reduce => 34

/-- The line on which it returns. -/
def last : Combinator → Nat
  | map => 23
  | filter => 31
  | reduce => 37

/-- What its variable starts with. -/
def first : Combinator → Expr
  | map => .array ⟨21, 18⟩ []
  | filter => .array ⟨27, 18⟩ []
  | reduce => .name ⟨35, 15⟩ "initial"

/-- What is done with each element `x`. -/
def each : Combinator → List Stmt
  | map =>
    [.expr ⟨22, 27⟩ (.call ⟨22, 31⟩ (.name ⟨22, 27⟩ "push")
      [.name ⟨22, 32⟩ "result", .call ⟨22, 41⟩ (.name ⟨22, 40⟩ "f") [.name ⟨22, 42⟩ "x"]])]
  | filter =>
    [.expr ⟨29, 9⟩ (.cond ⟨29, 9⟩ (.call ⟨29, 17⟩ (.name ⟨29, 13⟩ "keep") [.name ⟨29, 18⟩ "x"])
      [.expr ⟨29, 24⟩ (.call ⟨29, 28⟩ (.name ⟨29, 24⟩ "push")
        [.name ⟨29, 29⟩ "result", .name ⟨29, 37⟩ "x"])] none)]
  | reduce =>
    [.expr ⟨36, 27⟩ (.assign ⟨36, 27⟩ "acc" (.call ⟨36, 34⟩ (.name ⟨36, 33⟩ "f")
      [.name ⟨36, 35⟩ "acc", .name ⟨36, 40⟩ "x"]))]

/-- The position at which its callback is called. -/
def pos : Combinator → Position
  | map => ⟨22, 41⟩
  | filter => ⟨29, 17⟩
  | reduce => ⟨36, 34⟩

/-- The position at which it calls `forEach`. -/
def site (K : Combinator) : Position :=
  ⟨K.line + 2, 12⟩

/-- The body of the function. -/
def body (K : Combinator) : List Stmt :=
  [.define ⟨K.line + 1, 5⟩ K.own K.first,
    .expr ⟨K.line + 2, 5⟩ (.call K.site (.name ⟨K.line + 2, 5⟩ "forEach")
      [.name ⟨K.line + 2, 13⟩ "xs", .func ⟨K.line + 2, 17⟩ none ["x"] K.each]),
    .ret ⟨K.last, 5⟩ (some (.name ⟨K.last, 12⟩ K.own))]

/-- The declaration of the function. -/
def declaration (K : Combinator) : Stmt :=
  .define ⟨K.line, 1⟩ K.name (.func ⟨K.line, 1⟩ (some K.name) K.params K.body)

end Combinator

namespace Library

/-- The statements of the standard library. -/
def statements : List Stmt :=
  [.define ⟨3, 1⟩ "print" (.name ⟨3, 13⟩ "__builtin_print"),
    .define ⟨4, 1⟩ "printError" (.name ⟨4, 18⟩ "__builtin_print_error"),
    .define ⟨5, 1⟩ "readline" (.name ⟨5, 16⟩ "__builtin_readline"),
    .define ⟨6, 1⟩ "len" (.name ⟨6, 11⟩ "__builtin_length"),
    .define ⟨7, 1⟩ "push" (.name ⟨7, 12⟩ "__builtin_push"),
    .define ⟨8, 1⟩ "pop" (.name ⟨8, 11⟩ "__builtin_pop"),
    .define ⟨9, 1⟩ "shift" (.name ⟨9, 13⟩ "__builtin_shift"),
    .define ⟨10, 1⟩ "unshift" (.name ⟨10, 15⟩ "__builtin_unshift"),
    .define ⟨11, 1⟩ "slice" (.name ⟨11, 13⟩ "__builtin_slice"),
    .define ⟨12, 1⟩ "forEach" (.name ⟨12, 15⟩ "__builtin_forEach"),
    .define ⟨13, 1⟩ "keys" (.name ⟨13, 12⟩ "__builtin_keys"),
    .define ⟨14, 1⟩ "str" (.name ⟨14, 11⟩ "__builtin_str"),
    .define ⟨16, 1⟩ "println" (.func ⟨16, 1⟩ (some "println") ["value"]
      [.expr ⟨17, 5⟩ (.call ⟨17, 10⟩ (.name ⟨17, 5⟩ "print")
        [.name ⟨17, 11⟩ "value", .call ⟨17, 28⟩ (.name ⟨17, 18⟩ "__new_line") []])]),
    Combinator.map.declaration,
    Combinator.filter.declaration,
    Combinator.reduce.declaration,
    .define ⟨40, 1⟩ "range" (.func ⟨40, 1⟩ (some "range") ["start", "end"]
      [.define ⟨41, 5⟩ "result" (.array ⟨41, 18⟩ []),
        .define ⟨42, 5⟩ "i" (.name ⟨42, 13⟩ "start"),
        .expr ⟨43, 5⟩ (.loop ⟨43, 5⟩
          (.binary ⟨43, 14⟩ .less (.name ⟨43, 12⟩ "i") (.name ⟨43, 16⟩ "end"))
          [.expr ⟨44, 9⟩ (.call ⟨44, 13⟩ (.name ⟨44, 9⟩ "push")
              [.name ⟨44, 14⟩ "result", .name ⟨44, 22⟩ "i"]),
            .expr ⟨45, 9⟩ (.assign ⟨45, 9⟩ "i"
              (.binary ⟨45, 15⟩ .add (.name ⟨45, 13⟩ "i") (.num ⟨45, 17⟩ 1)))]),
        .ret ⟨47, 5⟩ (some (.name ⟨47, 12⟩ "result"))])]

/-- The characters of the library are those of its lines with a line feed between them. -/
theorem toList_text :
  text.toList = List.intercalate ['\n'] (lines.map String.toList)
  := by
  simp [text]

set_option maxRecDepth 100000 in
/-- The text of the standard library reads without errors. -/
theorem parse_text :
  Program.parse text name = (⟨statements, name⟩, [])
  := by
  rw [Program.parse_eq, Source.tokens, Source.finish, toList_text]
  cbv

end Library

end Scriptlet
