import Scriptlet.Heap
import Scriptlet.Text.Quoted

/-!
# Texts of values

How a value is shown.  A container inside itself is shown as `[...]` or `{...}`.
-/

namespace Scriptlet

/-- A function as it is shown. -/
def Closure.text (c : Closure) : String :=
  let name := match c.name with
    | some name => " " ++ name
    | none => ""
  "func" ++ name ++ "(" ++ String.intercalate ", " c.params ++ ")"

namespace Heap

variable (h : Heap)

/-- A value inside the containers of `path` as it is shown, with containers nested at most `n`
deep. -/
def inspectWithin : Nat → List Container → Value → String
  | 0, _, _ => ""
  | n + 1, path, v =>
    match v with
    | .null => "null"
    | .bool b => if b then "true" else "false"
    | .num x => numberText x
    | .str s => quoted s
    | .array i =>
      if .array i ∈ path then
        "[...]"
      else
        let parts := (h.array i).toList.map (inspectWithin n (.array i :: path))
        "[" ++ String.intercalate ", " parts ++ "]"
    | .hash i =>
      if .hash i ∈ path then
        "\x7b...\x7d"
      else
        let parts := (h.hash i).toList.map fun (key, value) =>
          inspectWithin n (.hash i :: path) key ++ ": " ++
            inspectWithin n (.hash i :: path) value
        "\x7b" ++ String.intercalate ", " parts ++ "\x7d"
    | .func i => (h.closure i).text
    | .native f => "<builtin " ++ f.name ++ ">"
    | .error f => "Error: " ++ f.message

/-- A value as it is shown.  The containers on a path are all different, so no path is longer
than there are containers. -/
def inspect (v : Value) : String :=
  h.inspectWithin (h.size + 1) [] v

/-- A value as text: a string as it is, any other value as it is shown. -/
def stringify : Value → String
  | .str s => s
  | v => h.inspect v

end Heap

end Scriptlet
