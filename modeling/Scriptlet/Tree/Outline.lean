import Scriptlet.Number.Text
import Scriptlet.Outline
import Scriptlet.Text.Quoted
import Scriptlet.Tree

/-!
# Outlines of syntax trees

The outline of a program shows every node of its syntax tree with its position.
-/

namespace Scriptlet

/-- The name of an operator in outlines. -/
def UnaryOp.name : UnaryOp → String
  | negate => "Negate"
  | not => "Not"
  | typeOf => "Typeof"
  | throw => "Throw"
  | delete => "Delete"

/-- The name of an operator in outlines. -/
def BinaryOp.name : BinaryOp → String
  | add => "Add"
  | sub => "Sub"
  | mul => "Mul"
  | div => "Div"
  | mod => "Mod"
  | equal => "Eq"
  | notEqual => "NotEq"
  | less => "LessThan"
  | lessEqual => "LessThanEq"
  | greater => "GreaterThan"
  | greaterEqual => "GreaterThanEq"
  | and => "And"
  | or => "Or"
  | isIn => "In"

/-- The outline of a text. -/
def Outline.quoted (text : String) : Outline :=
  .leaf (Scriptlet.quoted text)

/-- The outline of a position. -/
def Position.outline (p : Position) : Outline :=
  .record "Position" [("line", .leaf (toString p.line)), ("column", .leaf (toString p.column))]

/-- The outline of an expression: what it is, and where. -/
def Outline.expr (pos : Position) (kind : Outline) : Outline :=
  .record "Expression" [("kind", kind), ("position", pos.outline)]

/-- The outline of a statement: what it is, and where. -/
def Outline.stmt (pos : Position) (kind : Outline) : Outline :=
  .record "Statement" [("kind", kind), ("position", pos.outline)]

/-- The outline of a block of statements. -/
def Outline.block (statements : List Outline) : Outline :=
  .record "Block" [("statements", .list statements)]

mutual

/-- The outline of an expression. -/
def Expr.outline : Expr → Outline
  | .name pos x => .expr pos <| .tuple "Identifier" [.quoted x]
  | .num pos n => .expr pos <| .tuple "Number" [.leaf (literalText n)]
  | .str pos text => .expr pos <| .tuple "String" [.quoted text]
  | .bool pos b => .expr pos <| .tuple "Boolean" [.leaf (if b then "true" else "false")]
  | .null pos => .expr pos <| .leaf "Null"
  | .unary pos op operand =>
    .expr pos <| .record "Prefix" [("op", .leaf op.name), ("operand", operand.outline)]
  | .binary pos op left right =>
    .expr pos <| .record "Infix"
      [("op", .leaf op.name), ("left", left.outline), ("right", right.outline)]
  | .cond pos test yes none =>
    .expr pos <| .record "If"
      [("condition", test.outline), ("consequence", .block (Stmt.outlines yes)),
        ("alternative", .option none)]
  | .cond pos test yes (some no) =>
    .expr pos <| .record "If"
      [("condition", test.outline), ("consequence", .block (Stmt.outlines yes)),
        ("alternative", .option (some (.block (Stmt.outlines no))))]
  | .loop pos test body =>
    .expr pos <| .record "While"
      [("condition", test.outline), ("body", .block (Stmt.outlines body))]
  | .func pos name params body =>
    .expr pos <| .tuple "Function"
      [.record "FunctionLiteral"
        [("name", .option (name.map .quoted)), ("params", .list (params.map .quoted)),
          ("body", .block (Stmt.outlines body))]]
  | .call pos callee args =>
    .expr pos <| .record "Call"
      [("callee", callee.outline), ("args", .list (Expr.outlines args))]
  | .array pos elements => .expr pos <| .tuple "Array" [.list (Expr.outlines elements)]
  | .hash pos entries => .expr pos <| .tuple "Hash" [.list (Expr.entryOutlines entries)]
  | .index pos collection i =>
    .expr pos <| .record "Index" [("collection", collection.outline), ("index", i.outline)]
  | .assign pos x value =>
    .expr pos <| .record "Assign" [("name", .quoted x), ("value", value.outline)]
  | .decorated pos decorator declaration =>
    .expr pos <| .record "Decorator"
      [("decorator", decorator.outline), ("declaration", declaration.outline)]

/-- The outlines of expressions. -/
def Expr.outlines : List Expr → List Outline
  | [] => []
  | e :: rest => e.outline :: Expr.outlines rest

/-- The outlines of the entries of a hash literal. -/
def Expr.entryOutlines : List (Expr × Expr) → List Outline
  | [] => []
  | (key, value) :: rest =>
    .tuple "" [key.outline, value.outline] :: Expr.entryOutlines rest

/-- The outline of a statement. -/
def Stmt.outline : Stmt → Outline
  | .define pos x value =>
    .stmt pos <| .record "Let" [("name", .quoted x), ("value", value.outline)]
  | .ret pos none => .stmt pos <| .tuple "Return" [.option none]
  | .ret pos (some value) => .stmt pos <| .tuple "Return" [.option (some value.outline)]
  | .expr pos value => .stmt pos <| .tuple "Expression" [value.outline]
  | .block pos body => .stmt pos <| .tuple "Block" [.block (Stmt.outlines body)]
  | .use pos unit => .stmt pos <| .record "Use" [("module", .quoted unit)]

/-- The outlines of statements. -/
def Stmt.outlines : List Stmt → List Outline
  | [] => []
  | s :: rest => s.outline :: Stmt.outlines rest

end

/-- The outline of a program. -/
def Program.outline (program : Program) : Outline :=
  .record "Program"
    [("statements", .list (Stmt.outlines program.statements)), ("file", .quoted program.file)]

end Scriptlet
