import Scriptlet.Position

/-!
# Syntax trees

The expressions and statements of a program.  Every node carries the position at which errors
about it are reported: the position of its first token, except that an operator, a call and an
index carry the position of the operator or the bracket.
-/

namespace Scriptlet

/-- The operators written in front of their operand. -/
inductive UnaryOp where
  | negate
  | not
  | typeOf
  | throw
  | delete
deriving DecidableEq

/-- The operators written between their operands. -/
inductive BinaryOp where
  | add
  | sub
  | mul
  | div
  | mod
  | equal
  | notEqual
  | less
  | lessEqual
  | greater
  | greaterEqual
  | and
  | or
  | isIn
deriving DecidableEq

/-- The written form of an operator. -/
def UnaryOp.symbol : UnaryOp → String
  | negate => "-"
  | not => "!"
  | typeOf => "typeof"
  | throw => "throw"
  | delete => "delete"

/-- The written form of an operator. -/
def BinaryOp.symbol : BinaryOp → String
  | add => "+"
  | sub => "-"
  | mul => "*"
  | div => "/"
  | mod => "%"
  | equal => "=="
  | notEqual => "!="
  | less => "<"
  | lessEqual => "<="
  | greater => ">"
  | greaterEqual => ">="
  | and => "&&"
  | or => "||"
  | isIn => "in"

mutual

/-- An expression. -/
inductive Expr where
  | name (pos : Position) (name : String)
  /-- A number literal, which stands for the double nearest to `value`. -/
  | num (pos : Position) (value : Nat)
  | str (pos : Position) (text : String)
  | bool (pos : Position) (value : Bool)
  | null (pos : Position)
  | unary (pos : Position) (op : UnaryOp) (operand : Expr)
  | binary (pos : Position) (op : BinaryOp) (left right : Expr)
  | cond (pos : Position) (test : Expr) (yes : List Stmt) (no : Option (List Stmt))
  | loop (pos : Position) (test : Expr) (body : List Stmt)
  | func (pos : Position) (name : Option String) (params : List String) (body : List Stmt)
  | call (pos : Position) (callee : Expr) (args : List Expr)
  | array (pos : Position) (elements : List Expr)
  | hash (pos : Position) (entries : List (Expr × Expr))
  | index (pos : Position) (collection index : Expr)
  | assign (pos : Position) (name : String) (value : Expr)
  | decorated (pos : Position) (decorator : Expr) (declaration : Stmt)

/-- A statement. -/
inductive Stmt where
  /-- A `let`, or the declaration of a function. -/
  | define (pos : Position) (name : String) (value : Expr)
  | ret (pos : Position) (value : Option Expr)
  | expr (pos : Position) (value : Expr)
  | block (pos : Position) (body : List Stmt)
  | use (pos : Position) (unit : String)

end

/-- The statements of a source and the name it was read under. -/
structure Program where
  /-- The statements, in order. -/
  statements : List Stmt
  /-- The name of the source. -/
  file : String

/-- The position of an expression. -/
def Expr.pos : Expr → Position
  | name pos _ | num pos _ | str pos _ | bool pos _ | null pos | unary pos _ _
  | binary pos _ _ _ | cond pos _ _ _ | loop pos _ _ | func pos _ _ _ | call pos _ _
  | array pos _ | hash pos _ | index pos _ _ | assign pos _ _ | decorated pos _ _ => pos

/-- The position of a statement. -/
def Stmt.pos : Stmt → Position
  | define pos _ _ | ret pos _ | expr pos _ | block pos _ | use pos _ => pos

/-- The name that a declaration binds, through any decorators around it. -/
def Stmt.declaredName? : Stmt → Option String
  | define _ name _ => some name
  | expr _ (.decorated _ _ declaration) => declaration.declaredName?
  | _ => none

/-- The expression with `name` for its name if it is a function literal without one. -/
def Expr.named (name : String) : Expr → Expr
  | func pos none params body => func pos (some name) params body
  | e => e

end Scriptlet
