import Mathlib.Tactic.Common
import Scriptlet.Tree

/-!
# Positions of nodes

The positions of all nodes of a syntax tree, those of a node's parts behind its own.
-/

namespace Scriptlet

mutual

/-- The positions of an expression and of all expressions and statements in it. -/
def Expr.positions : Expr → List Position
  | .name pos _ | .num pos _ | .str pos _ | .bool pos _ | .null pos => [pos]
  | .unary pos _ operand => pos :: operand.positions
  | .binary pos _ left right => pos :: (left.positions ++ right.positions)
  | .cond pos test yes none => pos :: (test.positions ++ Stmt.positionsAll yes)
  | .cond pos test yes (some no) =>
    pos :: (test.positions ++ Stmt.positionsAll yes ++ Stmt.positionsAll no)
  | .loop pos test body => pos :: (test.positions ++ Stmt.positionsAll body)
  | .func pos _ _ body => pos :: Stmt.positionsAll body
  | .call pos callee args => pos :: (callee.positions ++ Expr.positionsAll args)
  | .array pos elements => pos :: Expr.positionsAll elements
  | .hash pos entries => pos :: Expr.positionsEntries entries
  | .index pos collection i => pos :: (collection.positions ++ i.positions)
  | .assign pos _ value => pos :: value.positions
  | .decorated pos decorator declaration => pos :: (decorator.positions ++ declaration.positions)

/-- The positions in all the expressions. -/
def Expr.positionsAll : List Expr → List Position
  | [] => []
  | e :: rest => e.positions ++ Expr.positionsAll rest

/-- The positions in the keys and the values of all the entries. -/
def Expr.positionsEntries : List (Expr × Expr) → List Position
  | [] => []
  | (key, value) :: rest => key.positions ++ value.positions ++ Expr.positionsEntries rest

/-- The positions of a statement and of all expressions and statements in it. -/
def Stmt.positions : Stmt → List Position
  | .define pos _ value => pos :: value.positions
  | .ret pos none => [pos]
  | .ret pos (some value) => pos :: value.positions
  | .expr pos value => pos :: value.positions
  | .block pos body => pos :: Stmt.positionsAll body
  | .use pos _ => [pos]

/-- The positions in all the statements. -/
def Stmt.positionsAll : List Stmt → List Position
  | [] => []
  | s :: rest => s.positions ++ Stmt.positionsAll rest

end

/-- The positions of all nodes of a program. -/
def Program.positions (p : Program) : List Position :=
  Stmt.positionsAll p.statements

/-- The position of an expression is one of those in it. -/
theorem Expr.pos_mem_positions (e : Expr) :
  e.pos ∈ e.positions
  := by
  cases e
  case cond no =>
    cases no
    all_goals exact List.mem_cons_self
  all_goals exact List.mem_cons_self

/-- The position of a statement is one of those in it. -/
theorem Stmt.pos_mem_positions (s : Stmt) :
  s.pos ∈ s.positions
  := by
  cases s
  case ret value =>
    cases value
    all_goals exact List.mem_cons_self
  all_goals exact List.mem_cons_self

end Scriptlet
