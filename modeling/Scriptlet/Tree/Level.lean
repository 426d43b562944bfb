import Scriptlet.Token
import Scriptlet.Tree

/-!
# Levels of operators

How tightly the binary operators bind, from `||` and `&&`, which share the lowest level, to the
products.  Assignment binds less tightly than any of them.
-/

namespace Scriptlet

/-- The level of an assignment, the lowest. -/
def assignLevel : Nat := 0

/-- The level of the products, the highest. -/
def productLevel : Nat := 5

namespace BinaryOp

/-- The operator that a token stands for between two operands. -/
def ofToken? : TokenKind → Option BinaryOp
  | .plus => some add
  | .minus => some sub
  | .asterisk => some mul
  | .slash => some div
  | .percent => some mod
  | .equal => some equal
  | .notEqual => some notEqual
  | .less => some less
  | .lessEqual => some lessEqual
  | .greater => some greater
  | .greaterEqual => some greaterEqual
  | .and => some and
  | .or => some or
  | .inWord => some isIn
  | _ => none

/-- How tightly an operator binds. -/
def level : BinaryOp → Nat
  | and | or => 1
  | equal | notEqual => 2
  | less | lessEqual | greater | greaterEqual | isIn => 3
  | add | sub => 4
  | mul | div | mod => productLevel

/-- The lowest level that the right operand of an operator takes in: the next one up, so that
operators of one level group to the left, except that a product takes in the products to its
right. -/
def rightLevel (op : BinaryOp) : Nat :=
  min (op.level + 1) productLevel

end BinaryOp

namespace UnaryOp

/-- The operator that a token stands for in front of an operand. -/
def ofToken? : TokenKind → Option UnaryOp
  | .minus => some negate
  | .bang => some not
  | .typeofWord => some typeOf
  | .throwWord => some throw
  | .deleteWord => some delete
  | _ => none

end UnaryOp

end Scriptlet
