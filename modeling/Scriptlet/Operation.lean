import Scriptlet.Index
import Scriptlet.Machine

/-!
# Operations

What the operators and the index brackets make of values.  A fault is reported at the position
of the operator.
-/

namespace Scriptlet

namespace Run

variable {σ : Type}

/-- Whether two values are equal. -/
def same (a b : Value) : RunOn σ Bool :=
  answer (·.equal? a b)

/-- Stops because an operator does not apply to the kinds of its operands. -/
def mismatch (pos : Position) (op : BinaryOp) (a b : Value) : RunOn σ α :=
  fail (.typeMismatch a.kind op b.kind) pos

/-- The sum of numbers, the concatenation of arrays, and of texts if one operand is a string. -/
def add (pos : Position) (a b : Value) : RunOn σ Value := do
  match a, b with
  | .num x, .num y => return .num (x + y)
  | .str s, _ => return .str (s ++ (← heap).stringify b)
  | _, .str t => return .str ((← heap).stringify a ++ t)
  | .array i, .array j =>
    let h ← heap
    newArray (h.array i ++ h.array j)
  | _, _ => mismatch pos .add a b

/-- The result of an operator that applies to numbers only. -/
def arithmetic (pos : Position) (op : BinaryOp) (f : Float → Float → Float) (a b : Value) :
    RunOn σ Value :=
  match a, b with
  | .num x, .num y => return .num (f x y)
  | _, _ => mismatch pos op a b

/-- The result of an operator that applies to numbers of which the second one is not zero. -/
def division (pos : Position) (op : BinaryOp) (f : Float → Float → Float) (a b : Value) :
    RunOn σ Value :=
  match a, b with
  | .num x, .num y => if y == 0 then fail .divisionByZero pos else return .num (f x y)
  | _, _ => mismatch pos op a b

/-- Whether two numbers or two strings are in order. -/
def ordered (pos : Position) (op : BinaryOp) (numbers : Float → Float → Bool)
    (strings : String → String → Bool) (a b : Value) : RunOn σ Value :=
  match a, b with
  | .num x, .num y => return .bool (numbers x y)
  | .str s, .str t => return .bool (strings s t)
  | _, _ => mismatch pos op a b

/-- Whether a value is an element of an array, a key of a hash or a part of a string. -/
def member (pos : Position) (a b : Value) : RunOn σ Value := do
  match a, b with
  | _, .array j =>
    return .bool (← answer fun h => someWith (fun x => h.equal? x a) (h.array j).toList)
  | _, .hash j => return .bool (← answer fun h => h.contains? (h.hash j) a)
  | .str s, .str t => return .bool (t.contains s)
  | _, _ => mismatch pos .isIn a b

/-- The result of a binary operator on the values of both its operands. -/
def operate (pos : Position) (op : BinaryOp) (a b : Value) : RunOn σ Value :=
  match op with
  | .equal => return .bool (← same a b)
  | .notEqual => return .bool (!(← same a b))
  | .add => add pos a b
  | .sub => arithmetic pos op (· - ·) a b
  | .mul => arithmetic pos op (· * ·) a b
  | .div => division pos op (· / ·) a b
  | .mod => division pos op remainder a b
  | .less => ordered pos op (fun x y => x < y) (fun s t => s < t) a b
  | .lessEqual => ordered pos op (fun x y => x ≤ y) (fun s t => s ≤ t) a b
  | .greater => ordered pos op (fun x y => y < x) (fun s t => t < s) a b
  | .greaterEqual => ordered pos op (fun x y => y ≤ x) (fun s t => t ≤ s) a b
  | .isIn => member pos a b
  | .and | .or => mismatch pos op a b

/-- The place that a number stands for as an index into a sequence. -/
def place (pos : Position) (x : Float) (length : Nat) : RunOn σ (Option Nat) :=
  match integerOf? x with
  | some n => return Index.place? n length
  | none => fail (.fractionalIndex x) pos

/-- The element of an array, the character of a string or the value of a key of a hash; `null`
if there is none. -/
def index (pos : Position) (collection i : Value) : RunOn σ Value := do
  match collection, i with
  | .array id, .num x =>
    let elements := (← heap).array id
    let at? ← place pos x elements.size
    return (at?.bind fun n => elements[n]?).getD .null
  | .str s, .num x =>
    let characters := s.toList
    let at? ← place pos x characters.length
    return ((at?.bind fun n => characters[n]?).map fun c => .str c.toString).getD .null
  | .hash id, key => return (← answer fun h => h.find? (h.hash id) key).getD .null
  | _, _ => fail (.notIndexable collection.kind i.kind) pos

/-- The opposite of a number. -/
def negate (pos : Position) (v : Value) : RunOn σ Value :=
  match v with
  | .num x => return .num (-x)
  | _ => fail (.invalidOperand v.kind) pos

/-- Stops with a thrown value: an error keeps its position, any other value is the text of a new
one. -/
def raise (pos : Position) (v : Value) : RunOn σ Value := do
  match v with
  | .error f => throw (.fault (f.located pos))
  | _ => fail (.thrown ((← heap).stringify v)) pos

end Run

end Scriptlet
