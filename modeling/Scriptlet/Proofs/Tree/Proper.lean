import Scriptlet.Proofs.Tree.Formed

/-!
# Proper trees

What the evaluator takes for granted of syntax trees, node by node: the parameters of a function
literal differ, a decorator is put on something that declares a name, what is deleted is a name, and
a function that is bound to a name has one.  A tree is proper if this holds at every depth.
-/

namespace Scriptlet

/-! ### What holds at every depth -/

/-- What is asked of the nodes of a tree. -/
structure Law where
  /-- What is asked of an expression. -/
  expr : Expr → Prop
  /-- What is asked of a statement. -/
  stmt : Stmt → Prop

mutual

/-- Whether a law holds of an expression and of all nodes in it. -/
def Expr.Everywhere (L : Law) : Expr → Prop
  | .name pos x => L.expr (.name pos x)
  | .num pos value => L.expr (.num pos value)
  | .str pos content => L.expr (.str pos content)
  | .bool pos value => L.expr (.bool pos value)
  | .null pos => L.expr (.null pos)
  | .unary pos op operand => L.expr (.unary pos op operand) ∧ operand.Everywhere L
  | .binary pos op left right =>
    L.expr (.binary pos op left right) ∧ left.Everywhere L ∧ right.Everywhere L
  | .cond pos test yes none =>
    L.expr (.cond pos test yes none) ∧ test.Everywhere L ∧ Stmt.AllEverywhere L yes
  | .cond pos test yes (some no) =>
    L.expr (.cond pos test yes (some no)) ∧ test.Everywhere L ∧ Stmt.AllEverywhere L yes
      ∧ Stmt.AllEverywhere L no
  | .loop pos test body =>
    L.expr (.loop pos test body) ∧ test.Everywhere L ∧ Stmt.AllEverywhere L body
  | .func pos name params body =>
    L.expr (.func pos name params body) ∧ Stmt.AllEverywhere L body
  | .call pos callee args =>
    L.expr (.call pos callee args) ∧ callee.Everywhere L ∧ Expr.AllEverywhere L args
  | .array pos elements => L.expr (.array pos elements) ∧ Expr.AllEverywhere L elements
  | .hash pos entries => L.expr (.hash pos entries) ∧ Expr.EntriesEverywhere L entries
  | .index pos collection i =>
    L.expr (.index pos collection i) ∧ collection.Everywhere L ∧ i.Everywhere L
  | .assign pos x value => L.expr (.assign pos x value) ∧ value.Everywhere L
  | .decorated pos decorator declaration =>
    L.expr (.decorated pos decorator declaration) ∧ decorator.Everywhere L
      ∧ declaration.Everywhere L

/-- Whether a law holds of all the expressions and of all nodes in them. -/
def Expr.AllEverywhere (L : Law) : List Expr → Prop
  | [] => True
  | e :: rest => e.Everywhere L ∧ Expr.AllEverywhere L rest

/-- Whether a law holds of the keys and the values of all the entries and of all nodes in them. -/
def Expr.EntriesEverywhere (L : Law) : List (Expr × Expr) → Prop
  | [] => True
  | (key, value) :: rest =>
    key.Everywhere L ∧ value.Everywhere L ∧ Expr.EntriesEverywhere L rest

/-- Whether a law holds of a statement and of all nodes in it. -/
def Stmt.Everywhere (L : Law) : Stmt → Prop
  | .define pos x value => L.stmt (.define pos x value) ∧ value.Everywhere L
  | .ret pos none => L.stmt (.ret pos none)
  | .ret pos (some value) => L.stmt (.ret pos (some value)) ∧ value.Everywhere L
  | .expr pos value => L.stmt (.expr pos value) ∧ value.Everywhere L
  | .block pos body => L.stmt (.block pos body) ∧ Stmt.AllEverywhere L body
  | .use pos unit => L.stmt (.use pos unit)

/-- Whether a law holds of all the statements and of all nodes in them. -/
def Stmt.AllEverywhere (L : Law) : List Stmt → Prop
  | [] => True
  | s :: rest => s.Everywhere L ∧ Stmt.AllEverywhere L rest

end

variable {L : Law}

/-- Statements keep a law at every depth if each of them does. -/
theorem Stmt.allEverywhere_iff {ss : List Stmt} :
  Stmt.AllEverywhere L ss ↔ ∀ s ∈ ss, s.Everywhere L
  := by
  induction ss with
  | nil => simp [Stmt.AllEverywhere]
  | cons s rest ih => simp [Stmt.AllEverywhere, ih]

/-! ### What the evaluator takes for granted -/

/-- Whether a statement declares a name, or is an expression that has a decorator in front. -/
def Stmt.declares : Stmt → Bool
  | .define .. | .expr _ (.decorated ..) => true
  | _ => false

/-- What the evaluator takes for granted of the nodes of a tree, and `N` of its number literals. -/
def Law.proper (N : Position → Nat → Prop) : Law where
  expr
    | .num pos value => N pos value
    | .unary _ .delete operand => operand.isName = true
    | .func _ _ params _ => params.Nodup
    | .decorated _ _ declaration =>
      declaration.declares = true ∧ declaration.declaredName?.isSome = true
    | _ => True
  stmt
    | .define _ _ value => value.anonymous = false
    | _ => True

/-- Whether a statement is proper and can be decorated. -/
structure Stmt.Declaring (N : Position → Nat → Prop) (s : Stmt) : Prop where
  everywhere : s.Everywhere (.proper N)
  declares : s.declares = true
  named : s.declaredName?.isSome = true

variable {N : Position → Nat → Prop}

/-- A function that is given a name is as proper as before. -/
theorem Expr.Everywhere.named {e : Expr} (h : e.Everywhere (.proper N)) (x : String) :
  (e.named x).Everywhere (.proper N)
  := by
  rcases e with _ | _ | _ | _ | _ | _ | _ | _ | _ | ⟨_, _ | _, _, _⟩ | _ | _ | _ | _ | _ | _
  all_goals exact h

/-- A declaration with a function that has a name can be decorated. -/
theorem Stmt.declaring_define {pos : Position} {x : String} {value : Expr}
    (hname : value.anonymous = false) (hvalue : value.Everywhere (.proper N)) :
  (Stmt.define pos x value).Declaring N
  := ⟨⟨hname, hvalue⟩, rfl, rfl⟩

/-- A declaration with a decorator in front can be decorated again. -/
theorem Stmt.Declaring.decorated {s : Stmt} (hs : s.Declaring N) {decorator : Expr}
    (hdecorator : decorator.Everywhere (.proper N)) (pos pos' : Position) :
  (Stmt.expr pos (.decorated pos' decorator s)).Declaring N
  := ⟨⟨trivial, ⟨hs.declares, hs.named⟩, hdecorator, hs.everywhere⟩, rfl, hs.named⟩

end Scriptlet
