import Scriptlet.Proofs.Running.Moment

/-!
# Progress of plans

Which tasks a plan starts, and when.  A task that is not started behind a counted step or one
level deeper ranks below the task whose plan it is in: it has less syntax or fewer elements to go
through, or it belongs to a lower level of the evaluator.  A body or a round is entered behind a
step counted for it, and a bracket that nests deeper behind a test that there is room.

All of this is read off the plans in one place (`Task.orderly`).  How deep runs nest, that they
end, and how many bodies they enter follows from it.
-/

namespace Scriptlet

variable {σ : Type}

namespace Bracket

/-- Whether a bracket nests one level deeper. -/
def deepens : Bracket → Bool
  | body .. | source => true
  | _ => false

/-- Whether a bracket is a round of a loop or the body of a function. -/
def costs : Bracket → Bool
  | round | body .. => true
  | _ => false

end Bracket

namespace Task

/-- Whether a function is called for each element of an array when `forEach` is called with the
given arguments. -/
def iterates : List Value → Bool
  | .array _ :: .func _ :: _ | .array _ :: .native _ :: _ => true
  | _ => false

/-- The level of a call of a native function. -/
def nativeLevel (f : Native) (args : List Value) : Nat :=
  if f = .forEach ∧ iterates args then 7 else 2

/-- The level of a call. -/
def applyLevel (callee : Value) (args : List Value) : Nat :=
  match callee with
  | .native f => nativeLevel f args + 1
  | _ => 1

/-- The level of a task: as long as no step is counted and nothing is nested deeper, a task starts
only tasks of its own level or a lower one. -/
def level {y : Yield} : Task y → Nat
  | text .. | closure .. => 0
  | unit .. => 1
  | native f args _ => nativeLevel f args
  | apply callee args _ _ => applyLevel callee args
  | call callee args _ => applyLevel callee args + 1
  | forEach .. => 5
  | overElements args _ => if iterates args then 6 else 0
  | program .. => 11
  | _ => 10

/-- The size of a task among those of its level. -/
noncomputable def size {y : Yield} : Task y → Nat
  | statements ss _ => sizeOf ss
  | statement s _ => sizeOf s
  | block body _ => sizeOf body + 1
  | expr e _ => sizeOf e
  | unary _ _ operand _ => sizeOf operand + 1
  | binary _ _ left right _ => sizeOf left + sizeOf right + 1
  | loop _ test _ _ _ => sizeOf test + 1
  | all es _ => sizeOf es
  | entries es _ _ => sizeOf es
  | decorated decorator declaration _ => sizeOf decorator + sizeOf declaration + 1
  | declared declaration _ _ => sizeOf declaration + 1
  | forEach _ _ _ es _ _ => es.length
  | _ => 0

/-- Whether a task ranks below another one. -/
def Below {y z : Yield} (t : Task y) (t' : Task z) : Prop :=
  t.level < t'.level ∨ t.level = t'.level ∧ t.size < t'.size

/-- No call is above the level of expressions. -/
theorem applyLevel_le (callee : Value) (args : List Value) :
  applyLevel callee args ≤ 8
  := by
  unfold applyLevel nativeLevel
  split
  · split
    all_goals omega
  · omega

/-- No call for an element of an array goes through an array itself. -/
theorem applyLevel_take_le (callee element array : Value) (x : Float) (arity : Nat) :
  applyLevel callee ([element, .num x, array].take arity) ≤ 3
  := by
  have hidle : iterates ([element, .num x, array].take arity) = false := by
    rcases arity with _ | _ | arity
    · rfl
    · cases element
      all_goals rfl
    · cases element
      all_goals rfl
  unfold applyLevel nativeLevel
  split
  · simp [hidle]
  · omega

end Task

/-! ### Orderly plans -/

/-- What has been done in a plan so far. -/
structure Progress where
  /-- Whether it has been tested that there is room. -/
  roomy : Bool
  /-- Whether a step has been counted. -/
  counted : Bool
  /-- Whether a step has been counted for which nothing has been entered yet. -/
  paid : Bool

/-- Nothing has been done. -/
def Progress.none : Progress :=
  ⟨false, false, false⟩

/-- Whether a plan, which is part of the plan of `t`, starts tasks and enters brackets only as its
progress allows. -/
def Plan.Orderly {y : Yield} (t : Task y) (g : Progress) {α : Type} : Plan α → Prop
  | ret _ | leave _ | stop _ => True
  | act _ next => ∀ v, (next v).Orderly t g
  | tick _ next => next.Orderly t { g with counted := true, paid := true }
  | room full next =>
    (∀ limit, (full limit).Orderly t g) ∧ next.Orderly t { g with roomy := true }
  | call t' next =>
    (g.counted ∨ t'.Below t) ∧ ∀ v, (next v).Orderly t { g with paid := false }
  | within b t' next =>
    (b.deepens → g.roomy) ∧ (b.costs → g.paid) ∧ (g.counted ∨ b.deepens ∨ t'.Below t)
    ∧ ∀ v, (next v).Orderly t { g with paid := false }

/-- A plan that enters a bracket which neither nests deeper nor has to be paid for. -/
theorem Plan.orderly_within {y : Yield} {t : Task y} {g : Progress} {α : Type} {b : Bracket}
    {t' : Task .value} {next : Value → Plan α} (hdeepens : b.deepens = false)
    (hcosts : b.costs = false) (hbelow : t'.level < t.level)
    (hnext : ∀ v, (next v).Orderly t { g with paid := false }) :
  (within b t' next).Orderly t g
  := by
  refine ⟨fun h => ?_, fun h => ?_, .inr (.inr (.inl hbelow)), hnext⟩
  · rw [hdeepens] at h
    cases h
  · rw [hcosts] at h
    cases h

namespace Task

open Plan

variable {setting : Setting σ}

/-- Positions have some size, so each node is larger than its parts. -/
theorem sizeOf_position_pos (pos : Position) :
  0 < sizeOf pos
  := by
  cases pos
  simp only [Position.mk.sizeOf_spec]
  omega

/-- Expressions have some size. -/
theorem sizeOf_expr_pos (e : Expr) :
  0 < sizeOf e
  := by
  rw [Nat.pos_iff_ne_zero]
  cases e
  all_goals simp

/-- On the same level, the task that has less ranks below. -/
theorem below_of_size {y z : Yield} {t : Task y} {t' : Task z} (hlevel : t.level = t'.level)
    (hsize : t.size < t'.size) :
  t.Below t'
  := .inr ⟨hlevel, hsize⟩

/-- Statements start each of them, and those that are left. -/
theorem orderly_statements (ss : List Stmt) (scope : Scope) :
  (plan setting (statements ss scope)).Orderly (statements ss scope) .none
  := by
  rcases ss with _ | ⟨s, _ | ⟨s', rest⟩⟩
  · trivial
  · refine ⟨.inr (below_of_size rfl ?_), fun _ => trivial⟩
    simp only [size, List.cons.sizeOf_spec]
    omega
  · refine ⟨.inr (below_of_size rfl ?_), fun _ => ⟨.inr (below_of_size rfl ?_), fun _ => trivial⟩⟩
    all_goals simp only [size, List.cons.sizeOf_spec]
    all_goals omega

/-- A statement starts its parts. -/
theorem orderly_statement (s : Stmt) (scope : Scope) :
  (plan setting (statement s scope)).Orderly (statement s scope) .none
  := by
  have hpos := sizeOf_position_pos s.pos
  rcases s with ⟨pos, x, value⟩ | ⟨pos, _ | value⟩ | ⟨pos, value⟩ | ⟨pos, body⟩ | ⟨pos, name⟩
  case ret.none => trivial
  case use =>
    refine ⟨.inr (.inl (show 1 < 10 by decide)), fun v => ?_⟩
    cases v
    all_goals trivial
  case define =>
    refine ⟨.inr (below_of_size rfl ?_), fun _ _ => trivial⟩
    simp only [size, Stmt.define.sizeOf_spec]
    omega
  all_goals refine ⟨.inr (below_of_size rfl ?_), fun _ => trivial⟩
  all_goals
    simp only [size, Stmt.ret.sizeOf_spec, Stmt.expr.sizeOf_spec, Stmt.block.sizeOf_spec,
      Option.some.sizeOf_spec, Stmt.pos] at hpos ⊢
    omega

/-- An expression starts its parts. -/
theorem orderly_expr (e : Expr) (scope : Scope) :
  (plan setting (expr e scope)).Orderly (expr e scope) .none
  := by
  have hpos := sizeOf_position_pos e.pos
  cases e
  all_goals simp only [Expr.pos] at hpos
  case name | func => exact fun _ => trivial
  case num | str | bool | null => trivial
  case unary =>
    refine ⟨.inr (below_of_size rfl ?_), fun _ => trivial⟩
    simp only [size, Expr.unary.sizeOf_spec]
    omega
  case binary =>
    refine ⟨.inr (below_of_size rfl ?_), fun _ => trivial⟩
    simp only [size, Expr.binary.sizeOf_spec]
    omega
  case cond pos test yes no =>
    refine ⟨.inr (below_of_size rfl ?_), fun v => ?_⟩
    · simp only [size, Expr.cond.sizeOf_spec]
      omega
    · dsimp only
      split
      · refine ⟨.inr (below_of_size rfl ?_), fun _ => trivial⟩
        simp only [size, Expr.cond.sizeOf_spec]
        omega
      · cases no
        · trivial
        · refine ⟨.inr (below_of_size rfl ?_), fun _ => trivial⟩
          simp only [size, Expr.cond.sizeOf_spec, Option.some.sizeOf_spec]
          omega
  case loop =>
    refine ⟨.inr (below_of_size rfl ?_), fun _ => trivial⟩
    simp only [size, Expr.loop.sizeOf_spec]
    omega
  case call pos callee args =>
    refine ⟨.inr (below_of_size rfl ?_), fun f => ⟨.inr (below_of_size rfl ?_), fun values =>
      ⟨.inr (.inl ?_), fun _ => trivial⟩⟩⟩
    · simp only [size, Expr.call.sizeOf_spec]
      omega
    · simp only [size, Expr.call.sizeOf_spec]
      omega
    · have := applyLevel_le f values
      simp only [level]
      omega
  case array =>
    refine ⟨.inr (below_of_size rfl ?_), fun _ _ => trivial⟩
    simp only [size, Expr.array.sizeOf_spec]
    omega
  case hash =>
    refine ⟨.inr (below_of_size rfl ?_), fun _ _ => trivial⟩
    simp only [size, Expr.hash.sizeOf_spec]
    omega
  case index =>
    refine ⟨.inr (below_of_size rfl ?_), fun _ => ⟨.inr (below_of_size rfl ?_), fun _ _ => trivial⟩⟩
    all_goals simp only [size, Expr.index.sizeOf_spec]
    all_goals omega
  case assign =>
    refine ⟨.inr (below_of_size rfl ?_), fun v found => ?_⟩
    · simp only [size, Expr.assign.sizeOf_spec]
      omega
    · cases found
      all_goals trivial
  case decorated =>
    refine ⟨.inr (below_of_size rfl ?_), fun _ => trivial⟩
    simp only [size, Expr.decorated.sizeOf_spec]
    omega

/-- A unary operator starts its operand. -/
theorem orderly_unary (pos : Position) (op : UnaryOp) (operand : Expr) (scope : Scope) :
  (plan setting (unary pos op operand scope)).Orderly (unary pos op operand scope) .none
  := by
  have hbelow : (expr operand scope).Below (unary pos op operand scope) :=
    below_of_size rfl (Nat.lt_succ_self _)
  cases op
  case delete =>
    cases operand
    case name => exact fun _ => trivial
    all_goals trivial
  case negate | throw => exact ⟨.inr hbelow, fun _ _ => trivial⟩
  case not | typeOf => exact ⟨.inr hbelow, fun _ => trivial⟩

/-- A binary operator starts its operands. -/
theorem orderly_binary (pos : Position) (op : BinaryOp) (left right : Expr) (scope : Scope) :
  (plan setting (binary pos op left right scope)).Orderly (binary pos op left right scope) .none
  := by
  refine ⟨.inr (below_of_size rfl ?_), fun a => ?_⟩
  · simp only [size]
    omega
  · dsimp only
    split
    · trivial
    · split
      · trivial
      · refine ⟨.inr (below_of_size rfl ?_), fun b => ?_⟩
        · simp only [size]
          omega
        · dsimp only
          split
          · trivial
          · exact fun _ => trivial

/-- A loop starts its test, and its body behind a counted step, as also its next round. -/
theorem orderly_loop (pos : Position) (test : Expr) (body : List Stmt) (last : Value)
    (scope : Scope) :
  (plan setting (loop pos test body last scope)).Orderly (loop pos test body last scope) .none
  := by
  refine ⟨.inr (below_of_size rfl (Nat.lt_succ_self _)), fun v => ?_⟩
  dsimp only
  split
  · exact ⟨by rintro ⟨⟩, fun _ => rfl, .inl rfl, fun _ => ⟨.inl rfl, fun _ => trivial⟩⟩
  · trivial

/-- A decorated declaration starts its decorator and the declaration, which are parts of it, and a
call, which is on a lower level. -/
theorem orderly_decorated (decorator : Expr) (declaration : Stmt) (scope : Scope) :
  (plan setting (decorated decorator declaration scope)).Orderly
    (decorated decorator declaration scope) .none
  := by
  refine ⟨.inr (below_of_size rfl ?_), fun f => ?_⟩
  · simp only [size]
    omega
  · dsimp only
    cases declaration.declaredName?
    · trivial
    · refine ⟨.inr (below_of_size rfl ?_), fun v => ⟨.inr (.inl ?_), fun _ _ => trivial⟩⟩
      · have := sizeOf_expr_pos decorator
        simp only [size]
        omega
      · have := applyLevel_le f [v]
        simp only [level]
        omega

/-- A call starts what is called, which is on a lower level. -/
theorem orderly_apply (callee : Value) (args : List Value) (scope : Scope) (pos : Position) :
  (plan setting (apply callee args scope pos)).Orderly (apply callee args scope pos) .none
  := by
  cases callee
  case native f =>
    refine orderly_within rfl rfl (Nat.lt_succ_self _) fun v => ?_
    cases v
    all_goals trivial
  case func id => exact ⟨.inr (.inl (show 0 < 1 by decide)), fun _ => trivial⟩
  all_goals trivial

/-- A function enters its body behind a counted step and a test that there is room. -/
theorem orderly_closure (id : Nat) (args : List Value) (pos : Position) :
  (plan setting (closure id args pos)).Orderly (closure id args pos) .none
  := by
  intro f
  dsimp only
  split
  · trivial
  · refine ⟨fun _ => trivial, fun _ => ?_⟩
    exact ⟨fun _ => rfl, fun _ => rfl, .inl rfl, fun _ => trivial⟩

/-- A native function that calls back starts what goes through the array, or a text or a unit, all
of them on lower levels. -/
theorem orderly_native (f : Native) (args : List Value) (scope : Scope) :
  (plan setting (native f args scope)).Orderly (native f args scope) .none
  := by
  rcases nativePlan_cases setting f args scope with ⟨name, rest, rfl, rfl, hplan⟩
    | ⟨code, rest, rfl, rfl, -, hplan⟩ | ⟨rfl, hplan⟩ | hplan | ⟨v, -, hplan⟩
  all_goals simp only [plan, hplan]
  · exact ⟨.inr (.inl (show 1 < 2 by decide)), fun _ => trivial⟩
  · exact ⟨.inr (.inl (show 0 < 2 by decide)), fun _ => trivial⟩
  · refine ⟨.inr (.inl ?_), fun _ => trivial⟩
    simp only [level, nativeLevel, true_and]
    split
    all_goals decide
  · exact fun _ => trivial
  · trivial

/-- What goes through an array starts its first round. -/
theorem orderly_overElements (args : List Value) (scope : Scope) :
  (plan setting (overElements args scope)).Orderly (overElements args scope) .none
  := by
  rcases args with _ | ⟨_ | _ | _ | _ | id | _ | _ | _ | _, _ | ⟨callback, args⟩⟩
  case cons.array.cons =>
    intro elements
    cases callback
    case func => exact fun _ => ⟨.inr (.inl (show 5 < 6 by decide)), fun _ => trivial⟩
    case native => exact ⟨.inr (.inl (show 5 < 6 by decide)), fun _ => trivial⟩
    all_goals trivial
  all_goals trivial

/-- A round over an array starts a call of the callback and a round over fewer elements. -/
theorem orderly_forEach (callback : Value) (arity : Nat) (array : Value) (elements : List Value)
    (i : Nat) (scope : Scope) :
  (plan setting (forEach callback arity array elements i scope)).Orderly
    (forEach callback arity array elements i scope) .none
  := by
  cases elements with
  | nil => trivial
  | cons element rest =>
      refine ⟨.inr (.inl ?_), fun v => ?_⟩
      · have := applyLevel_take_le callback element array (Float.ofNat i) arity
        simp only [level]
        omega
      · have hrest : (forEach callback arity array rest (i + 1) scope).Below
            (forEach callback arity array (element :: rest) i scope) :=
          below_of_size rfl (Nat.lt_succ_self _)
        cases v
        case error => trivial
        all_goals exact ⟨.inr hrest, fun _ => trivial⟩

/-- A text enters its program behind a test that there is room. -/
theorem orderly_text (code file : String) (scope : Scope) :
  (plan setting (text code file scope)).Orderly (text code file scope) .none
  := by
  refine ⟨fun _ => trivial, ?_⟩
  rcases Program.parse code file with ⟨p, _ | ⟨e, es⟩⟩
  · exact ⟨fun _ => rfl, by rintro ⟨⟩, .inr (.inl rfl), fun _ => trivial⟩
  · trivial

/-- A unit enters its program behind a test that there is room. -/
theorem orderly_unit (name : String) (scope : Scope) :
  (plan setting (unit name scope)).Orderly (unit name scope) .none
  := by
  simp only [plan]
  rcases setting.unit? name with _ | ⟨key, code⟩
  · trivial
  · intro imported
    cases imported
    · exact orderly_within rfl rfl Nat.zero_lt_one fun _ => trivial
    · trivial

/-- The plan of every task is orderly. -/
theorem orderly {y : Yield} (t : Task y) :
  (t.plan setting).Orderly t .none
  := by
  cases t with
  | statements ss scope => exact orderly_statements ss scope
  | statement s scope => exact orderly_statement s scope
  | block body scope =>
      exact fun _ => ⟨.inr (below_of_size rfl (Nat.lt_succ_self _)), fun _ => trivial⟩
  | expr e scope => exact orderly_expr e scope
  | unary pos op operand scope => exact orderly_unary pos op operand scope
  | binary pos op left right scope => exact orderly_binary pos op left right scope
  | loop pos test body last scope => exact orderly_loop pos test body last scope
  | all es scope =>
      cases es
      · trivial
      · refine ⟨.inr (below_of_size rfl ?_), fun _ =>
          ⟨.inr (below_of_size rfl ?_), fun _ => trivial⟩⟩
        all_goals simp only [size, List.cons.sizeOf_spec]
        all_goals omega
  | entries es pairs scope =>
      rcases es with _ | ⟨⟨key, value⟩, rest⟩
      · trivial
      · refine ⟨.inr (below_of_size rfl ?_), fun _ => ⟨.inr (below_of_size rfl ?_), fun _ _ =>
          ⟨.inr (below_of_size rfl ?_), fun _ => trivial⟩⟩⟩
        all_goals simp only [size, List.cons.sizeOf_spec, Prod.mk.sizeOf_spec]
        all_goals omega
  | decorated decorator declaration scope => exact orderly_decorated decorator declaration scope
  | declared declaration name scope =>
      cases declaration
      case define =>
        exact ⟨.inr (below_of_size rfl (Nat.lt_succ_self _)), fun _ _ => trivial⟩
      case expr =>
        refine ⟨.inr (below_of_size rfl ?_), fun _ => trivial⟩
        simp only [size, Stmt.expr.sizeOf_spec]
        omega
      all_goals trivial
  | apply callee args scope pos => exact orderly_apply callee args scope pos
  | closure id args pos => exact orderly_closure id args pos
  | native f args scope => exact orderly_native f args scope
  | overElements args scope => exact orderly_overElements args scope
  | forEach callback arity array elements i scope =>
      exact orderly_forEach callback arity array elements i scope
  | call callee args scope =>
      exact fun _ => orderly_within rfl rfl (Nat.lt_succ_self _) fun _ => trivial
  | text code file scope => exact orderly_text code file scope
  | unit name scope => exact orderly_unit name scope
  | program p scope =>
      refine orderly_within rfl rfl (Nat.lt_succ_self 10) fun v => ?_
      cases v
      all_goals trivial

end Task

end Scriptlet
