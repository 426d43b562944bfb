import Scriptlet.Proofs.Balance
import Scriptlet.Proofs.Running.Retention

/-!
# Confinement

What is evaluated in a scope adds names to no scope that there was before, except to that one: the
scopes of blocks and of calls are new, and the scope a task is given is the only one it hands on.
-/

namespace Scriptlet

variable {σ : Type}

namespace Task

/-- The scope in which a task may add names. -/
def home {y : Yield} : Task y → Option Nat
  | statement (.block ..) _ | block .. | closure .. | apply (.func _) .. => none
  | statements _ scope | statement _ scope | expr _ scope | unary _ _ _ scope
  | binary _ _ _ _ scope | loop _ _ _ _ scope | all _ scope | entries _ _ scope
  | decorated _ _ scope | declared _ _ scope | apply _ _ scope _ | native _ _ scope
  | overElements _ scope | forEach _ _ _ _ _ scope | call _ _ scope | text _ _ scope
  | unit _ scope | program _ scope => scope.head?

/-- A statement adds names to the scope that it is given, if to any. -/
theorem home_statement {s : Stmt} {scope : Scope} {id : Nat} (h : id ∈ (statement s scope).home) :
  id ∈ scope.head?
  := by
  cases s
  case block => cases h
  all_goals exact h

/-- A call adds names to the scope of its caller, if to any. -/
theorem home_apply {callee : Value} {args : List Value} {scope : Scope} {pos : Position} {id : Nat}
    (h : id ∈ (apply callee args scope pos).home) :
  id ∈ scope.head?
  := by
  cases callee
  case func => cases h
  all_goals exact h

end Task

/-! ### Confined plans -/

section

variable (A : Nat → Prop)

/-- Whether an action that leads to `v` opens no scopes but those that may get names. -/
def Action.Opens : (a : Action) → a.Result → Prop
  | .enclose .., scope => ∀ id ∈ scope.head?, A id
  | _, _ => True

/-- Whether all that a plan does may add names only to scopes of which the numbers fulfil `A`, as
long as the scopes that it opens do so. -/
def Plan.Confined {α : Type} : Plan α → Prop
  | ret _ | leave _ | stop _ => True
  | act a next => (∀ id ∈ a.home, A id) ∧ ∀ v, a.Opens A v → (next v).Confined
  | tick _ next => next.Confined
  | room full next => (∀ limit, (full limit).Confined) ∧ next.Confined
  | call t next | within _ t next => (∀ id ∈ t.home, A id) ∧ ∀ v, (next v).Confined

end

section

variable {A : Nat → Prop} {α : Type}

/-- A plan that begins with an action which adds no names. -/
theorem Plan.confined_act {a : Action} {next : a.Result → Plan α} (ha : a.home = none)
    (hnext : ∀ v, (next v).Confined A) :
  (act a next).Confined A
  := by
  refine ⟨?_, fun v _ => hnext v⟩
  rw [ha]
  rintro _ ⟨⟩

/-- A plan that begins with a new scope. -/
theorem Plan.confined_enclose {outer : Scope} {b : Bindings} {next : Scope → Plan α}
    (hnext : ∀ scope, (∀ id ∈ List.head? scope, A id) → (next scope).Confined A) :
  (act (.enclose outer b) next).Confined A
  := ⟨by rintro _ ⟨⟩, hnext⟩

/-- A plan that begins with a task which adds no names to the scopes there are. -/
theorem Plan.confined_call {y : Yield} {t : Task y} {next : y.Of → Plan α} (ht : t.home = none)
    (hnext : ∀ v, (next v).Confined A) :
  (call t next).Confined A
  := by
  refine ⟨?_, hnext⟩
  rw [ht]
  rintro _ ⟨⟩

end

namespace Task

open Plan

variable {A : Nat → Prop} {setting : Setting σ} {scope : Scope}

/-- A statement hands on its scope, but for a block, which makes its own. -/
theorem confined_statement {s : Stmt} (h : ∀ id ∈ (statement s scope).home, A id) :
  (plan setting (statement s scope)).Confined A
  := by
  rcases s with _ | ⟨_, _ | _⟩ | _ | _ | _
  case define => exact ⟨h, fun _ => ⟨h, fun _ _ => trivial⟩⟩
  case ret.none => trivial
  case ret.some | expr | block => exact ⟨h, fun _ => trivial⟩
  case use =>
    refine ⟨h, fun v => ?_⟩
    cases v
    all_goals trivial

/-- An expression hands on its scope. -/
theorem confined_expr {e : Expr} (h : ∀ id ∈ scope.head?, A id) :
  (plan setting (expr e scope)).Confined A
  := by
  cases e
  case name | func => exact confined_act rfl fun _ => trivial
  case num | str | bool | null => trivial
  case unary | binary | loop | decorated => exact ⟨h, fun _ => trivial⟩
  case cond pos test yes no =>
    refine ⟨h, fun v => ?_⟩
    dsimp only
    split
    · exact confined_call rfl fun _ => trivial
    · cases no with
      | none => trivial
      | some no => exact confined_call rfl fun _ => trivial
  case call =>
    exact ⟨h, fun _ => ⟨h, fun _ => ⟨fun id hid => h id (home_apply hid), fun _ => trivial⟩⟩⟩
  case array | hash => exact ⟨h, fun _ => confined_act rfl fun _ => trivial⟩
  case index => exact ⟨h, fun _ => ⟨h, fun _ => confined_act rfl fun _ => trivial⟩⟩
  case assign =>
    refine ⟨h, fun _ => confined_act rfl fun found => ?_⟩
    cases found
    all_goals trivial

/-- A unary operator hands on its scope. -/
theorem confined_unary {pos : Position} {op : UnaryOp} {operand : Expr}
    (h : ∀ id ∈ scope.head?, A id) :
  (plan setting (unary pos op operand scope)).Confined A
  := by
  cases op
  case delete =>
    cases operand
    case name => exact confined_act rfl fun _ => trivial
    all_goals trivial
  case negate | throw => exact ⟨h, fun _ => confined_act rfl fun _ => trivial⟩
  case not | typeOf => exact ⟨h, fun _ => trivial⟩

/-- A binary operator hands on its scope. -/
theorem confined_binary {pos : Position} {op : BinaryOp} {left right : Expr}
    (h : ∀ id ∈ scope.head?, A id) :
  (plan setting (binary pos op left right scope)).Confined A
  := by
  refine ⟨h, fun a => ?_⟩
  dsimp only
  split
  · trivial
  · split
    · trivial
    · refine ⟨h, fun b => ?_⟩
      dsimp only
      split
      · trivial
      · exact confined_act rfl fun _ => trivial

/-- A loop hands on its scope, and makes one for each round. -/
theorem confined_loop {pos : Position} {test : Expr} {body : List Stmt} {last : Value}
    (h : ∀ id ∈ scope.head?, A id) :
  (plan setting (loop pos test body last scope)).Confined A
  := by
  refine ⟨h, fun v => ?_⟩
  dsimp only
  split
  · exact ⟨by rintro _ ⟨⟩, fun _ => ⟨h, fun _ => trivial⟩⟩
  · trivial

/-- A decorated declaration hands on its scope. -/
theorem confined_decorated {decorator : Expr} {declaration : Stmt}
    (h : ∀ id ∈ scope.head?, A id) :
  (plan setting (decorated decorator declaration scope)).Confined A
  := by
  refine ⟨h, fun f => ?_⟩
  dsimp only
  cases declaration.declaredName? with
  | none => trivial
  | some name =>
      exact ⟨h, fun _ => ⟨fun id hid => h id (home_apply hid), fun _ => ⟨h, fun _ _ => trivial⟩⟩⟩

/-- A declaration behind a decorator hands on its scope. -/
theorem confined_declared {declaration : Stmt} {name : String} (h : ∀ id ∈ scope.head?, A id) :
  (plan setting (declared declaration name scope)).Confined A
  := by
  cases declaration
  case define => exact ⟨h, fun _ => confined_act rfl fun _ => trivial⟩
  case expr => exact ⟨h, fun _ => trivial⟩
  all_goals trivial

/-- A call hands the scope of its caller on to native functions only. -/
theorem confined_apply {callee : Value} {args : List Value} {pos : Position}
    (h : ∀ id ∈ (apply callee args scope pos).home, A id) :
  (plan setting (apply callee args scope pos)).Confined A
  := by
  cases callee
  case native =>
    refine ⟨h, fun v => ?_⟩
    cases v
    all_goals trivial
  case func => exact confined_call rfl fun _ => trivial
  all_goals trivial

/-- A function is run in a scope of its own, in which its parameters are bound. -/
theorem confined_closure {i : Nat} {args : List Value} {pos : Position} :
  (plan setting (closure i args pos)).Confined A
  := by
  refine confined_act rfl fun f => ?_
  split
  · trivial
  · exact ⟨fun _ => trivial, confined_enclose fun _ hinner => ⟨hinner, fun _ => trivial⟩⟩

/-- A native function works on the scope of its caller alone. -/
theorem confined_native {f : Native} {args : List Value} (h : ∀ id ∈ scope.head?, A id) :
  (plan setting (native f args scope)).Confined A
  := by
  rcases nativePlan_cases setting f args scope with ⟨name, rest, rfl, rfl, hplan⟩
    | ⟨code, rest, rfl, rfl, -, hplan⟩ | ⟨rfl, hplan⟩ | hplan | ⟨v, -, hplan⟩
  all_goals simp only [plan, hplan]
  · exact ⟨h, fun _ => trivial⟩
  · exact ⟨h, fun _ => trivial⟩
  · exact ⟨h, fun _ => trivial⟩
  · exact confined_act rfl fun _ => trivial
  · trivial

/-- What goes through an array hands on the scope of its caller. -/
theorem confined_overElements {args : List Value} (h : ∀ id ∈ scope.head?, A id) :
  (plan setting (overElements args scope)).Confined A
  := by
  rcases args with _ | ⟨_ | _ | _ | _ | id | _ | _ | _ | _, _ | ⟨callback, args⟩⟩
  case cons.array.cons =>
    refine confined_act rfl fun es => ?_
    cases callback
    case func => exact confined_act rfl fun _ => ⟨h, fun _ => trivial⟩
    case native => exact ⟨h, fun _ => trivial⟩
    all_goals trivial
  all_goals trivial

/-- A round over an array hands on the scope of its caller. -/
theorem confined_forEach {callback : Value} {arity : Nat} {array : Value} {es : List Value}
    {i : Nat} (h : ∀ id ∈ scope.head?, A id) :
  (plan setting (forEach callback arity array es i scope)).Confined A
  := by
  cases es with
  | nil => trivial
  | cons element rest =>
      refine ⟨h, fun v => ?_⟩
      cases v
      case error => trivial
      all_goals exact ⟨h, fun _ => trivial⟩

/-- A text is run in the scope of its caller. -/
theorem confined_text {code file : String} (h : ∀ id ∈ scope.head?, A id) :
  (plan setting (text code file scope)).Confined A
  := by
  refine ⟨fun _ => trivial, ?_⟩
  rcases Program.parse code file with ⟨p, _ | ⟨e, rest⟩⟩
  · exact ⟨h, fun _ => trivial⟩
  · trivial

/-- A unit is run in the scope of its importer. -/
theorem confined_unit {name : String} (h : ∀ id ∈ scope.head?, A id) :
  (plan setting (unit name scope)).Confined A
  := by
  simp only [plan]
  rcases setting.unit? name with _ | ⟨key, code⟩
  · trivial
  · refine confined_act rfl fun imported => ?_
    split
    · trivial
    · exact ⟨h, fun _ => trivial⟩

/-- The plan of a task may add names only to the scope of the task and to those that it opens. -/
theorem confined {y : Yield} {t : Task y} (h : ∀ id ∈ t.home, A id) :
  (t.plan setting).Confined A
  := by
  cases t with
  | statements ss scope =>
      rcases ss with _ | ⟨s, _ | ⟨s', rest⟩⟩
      · trivial
      · exact ⟨fun id hid => h id (home_statement hid), fun _ => trivial⟩
      · exact ⟨fun id hid => h id (home_statement hid), fun _ => ⟨h, fun _ => trivial⟩⟩
  | statement s scope => exact confined_statement h
  | block body scope => exact confined_enclose fun _ hinner => ⟨hinner, fun _ => trivial⟩
  | expr e scope => exact confined_expr h
  | unary pos op operand scope => exact confined_unary h
  | binary pos op left right scope => exact confined_binary h
  | loop pos test body last scope => exact confined_loop h
  | all es scope =>
      cases es with
      | nil => trivial
      | cons e rest => exact ⟨h, fun _ => ⟨h, fun _ => trivial⟩⟩
  | entries es pairs scope =>
      rcases es with _ | ⟨⟨key, value⟩, rest⟩
      · trivial
      · exact ⟨h, fun _ => ⟨h, fun _ => confined_act rfl fun _ => ⟨h, fun _ => trivial⟩⟩⟩
  | decorated decorator declaration scope => exact confined_decorated h
  | declared declaration name scope => exact confined_declared h
  | apply callee args scope pos => exact confined_apply h
  | closure id args pos => exact confined_closure
  | native f args scope => exact confined_native h
  | overElements args scope => exact confined_overElements h
  | forEach callback arity array es i scope => exact confined_forEach h
  | call callee args scope =>
      exact confined_act rfl fun _ => ⟨fun id hid => h id (home_apply hid), fun _ => trivial⟩
  | text code file scope => exact confined_text h
  | unit name scope => exact confined_unit h
  | program p scope =>
      refine ⟨h, fun v => ?_⟩
      cases v
      all_goals trivial

end Task

/-! ### Runs of confined plans -/

/-- Runs add names only to the scopes in which their tasks may. -/
def confinement : Contract σ where
  Given _ := True
  Pre _ _ := True
  Post t m r := m.scopes.GrowsIn (· ∈ t.home) r.machine.scopes
  Good _ := True

section

variable {A : Nat → Prop} {m₀ m : Machine σ} {setting : Setting σ}

/-- What follows an outcome by which names have been added only to the given scopes. -/
theorem follows_confined {α β : Type} {r : Outcome σ α} {P : α → Machine σ → Prop}
    (hr : m₀.scopes.GrowsIn A r.machine.scopes)
    (hP : ∀ a m', r = .ok a m' → m₀.scopes.GrowsIn A m'.scopes → P a m') :
  r.Follows P
    fun u m' => m₀.scopes.GrowsIn A (Outcome.machine (.error u m' : Outcome σ β)).scopes
  := by
  cases r with
  | ok a m' => exact hP a m' rfl hr
  | error u m' => exact hr

/-- A scope that an action opens is a new one. -/
theorem Action.opens_of_run {m' : Machine σ} (hm : m₀.scopes.GrowsIn A m.scopes) {a : Action}
    {v : a.Result} (h : a.run setting m = .ok v m') :
  a.Opens (fun id => A id ∨ m₀.scopes.tables.size ≤ id) v
  := by
  cases a
  case enclose outer b =>
    cases h
    rintro _ ⟨⟩
    exact .inr hm.size
  all_goals trivial

/-- A confined plan obeys the contract: by induction on the plan, along which names are added only
to scopes that may get some or are new. -/
theorem Plan.Confined.obeys_confinement {α : Type} {p : Plan α}
    (hp : p.Confined fun id => A id ∨ m₀.scopes.tables.size ≤ id)
    (hm : m₀.scopes.GrowsIn A m.scopes) :
  p.Obeys confinement setting (fun r => m₀.scopes.GrowsIn A r.machine.scopes) m
  := by
  induction p generalizing m with
  | ret a => exact hm
  | leave v => exact hm
  | stop f => exact hm
  | act a next ih =>
      obtain ⟨hhome, hnext⟩ := hp
      have hrun := hm.extend (a.confines_run setting m) hhome
      refine ⟨trivial, follows_confined hrun fun v m' heq hm' => ?_⟩
      exact ih v (hnext v (Action.opens_of_run hm heq)) hm'
  | tick pos next ih =>
      have hrun : m₀.scopes.GrowsIn A (Outcome.machine (Run.tick setting pos m)).scopes := by
        rw [Run.scopes_tick]
        exact hm
      exact ⟨trivial, trivial, follows_confined hrun fun _ _ _ => ih hp⟩
  | room full next ihfull ih =>
      refine ⟨trivial, ?_⟩
      split
      · exact ihfull _ (hp.1 _) hm
      · exact ih hp.2 hm
  | call t next ih =>
      obtain ⟨hhome, hnext⟩ := hp
      refine ⟨fun _ => trivial, fun r hr => ⟨trivial, ?_⟩⟩
      exact follows_confined (hm.extend hr hhome) fun v _ _ => ih v (hnext v)
  | within b t next ih =>
      obtain ⟨hhome, hnext⟩ := hp
      refine ⟨trivial, fun _ => trivial, fun r hr => ⟨trivial, ?_⟩⟩
      refine follows_confined ?_ fun v _ _ => ih v (hnext v)
      rw [b.machine_outcome]
      exact hm.extend hr hhome

end

/-- All tasks add names only to the scope that they are given. -/
theorem confinement_kept (setting : Setting σ) :
  confinement.Kept setting
  where
  exhausted _ m _ := .refl _ m.scopes
  start _ _ _ := trivial
  plan t m _ _ := (t.confined fun _ => .inl).obeys_confinement (.refl _ m.scopes)

/-- The run of a task adds names only to the scope in which the task may. -/
theorem Task.confines_run (setting : Setting σ) (n : Nat) {y : Yield} (t : Task y) :
  Confines (· ∈ t.home) (t.run setting n)
  := fun m => ((confinement_kept setting).run n t m (fun _ _ _ _ => trivial) trivial).1

/-- However a statement or an expression ends, afterwards no scope that was there before has a name
it did not have, except for the scope that it was evaluated in; and not even that one if it is a
block, be it a statement, a branch or the body of a loop, or a call of a function. -/
theorem Run.eval_confined (setting : Setting σ) (n : Nat) (scope : Scope) :
  (∀ s, Confines (· ∈ scope.head?) (evalStatement setting n s scope))
  ∧ (∀ e, Confines (· ∈ scope.head?) (eval setting n e scope))
  ∧ (∀ pos body, Confines (fun _ => False) (evalStatement setting n (.block pos body) scope))
  ∧ (∀ body, Confines (fun _ => False) (evalBlock setting n body scope))
  ∧ ∀ id args pos, Confines (fun _ => False) (apply setting n (.func id) args scope pos)
  := by
  refine ⟨fun s => ?statement, fun e => ?expr, fun pos body => ?block, fun body => ?body,
    fun id args pos => ?call⟩
  case statement =>
    exact (Task.confines_run setting n (.statement s scope)).mono fun _ => Task.home_statement
  case expr => exact Task.confines_run setting n (.expr e scope)
  case block =>
    exact (Task.confines_run setting n (.statement (.block pos body) scope)).mono (by rintro _ ⟨⟩)
  case body => exact (Task.confines_run setting n (.block body scope)).mono (by rintro _ ⟨⟩)
  case call =>
    exact (Task.confines_run setting n (.apply (.func id) args scope pos)).mono (by rintro _ ⟨⟩)

end Scriptlet
