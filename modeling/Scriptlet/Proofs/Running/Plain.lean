import Scriptlet.Proofs.Running.Plan

/-!
# Plain plans

Most plans only go through actions and through tasks out of which faults unwind.  They import no
unit, call no native function and hand on no fault as a value (`Task.plain_plan`).  What a property
of plans asks of the few other ones is all that is left to show about a task.
-/

namespace Scriptlet

variable {σ : Type}

/-! ### Faults that become values -/

/-- Whether a task hands on faults as error values. -/
def Task.settles {y : Yield} : Task y → Bool
  | native .. | overElements .. | forEach .. | call .. | text .. | unit .. | program .. => true
  | _ => false

/-- Whether a bracket makes error values of faults. -/
def Bracket.settles : Bracket → Bool
  | settled | program _ => true
  | _ => false

/-! ### Plain brackets and plans -/

/-- Whether a bracket sets off a round of a loop or the body of a function. -/
def Bracket.Plain : Bracket → Prop
  | round | body .. => True
  | _ => False

namespace Bracket.Plain

variable {b : Bracket}

/-- A bracket of a loop or of a function makes no error values of faults. -/
theorem settles_eq (hb : b.Plain) :
  b.settles = false
  := by
  cases b
  case round | body => rfl
  all_goals exact hb.elim

/-- A bracket of a loop or of a function is not that of a unit. -/
theorem ne_unit (hb : b.Plain) (key : String) :
  b ≠ .unit key
  := by
  rintro rfl
  exact hb

end Bracket.Plain

/-- Whether a plan starts only tasks that hand on no faults, in brackets of loops and functions, and
fails if there is no room. -/
def Plan.Plain {α : Type} : Plan α → Prop
  | ret _ | leave _ | stop _ => True
  | act _ next => ∀ v, (next v).Plain
  | tick _ next => next.Plain
  | room full next => (∃ pos, ∀ limit, full limit = fail (.depthExceeded limit) pos) ∧ next.Plain
  | call t next => t.settles = false ∧ ∀ v, (next v).Plain
  | within b t next => b.Plain ∧ t.settles = false ∧ ∀ v, (next v).Plain

/-- Whether a task hands on no faults and neither imports a unit nor calls a native function. -/
def Task.Plain {y : Yield} : Task y → Prop
  | statement (.use ..) _ | apply (.native _) .. => False
  | t => t.settles = false

namespace Task

open Plan

variable {setting : Setting σ}

/-- Statements but `use` have a plain plan. -/
theorem plain_statement {s : Stmt} {scope : Scope} (h : (statement s scope).Plain) :
  (plan setting (statement s scope)).Plain
  := by
  rcases s with ⟨pos, x, value⟩ | ⟨pos, _ | value⟩ | ⟨pos, value⟩ | ⟨pos, body⟩ | ⟨pos, name⟩
  case define => exact ⟨rfl, fun _ _ => trivial⟩
  case ret.none => trivial
  case use => exact h.elim
  all_goals exact ⟨rfl, fun _ => trivial⟩

/-- Expressions have a plain plan. -/
theorem plain_expr (e : Expr) (scope : Scope) :
  (plan setting (expr e scope)).Plain
  := by
  cases e
  case name | func => exact fun _ => trivial
  case num | str | bool | null => trivial
  case cond no =>
    refine ⟨rfl, fun v => ?_⟩
    dsimp only
    split
    · exact ⟨rfl, fun _ => trivial⟩
    · cases no
      · trivial
      · exact ⟨rfl, fun _ => trivial⟩
  case call => exact ⟨rfl, fun _ => ⟨rfl, fun _ => ⟨rfl, fun _ => trivial⟩⟩⟩
  case array | hash => exact ⟨rfl, fun _ _ => trivial⟩
  case index => exact ⟨rfl, fun _ => ⟨rfl, fun _ _ => trivial⟩⟩
  case assign =>
    refine ⟨rfl, fun v found => ?_⟩
    cases found
    all_goals trivial
  all_goals exact ⟨rfl, fun _ => trivial⟩

/-- Unary operators have a plain plan. -/
theorem plain_unary (pos : Position) (op : UnaryOp) (operand : Expr) (scope : Scope) :
  (plan setting (unary pos op operand scope)).Plain
  := by
  cases op
  case delete =>
    cases operand
    case name => exact fun _ => trivial
    all_goals trivial
  case negate | throw => exact ⟨rfl, fun _ _ => trivial⟩
  case not | typeOf => exact ⟨rfl, fun _ => trivial⟩

/-- Binary operators have a plain plan. -/
theorem plain_binary (pos : Position) (op : BinaryOp) (left right : Expr) (scope : Scope) :
  (plan setting (binary pos op left right scope)).Plain
  := by
  refine ⟨rfl, fun a => ?_⟩
  dsimp only
  split
  · trivial
  · split
    · trivial
    · refine ⟨rfl, fun b => ?_⟩
      dsimp only
      split
      · trivial
      · exact fun _ => trivial

/-- Declarations behind decorators have a plain plan. -/
theorem plain_declared (declaration : Stmt) (name : String) (scope : Scope) :
  (plan setting (declared declaration name scope)).Plain
  := by
  cases declaration
  case define => exact ⟨rfl, fun _ _ => trivial⟩
  case expr => exact ⟨rfl, fun _ => trivial⟩
  all_goals trivial

/-- Calls of functions have a plain plan. -/
theorem plain_closure (id : Nat) (args : List Value) (pos : Position) :
  (plan setting (closure id args pos)).Plain
  := by
  intro f
  dsimp only
  split
  · trivial
  · exact ⟨⟨pos, fun _ => rfl⟩, fun _ => ⟨trivial, rfl, fun _ => trivial⟩⟩

/-- The plan of a plain task is plain. -/
theorem plain_plan {y : Yield} {t : Task y} (ht : t.Plain) :
  (t.plan setting).Plain
  := by
  cases t with
  | statements ss scope =>
      rcases ss with _ | ⟨s, _ | ⟨s', rest⟩⟩
      · trivial
      · exact ⟨rfl, fun _ => trivial⟩
      · exact ⟨rfl, fun _ => ⟨rfl, fun _ => trivial⟩⟩
  | statement s scope => exact plain_statement ht
  | block body scope => exact fun _ => ⟨rfl, fun _ => trivial⟩
  | expr e scope => exact plain_expr e scope
  | unary pos op operand scope => exact plain_unary pos op operand scope
  | binary pos op left right scope => exact plain_binary pos op left right scope
  | loop pos test body last scope =>
      refine ⟨rfl, fun v => ?_⟩
      dsimp only
      split
      · exact ⟨trivial, rfl, fun _ => ⟨rfl, fun _ => trivial⟩⟩
      · trivial
  | all es scope =>
      cases es
      · trivial
      · exact ⟨rfl, fun _ => ⟨rfl, fun _ => trivial⟩⟩
  | entries es pairs scope =>
      cases es
      · trivial
      · exact ⟨rfl, fun _ => ⟨rfl, fun _ _ => ⟨rfl, fun _ => trivial⟩⟩⟩
  | decorated decorator declaration scope =>
      refine ⟨rfl, fun f => ?_⟩
      dsimp only
      cases declaration.declaredName?
      · trivial
      · exact ⟨rfl, fun _ => ⟨rfl, fun _ _ => trivial⟩⟩
  | declared declaration name scope => exact plain_declared declaration name scope
  | apply callee args scope pos =>
      cases callee
      case native => exact ht.elim
      case func => exact ⟨rfl, fun _ => trivial⟩
      all_goals trivial
  | closure id args pos => exact plain_closure id args pos
  | native | overElements | forEach | call | text | unit | program => cases ht

end Task

end Scriptlet
