import Scriptlet.Proofs.Balance
import Scriptlet.Proofs.Running.Sound

/-!
# Honest plans

A plan is honest if it hands only clean values and known positions on, as long as the tasks it
starts make clean values, and if it reports faults at positions in the file that is being run.  The
plans of all tasks are honest (`Task.honest`), so every run from a sound machine keeps it sound,
makes no error but one that says where it belongs, and is stopped by no other (`soundness_kept`).
-/

namespace Scriptlet

variable {σ : Type}

/-! ### What is run -/

/-- Whether a text can be run under a name: by `eval`, or as the unit of that name. -/
def Setting.Provides (setting : Setting σ) (file code : String) : Prop :=
  file = "<eval>" ∨ ∃ key, setting.unit? file = some (key, code)

/-- Whether a program is `root` or what a text that can be run under the name of its file reads
as. -/
def Program.ComesFrom (setting : Setting σ) (p root : Program) : Prop :=
  p = root ∨ ∃ code, setting.Provides p.file code ∧ Program.parse code p.file = (p, [])

/-- Whether what a task makes is clean, except that it may be an error with a fault that
fulfils `P`. -/
def Yield.Clean (P : Fault → Prop) : (y : Yield) → y.Of → Prop
  | .value, v => v.IfError P
  | .values, vs => ∀ v ∈ vs, v.Clean
  | .pairs, found => Pairs.Clean found

namespace Task

variable (o : Origins) (setting : Setting σ) (c : Control)

/-- Whether a task, started where a run stands at `c`, is given clean values, and whether its nodes
and its site are known in the file that is being run. -/
def Fit {y : Yield} : Task y → Prop
  | statements ss _ | block ss _ => ∀ pos ∈ Stmt.positionsAll ss, o.Node c.file pos
  | statement s _ | declared s _ _ => ∀ pos ∈ s.positions, o.Node c.file pos
  | expr e _ => ∀ pos ∈ e.positions, o.Node c.file pos
  | unary pos _ operand _ => ∀ q ∈ pos :: operand.positions, o.Node c.file q
  | binary pos _ left right _ =>
    ∀ q ∈ pos :: (left.positions ++ right.positions), o.Node c.file q
  | loop pos test body last _ =>
    (∀ q ∈ pos :: (test.positions ++ Stmt.positionsAll body), o.Node c.file q) ∧ last.Clean
  | all es _ => ∀ pos ∈ Expr.positionsAll es, o.Node c.file pos
  | entries es pairs _ => (∀ pos ∈ Expr.positionsEntries es, o.Node c.file pos) ∧ pairs.Clean
  | decorated decorator declaration _ =>
    ∀ pos ∈ decorator.positions ++ declaration.positions, o.Node c.file pos
  | apply _ args _ pos | closure _ args pos => (∀ v ∈ args, v.Clean) ∧ o.Node c.file pos
  | native _ args _ | overElements args _ | call _ args _ =>
    (∀ v ∈ args, v.Clean) ∧ o.Node c.file c.site
  | forEach _ _ array es _ _ => (∀ v ∈ array :: es, v.Clean) ∧ o.Node c.file c.site
  | text code file _ => setting.Provides file code
  | unit .. => True
  | program p _ => p.ComesFrom setting o.root

/-- Whether a task may make an error of a fault. -/
def Tells (f : Fault) {y : Yield} : Task y → Prop
  | native .. | overElements .. | forEach .. | call .. => f.Bare ∨ f.Placed o c.file
  | text .. => f.Filed o ∨ f.Bare ∧ setting.options.maxDepth ≤ c.depth
  | unit name _ =>
    f.Filed o
    ∨ f.Bare ∧ ∀ key code, setting.unit? name = some (key, code) →
      key ∈ c.imports ∨ setting.options.maxDepth ≤ c.depth
  | program .. => f.Filed o
  | _ => False

/-- Whether the nodes of a program that is run, or the first syntax error of a text that is not,
are among the origins of faults. -/
def Known {y : Yield} : Task y → Prop
  | program p _ => ∀ pos ∈ p.positions, o.Node p.file pos
  | text code file _ => ∀ e, (Program.parse code file).2.head? = some e → o.Flaw file e
  | _ => True

end Task

namespace Bracket

/-- The arguments that are recorded in a frame. -/
def args : Bracket → List Value
  | body _ args => args
  | _ => []

/-- Whether a bracket that is entered at `c` may make an error of a fault. -/
def Tells (o : Origins) (c : Control) (f : Fault) : Bracket → Prop
  | settled => f.Placed o c.file
  | program file => f.Placed o file
  | _ => False

end Bracket

/-- Whether a plan that is run at `c` hands on only what is clean and known, and makes something
that fulfils `Q`. -/
def Plan.Honest (o : Origins) (setting : Setting σ) (c : Control) {α : Type} (Q : α → Prop) :
    Plan α → Prop
  | ret a => Q a
  | leave v => v.Clean
  | stop f => f.Placed o c.file
  | act a next => a.Fit o c ∧ ∀ v, a.Yields o c v → (next v).Honest o setting c Q
  | tick pos next => o.Node c.file pos ∧ next.Honest o setting c Q
  | room full next =>
    (setting.options.maxDepth ≤ c.depth →
      (full setting.options.maxDepth).Honest o setting c Q)
    ∧ next.Honest o setting c Q
  | call (y := y) t next =>
    t.Fit o setting c
    ∧ ∀ v, y.Clean (fun f => t.Tells o setting c f) v → (next v).Honest o setting c Q
  | within b t next =>
    (∀ v ∈ b.args, v.Clean)
    ∧ t.Fit o setting (b.enter c)
    ∧ ∀ v : Value, v.IfError (fun f => t.Tells o setting (b.enter c) f ∨ b.Tells o c f) →
      (next v).Honest o setting c Q

/-! ### The plans of tasks -/

namespace Task

open Plan

variable {o : Origins} {setting : Setting σ} {c : Control}

/-- Statements hand on nodes of their own, and make what the last of them does. -/
theorem honest_statements {ss : List Stmt} {scope : Scope}
    (hfit : (statements ss scope).Fit o setting c) :
  (plan setting (statements ss scope)).Honest o setting c Value.Clean
  := by
  rcases ss with _ | ⟨s, _ | ⟨s', rest⟩⟩
  · trivial
  · exact ⟨(List.forall_mem_append.mp hfit).1, fun _ hv => hv⟩
  · obtain ⟨hs, hrest⟩ := List.forall_mem_append.mp hfit
    exact ⟨hs, fun _ _ => ⟨hrest, fun _ hv => hv⟩⟩

/-- A statement hands on its own nodes. -/
theorem honest_statement {s : Stmt} {scope : Scope} (hfit : (statement s scope).Fit o setting c) :
  (plan setting (statement s scope)).Honest o setting c Value.Clean
  := by
  rcases s with ⟨pos, x, value⟩ | ⟨pos, _ | value⟩ | ⟨pos, value⟩ | ⟨pos, body⟩ | ⟨pos, name⟩
  all_goals obtain ⟨hpos, hrest⟩ := List.forall_mem_cons.mp hfit
  case define => exact ⟨hrest, fun _ hv => ⟨hv, fun _ _ => trivial⟩⟩
  case ret.none => trivial
  case ret.some | expr | block => exact ⟨hrest, fun _ hv => hv⟩
  case use =>
    refine ⟨trivial, fun v hv => ?_⟩
    cases v
    case error f =>
      rcases hv with hf | ⟨hf, -⟩
      · exact (Fault.Placed.filed hf).located pos
      · exact hf.located hpos
    all_goals trivial

/-- An expression hands on its own nodes, and its faults are at one of them. -/
theorem honest_expr {e : Expr} {scope : Scope} (hfit : (expr e scope).Fit o setting c) :
  (plan setting (expr e scope)).Honest o setting c Value.Clean
  := by
  cases e
  case name => exact ⟨hfit _ List.mem_cons_self, fun _ hv => hv⟩
  case num | str | bool | null => trivial
  case unary | binary => exact ⟨hfit, fun _ hv => hv⟩
  case loop => exact ⟨⟨hfit, trivial⟩, fun _ hv => hv⟩
  case cond pos test yes no =>
    cases no with
    | none =>
        obtain ⟨htest, hyes⟩ := List.forall_mem_append.mp (List.forall_mem_cons.mp hfit).2
        refine ⟨htest, fun v _ => ?_⟩
        dsimp only
        split
        · exact ⟨hyes, fun _ hv => hv⟩
        · trivial
    | some no =>
        obtain ⟨hleft, hno⟩ := List.forall_mem_append.mp (List.forall_mem_cons.mp hfit).2
        obtain ⟨htest, hyes⟩ := List.forall_mem_append.mp hleft
        refine ⟨htest, fun v _ => ?_⟩
        dsimp only
        split
        · exact ⟨hyes, fun _ hv => hv⟩
        · exact ⟨hno, fun _ hv => hv⟩
  case func => exact ⟨(List.forall_mem_cons.mp hfit).2, fun _ hv => hv⟩
  case call pos callee args =>
    obtain ⟨hpos, hrest⟩ := List.forall_mem_cons.mp hfit
    obtain ⟨hcallee, hargs⟩ := List.forall_mem_append.mp hrest
    exact ⟨hcallee, fun _ _ => ⟨hargs, fun _ hvs => ⟨⟨hvs, hpos⟩, fun _ hv => hv⟩⟩⟩
  case array =>
    exact ⟨(List.forall_mem_cons.mp hfit).2, fun vs hvs =>
      ⟨fun v hv => hvs v (List.mem_toArray.mp hv), fun _ hv => hv⟩⟩
  case hash =>
    exact ⟨⟨(List.forall_mem_cons.mp hfit).2, Array.forall_mem_empty _⟩, fun _ hpairs =>
      ⟨hpairs, fun _ hv => hv⟩⟩
  case index pos collection i =>
    obtain ⟨hpos, hrest⟩ := List.forall_mem_cons.mp hfit
    obtain ⟨hcollection, hi⟩ := List.forall_mem_append.mp hrest
    exact ⟨hcollection, fun _ _ => ⟨hi, fun _ _ => ⟨hpos, fun _ hv => hv⟩⟩⟩
  case assign pos name value =>
    obtain ⟨hpos, hvalue⟩ := List.forall_mem_cons.mp hfit
    refine ⟨hvalue, fun v hv => ⟨hv, fun found _ => ?_⟩⟩
    cases found
    · exact .here _ hpos
    · exact hv
  case decorated => exact ⟨(List.forall_mem_cons.mp hfit).2, fun _ hv => hv⟩

/-- A unary operator reports its faults at its own position. -/
theorem honest_unary {pos : Position} {op : UnaryOp} {operand : Expr} {scope : Scope}
    (hfit : (unary pos op operand scope).Fit o setting c) :
  (plan setting (unary pos op operand scope)).Honest o setting c Value.Clean
  := by
  obtain ⟨hpos, hoperand⟩ := List.forall_mem_cons.mp hfit
  cases op
  case delete =>
    cases operand
    case name => exact ⟨trivial, fun _ _ => trivial⟩
    all_goals trivial
  case negate => exact ⟨hoperand, fun _ _ => ⟨hpos, fun _ hv => hv⟩⟩
  case not | typeOf => exact ⟨hoperand, fun _ _ => trivial⟩
  case throw => exact ⟨hoperand, fun _ hv => ⟨⟨hpos, hv⟩, fun _ hv => hv⟩⟩

/-- A binary operator reports its faults at its own position. -/
theorem honest_binary {pos : Position} {op : BinaryOp} {left right : Expr} {scope : Scope}
    (hfit : (binary pos op left right scope).Fit o setting c) :
  (plan setting (binary pos op left right scope)).Honest o setting c Value.Clean
  := by
  obtain ⟨hpos, hrest⟩ := List.forall_mem_cons.mp hfit
  obtain ⟨hleft, hright⟩ := List.forall_mem_append.mp hrest
  refine ⟨hleft, fun a _ => ?_⟩
  dsimp only
  split
  · trivial
  · split
    · trivial
    · refine ⟨hright, fun b _ => ?_⟩
      dsimp only
      split
      · trivial
      · exact ⟨hpos, fun _ hv => hv⟩

/-- A loop hands on its test and its body, and counts its steps at its own position. -/
theorem honest_loop {pos : Position} {test : Expr} {body : List Stmt} {last : Value}
    {scope : Scope} (hfit : (loop pos test body last scope).Fit o setting c) :
  (plan setting (loop pos test body last scope)).Honest o setting c Value.Clean
  := by
  obtain ⟨hnodes, hlast⟩ := hfit
  obtain ⟨hpos, hrest⟩ := List.forall_mem_cons.mp hnodes
  obtain ⟨htest, hbody⟩ := List.forall_mem_append.mp hrest
  refine ⟨htest, fun v _ => ?_⟩
  dsimp only
  split
  · refine ⟨hpos, List.forall_mem_nil _, hbody, fun v hv => ⟨⟨hnodes, ?_⟩, fun _ hv => hv⟩⟩
    exact hv.mono fun _ hf => hf.elim id id
  · exact hlast

/-- A decorated declaration hands on the decorator and the declaration. -/
theorem honest_decorated {decorator : Expr} {declaration : Stmt} {scope : Scope}
    (hfit : (decorated decorator declaration scope).Fit o setting c) :
  (plan setting (decorated decorator declaration scope)).Honest o setting c Value.Clean
  := by
  obtain ⟨hdecorator, hdeclaration⟩ := List.forall_mem_append.mp hfit
  refine ⟨hdecorator, fun f _ => ?_⟩
  dsimp only
  cases declaration.declaredName? with
  | none => exact .here _ (hdeclaration _ declaration.pos_mem_positions)
  | some name =>
      exact ⟨hdeclaration, fun v hv =>
        ⟨⟨List.forall_mem_singleton.mpr hv, hdecorator _ decorator.pos_mem_positions⟩,
          fun _ hv => ⟨hv, fun _ _ => hv⟩⟩⟩

/-- A declaration behind a decorator hands on its own nodes, and its fault is at one of them. -/
theorem honest_declared {declaration : Stmt} {name : String} {scope : Scope}
    (hfit : (declared declaration name scope).Fit o setting c) :
  (plan setting (declared declaration name scope)).Honest o setting c Value.Clean
  := by
  have hpos := hfit _ declaration.pos_mem_positions
  cases declaration
  case define => exact ⟨hfit, fun _ _ => ⟨trivial, fun _ hv => hv⟩⟩
  case expr => exact ⟨(List.forall_mem_cons.mp hfit).2, fun _ hv => hv⟩
  all_goals exact .here _ hpos

/-- A call hands on its position, which an error of a native function is given. -/
theorem honest_apply {callee : Value} {args : List Value} {scope : Scope} {pos : Position}
    (hfit : (apply callee args scope pos).Fit o setting c) :
  (plan setting (apply callee args scope pos)).Honest o setting c Value.Clean
  := by
  obtain ⟨hargs, hpos⟩ := hfit
  cases callee
  case native f =>
    refine ⟨List.forall_mem_nil _, ⟨hargs, hpos⟩, fun v hv => ?_⟩
    cases v
    case error f =>
      rcases hv with (hf | hf) | hf
      · exact hf.located hpos
      · exact hf.located pos
      · exact hf.elim
    all_goals trivial
  case func id => exact ⟨⟨hargs, hpos⟩, fun _ hv => hv⟩
  all_goals exact .here _ hpos

/-- The body of a function is made of nodes of the file that it is run in. -/
theorem honest_closure {i : Nat} {args : List Value} {pos : Position}
    (hfit : (closure i args pos).Fit o setting c) :
  (plan setting (closure i args pos)).Honest o setting c Value.Clean
  := by
  obtain ⟨hargs, hpos⟩ := hfit
  refine ⟨trivial, fun f hf => ?_⟩
  dsimp only
  split
  · exact .here _ hpos
  · refine ⟨fun _ => .here _ hpos, hpos, Bindings.forall_ofList_zip f.params hargs, ?_⟩
    refine fun scope _ => ⟨hargs, hf, fun v hv => ?_⟩
    exact hv.mono fun _ hf => hf.elim id id

/-- A native function makes errors without a position, or with that of a callback. -/
theorem honest_native {f : Native} {args : List Value} {scope : Scope}
    (hfit : (native f args scope).Fit o setting c) :
  (plan setting (native f args scope)).Honest o setting c
    (Value.IfError fun e => e.Bare ∨ e.Placed o c.file)
  := by
  obtain ⟨hargs, hsite⟩ := hfit
  rcases nativePlan_cases setting f args scope with ⟨name, rest, rfl, rfl, hplan⟩
    | ⟨code, rest, rfl, rfl, -, hplan⟩ | ⟨rfl, hplan⟩ | hplan | ⟨v, rfl | rfl, hplan⟩
  all_goals simp only [plan, hplan]
  · refine ⟨trivial, fun v hv => ?_⟩
    exact Value.IfError.mono (fun e he => he.elim (fun he => .inr (.filed he))
      fun he => .inl he.1) hv
  · refine ⟨.inl rfl, fun v hv => ?_⟩
    exact Value.IfError.mono (fun e he => he.elim (fun he => .inr (.filed he))
      fun he => .inl he.1) hv
  · exact ⟨⟨hargs, hsite⟩, fun _ hv => hv⟩
  · exact ⟨hargs, fun _ hv => Value.IfError.mono (fun _ => .inl) hv⟩
  · exact .inl (.bare _)
  · exact .inl (.bare _)

/-- What goes through an array makes errors without a position, or with that of a callback. -/
theorem honest_overElements {args : List Value} {scope : Scope}
    (hfit : (overElements args scope).Fit o setting c) :
  (plan setting (overElements args scope)).Honest o setting c
    (Value.IfError fun e => e.Bare ∨ e.Placed o c.file)
  := by
  obtain ⟨hargs, hsite⟩ := hfit
  rcases args with _ | ⟨_ | _ | _ | _ | id | _ | _ | _ | _, _ | ⟨callback, args⟩⟩
  case cons.array.cons =>
    refine ⟨trivial, fun es hes => ?_⟩
    have hall : ∀ v ∈ Value.array id :: es, v.Clean := List.forall_mem_cons.mpr ⟨trivial, hes⟩
    cases callback
    case func => exact ⟨trivial, fun _ _ => ⟨⟨hall, hsite⟩, fun _ hv => hv⟩⟩
    case native => exact ⟨⟨hall, hsite⟩, fun _ hv => hv⟩
    all_goals exact .inl (.bare _)
  all_goals exact .inl (.bare _)

/-- Each round over an array hands its elements on to the callback. -/
theorem honest_forEach {callback : Value} {arity : Nat} {array : Value} {es : List Value} {i : Nat}
    {scope : Scope} (hfit : (forEach callback arity array es i scope).Fit o setting c) :
  (plan setting (forEach callback arity array es i scope)).Honest o setting c
    (Value.IfError fun e => e.Bare ∨ e.Placed o c.file)
  := by
  obtain ⟨hall, hsite⟩ := hfit
  cases es with
  | nil => trivial
  | cons element rest =>
      obtain ⟨harray, hes⟩ := List.forall_mem_cons.mp hall
      obtain ⟨helement, hrest⟩ := List.forall_mem_cons.mp hes
      have hargs : ∀ v ∈ [element, Value.num (Float.ofNat i), array].take arity, v.Clean := by
        intro v hv
        have hmem := List.mem_of_mem_take hv
        simp only [List.mem_cons, List.not_mem_nil, or_false] at hmem
        rcases hmem with rfl | rfl | rfl
        · exact helement
        · trivial
        · exact harray
      refine ⟨⟨hargs, hsite⟩, fun v hv => ?_⟩
      cases v
      case error => exact hv
      all_goals
        exact ⟨⟨List.forall_mem_cons.mpr ⟨harray, hrest⟩, hsite⟩, fun _ hv => hv⟩

/-- A call of a callback hands on the site of the native function that calls it. -/
theorem honest_call {callee : Value} {args : List Value} {scope : Scope}
    (hfit : (call callee args scope).Fit o setting c) :
  (plan setting (call callee args scope)).Honest o setting c
    (Value.IfError fun e => e.Bare ∨ e.Placed o c.file)
  := by
  obtain ⟨hargs, hsite⟩ := hfit
  refine ⟨trivial, fun site heq => ⟨List.forall_mem_nil _, ⟨hargs, ?_⟩, fun v hv => ?_⟩⟩
  · obtain rfl : site = c.site := heq
    exact hsite
  · exact Value.IfError.mono (fun e he => .inr (he.resolve_left id)) hv

/-- A text is run as a program under its name, or makes an error with its first syntax error. -/
theorem honest_text {code file : String} {scope : Scope}
    (hknown : (text code file scope).Known o) (hfit : (text code file scope).Fit o setting c) :
  (plan setting (text code file scope)).Honest o setting c
    (Value.IfError fun e => e.Filed o ∨ e.Bare ∧ setting.options.maxDepth ≤ c.depth)
  := by
  refine ⟨fun hfull => .inr ⟨.bare _, hfull⟩, ?_⟩
  rcases hparse : Program.parse code file with ⟨p, _ | ⟨e, rest⟩⟩
  · obtain rfl : p.file = file := (congrArg (fun r => r.1.file) hparse).symm
    refine ⟨List.forall_mem_nil _, .inr ⟨code, hfit, hparse⟩, fun v hv => ?_⟩
    exact Value.IfError.mono (fun e he => .inl (he.resolve_right id)) hv
  · exact .inl (.flaw (hknown e (congrArg (fun r => r.2.head?) hparse)))

/-- A unit is run as a program under its name, unless it is being imported or there is no room. -/
theorem honest_unit {name : String} {scope : Scope} :
  (plan setting (unit name scope)).Honest o setting c
    (Value.IfError fun e => e.Filed o
      ∨ e.Bare ∧ ∀ key code, setting.unit? name = some (key, code) →
        key ∈ c.imports ∨ setting.options.maxDepth ≤ c.depth)
  := by
  simp only [plan]
  rcases hunit : setting.unit? name with _ | ⟨key, code⟩
  · exact .inr ⟨.bare _, by rintro _ _ ⟨⟩⟩
  · refine ⟨trivial, fun imported himported => ?_⟩
    dsimp only
    split
    · refine .inr ⟨.bare _, ?_⟩
      rintro _ _ ⟨⟩
      exact .inl (of_decide_eq_true (himported.symm.trans ‹_›))
    · refine ⟨List.forall_mem_nil _, .inr ⟨key, hunit⟩, fun v hv => ?_⟩
      apply Value.IfError.mono _ hv
      rintro e ((he | ⟨he, hdepth⟩) | he)
      · exact .inl he
      · exact .inr ⟨he, fun _ _ _ => .inr hdepth⟩
      · exact he.elim

/-- A program makes only errors that are reported in a file: in its own, unless they have one. -/
theorem honest_program {p : Program} {scope : Scope} (hknown : (program p scope).Known o) :
  (plan setting (program p scope)).Honest o setting c (Value.IfError fun e => e.Filed o)
  := by
  refine ⟨List.forall_mem_nil _, hknown, fun v hv => ?_⟩
  cases v
  case error f => exact (hv.resolve_left id).filed_inFile
  all_goals trivial

/-- The plans of all tasks are honest. -/
theorem honest {y : Yield} {t : Task y} (hknown : t.Known o) (hfit : t.Fit o setting c) :
  (t.plan setting).Honest o setting c (y.Clean fun f => t.Tells o setting c f)
  := by
  cases t with
  | statements ss scope => exact honest_statements hfit
  | statement s scope => exact honest_statement hfit
  | block body scope =>
      exact ⟨List.forall_mem_nil _, fun _ _ => ⟨hfit, fun _ hv => hv⟩⟩
  | expr e scope => exact honest_expr hfit
  | unary pos op operand scope => exact honest_unary hfit
  | binary pos op left right scope => exact honest_binary hfit
  | loop pos test body last scope => exact honest_loop hfit
  | all es scope =>
      cases es with
      | nil => exact List.forall_mem_nil _
      | cons e rest =>
          obtain ⟨he, hrest⟩ := List.forall_mem_append.mp hfit
          exact ⟨he, fun _ hv => ⟨hrest, fun _ hvs => List.forall_mem_cons.mpr ⟨hv, hvs⟩⟩⟩
  | entries es pairs scope =>
      obtain ⟨hes, hpairs⟩ := hfit
      rcases es with _ | ⟨⟨key, value⟩, rest⟩
      · exact hpairs
      · obtain ⟨hleft, hrest⟩ := List.forall_mem_append.mp hes
        obtain ⟨hkey, hvalue⟩ := List.forall_mem_append.mp hleft
        exact ⟨hkey, fun _ hk => ⟨hvalue, fun _ hv => ⟨⟨hpairs, hk, hv⟩, fun _ hfound =>
          ⟨⟨hrest, hfound⟩, fun _ h => h⟩⟩⟩⟩
  | decorated decorator declaration scope => exact honest_decorated hfit
  | declared declaration name scope => exact honest_declared hfit
  | apply callee args scope pos => exact honest_apply hfit
  | closure id args pos => exact honest_closure hfit
  | native f args scope => exact honest_native hfit
  | overElements args scope => exact honest_overElements hfit
  | forEach callback arity array es i scope => exact honest_forEach hfit
  | call callee args scope => exact honest_call hfit
  | text code file scope => exact honest_text hknown hfit
  | unit name scope => exact honest_unit
  | program p scope => exact honest_program hknown

end Task

/-! ### Runs of honest plans -/

section Steps

-- Nothing of this depends on how many steps have been counted.
variable (o : Origins) (setting : Setting σ) (c : Control) (k : Nat)

/-- What an action may be given does not depend on the steps that have been counted. -/
theorem Action.fit_steps (a : Action) :
  a.Fit o { c with steps := k } = a.Fit o c
  := by
  cases a
  all_goals rfl

/-- What an action may lead to does not depend on the steps that have been counted. -/
theorem Action.yields_steps (a : Action) :
  a.Yields o { c with steps := k } = a.Yields o c
  := by
  cases a
  all_goals rfl

/-- What a task may be given does not depend on the steps that have been counted. -/
theorem Task.fit_steps {y : Yield} (t : Task y) :
  t.Fit o setting { c with steps := k } = t.Fit o setting c
  := by
  cases t
  all_goals rfl

/-- What a task may make an error of does not depend on the steps that have been counted. -/
theorem Task.tells_steps {y : Yield} (t : Task y) (f : Fault) :
  t.Tells o setting { c with steps := k } f = t.Tells o setting c f
  := by
  cases t
  all_goals rfl

/-- What a bracket may make an error of does not depend on the steps that have been counted. -/
theorem Bracket.tells_steps (b : Bracket) (f : Fault) :
  b.Tells o { c with steps := k } f = b.Tells o c f
  := by
  cases b
  all_goals rfl

/-- Entering a bracket keeps the count of steps. -/
theorem Bracket.enter_steps (b : Bracket) :
  b.enter { c with steps := k } = { b.enter c with steps := k }
  := by
  cases b
  all_goals rfl

end Steps

variable {o : Origins} {setting : Setting σ}

/-- What the run of a task from a sound machine comes to: a sound machine that stands where it stood
before, and nothing but what the task may tell. -/
structure Outcome.Sound (o : Origins) {α : Type} (m : Machine σ) (Q : α → Prop) (r : Outcome σ α) :
    Prop where
  level : m.Level r.machine
  sound : r.machine.Sound o
  result : r.Follows (fun a _ => Q a) fun u _ => u.Placed o m.control.file

/-- Runs from sound machines come to sound machines. -/
def soundness (o : Origins) (setting : Setting σ) : Contract σ where
  Given t := t.Known o
  Pre t m := m.Sound o ∧ t.Fit o setting m.control
  Post {y} t m r := r.Sound o m (y.Clean fun f => t.Tells o setting m.control f)
  Good x :=
    x.machine.Sound o
    ∧ match x with
      | .start t m => t.Fit o setting m.control
      | _ => True

/-- Machines at the same point differ in the count of steps at most. -/
theorem Machine.Level.exists_steps {m m' : Machine σ} (h : m.Level m') :
  ∃ k, m'.control = { m.control with steps := k }
  := ⟨_, h.control⟩

/-- A sound machine stays sound when a bracket with clean arguments is entered. -/
theorem Machine.Sound.opened {m : Machine σ} (hm : m.Sound o) {b : Bracket}
    (hargs : ∀ v ∈ b.args, v.Clean) :
  (b.opened m).Sound o
  := by
  refine ⟨hm.heap, hm.scopes, ?_⟩
  cases b
  case body f args => exact List.forall_mem_cons.mpr ⟨hargs, hm.frames⟩
  all_goals exact hm.frames

/-- A machine at the same point as a sound one is sound if its heap and its scopes are. -/
theorem Machine.Sound.of_level {m m' : Machine σ} (hm : m.Sound o) (hlevel : m.Level m')
    (hheap : m'.heap.Sound o) (hscopes : m'.scopes.Clean) :
  m'.Sound o
  := by
  refine ⟨hheap, hscopes, ?_⟩
  rw [hlevel.control]
  exact hm.frames

/-- A bracket makes an outcome that is sound for the machine inside one for the machine outside. -/
theorem Bracket.sound_outcome {b : Bracket} {m : Machine σ} (hm : m.Sound o) {P : Fault → Prop}
    {r : Outcome σ Value} (hr : r.Sound o (b.opened m) (Value.IfError P)) :
  (b.outcome m r).Sound o m (Value.IfError fun f => P f ∨ b.Tells o m.control f)
  := by
  obtain ⟨hlevel, hsound, hresult⟩ := hr
  have hclosed := b.level_closed hlevel
  rw [← b.machine_outcome] at hclosed
  refine ⟨hclosed, hm.of_level hclosed ?_ ?_, ?_⟩
  · rw [b.machine_outcome]
    exact hsound.heap
  · rw [b.machine_outcome]
    exact hsound.scopes
  · rcases r with ⟨v, m'⟩ | ⟨u, m'⟩
    · exact Value.IfError.mono (fun _ => .inl) hresult
    · cases u
      case fault f =>
        cases b
        case body => exact .filed hresult.filed_inFile
        case settled | program => exact .inr hresult
        all_goals exact hresult
      case ret v =>
        cases b
        case body | settled | program => exact hresult.ifError
        all_goals exact hresult
      all_goals
        cases b
        all_goals trivial

/-- A run that keeps machines sound comes to a sound outcome. -/
theorem Upholds.outcome {α : Type} {P : α → Prop} {r : RunOn σ α} {m : Machine σ}
    (hr : Upholds o m.control P r) (hm : m.Sound o) :
  Outcome.Sound o m P (r m)
  := by
  have hrun := hr m hm rfl
  rcases hr : r m with ⟨a, m'⟩ | ⟨u, m'⟩
  all_goals
    rw [hr] at hrun
    obtain ⟨hm', hcontrol, hresult⟩ := hrun
    exact ⟨.of_eq hcontrol, hm', hresult⟩

/-- Counting a step keeps machines sound, and fails at a known position. -/
theorem Run.sound_tick {m : Machine σ} (hm : m.Sound o) {pos : Position}
    (hpos : o.Node m.control.file pos) :
  Outcome.Sound o m (fun _ => True) (Run.tick setting pos m)
  := by
  have hlevel := Run.level_tick setting pos m
  rw [Run.tick_apply] at hlevel ⊢
  split
  · exact ⟨.refl m, hm, trivial⟩
  · dsimp only at hlevel ⊢
    split
    · exact ⟨⟨rfl, Nat.le_succ _⟩, ⟨hm.heap, hm.scopes, hm.frames⟩, .here _ hpos⟩
    · exact ⟨⟨rfl, Nat.le_succ _⟩, ⟨hm.heap, hm.scopes, hm.frames⟩, trivial⟩

/-- What follows an outcome that is sound for a machine on the way. -/
theorem follows_sound {α β : Type} {m₀ m : Machine σ} {Q : α → Prop} {R : β → Prop}
    {r : Outcome σ α} {P : α → Machine σ → Prop} (hm : m₀.Level m) (hr : r.Sound o m Q)
    (hP : ∀ a m', Q a → m'.Sound o → m₀.Level m' → P a m') :
  r.Follows P fun u m' => Outcome.Sound o m₀ R (.error u m')
  := by
  obtain ⟨hlevel, hsound, hresult⟩ := hr
  cases r with
  | ok a m' => exact hP a m' hresult hsound (hm.trans hlevel)
  | error u m' =>
      refine ⟨hm.trans hlevel, hsound, ?_⟩
      rw [hm.control] at hresult
      exact hresult

/-- The run of an honest plan is sound if those of its tasks are: by induction on the plan, along
which the run stands where it stood at the start. -/
theorem Plan.Honest.obeys_soundness {α : Type} {Q : α → Prop} {p : Plan α} {m₀ m : Machine σ}
    (hp : p.Honest o setting m₀.control Q) (hm : m.Sound o) (hlevel : m₀.Level m) :
  p.Obeys (soundness o setting) setting (Outcome.Sound o m₀ Q) m
  := by
  induction p generalizing m with
  | ret a => exact ⟨hlevel, hm, hp⟩
  | leave v => exact ⟨hlevel, hm, hp⟩
  | stop f => exact ⟨hlevel, hm, hp⟩
  | act a next ih =>
      obtain ⟨hfit, hnext⟩ := hp
      obtain ⟨k, hcontrol⟩ := hlevel.exists_steps
      -- The plan was made for the control at the start, from which this one differs in its steps.
      rw [← a.fit_steps o _ k, ← hcontrol] at hfit
      have hrun := (a.upholds_run setting hfit).outcome hm
      refine ⟨⟨hrun.sound, trivial⟩, follows_sound hlevel hrun ?_⟩
      intro v m' hv hm' hlevel'
      rw [hcontrol, a.yields_steps] at hv
      exact ih v (hnext v hv) hm' hlevel'
  | tick pos next ih =>
      obtain ⟨hpos, hnext⟩ := hp
      obtain ⟨k, hcontrol⟩ := hlevel.exists_steps
      have hrun : Outcome.Sound o m (fun _ => True) (Run.tick setting pos m) := by
        apply Run.sound_tick hm
        rw [hcontrol]
        exact hpos
      refine ⟨⟨hm, trivial⟩, ⟨hrun.sound, trivial⟩, follows_sound hlevel hrun ?_⟩
      intro _ m' _ hm' hlevel'
      exact ih hnext hm' hlevel'
  | room full next ihfull ih =>
      refine ⟨⟨hm, trivial⟩, ?_⟩
      rw [hlevel.depth_eq]
      split
      · exact ihfull _ (hp.1 ‹_›) hm hlevel
      · exact ih hp.2 hm hlevel
  | call t next ih =>
      obtain ⟨hfit, hnext⟩ := hp
      obtain ⟨k, hcontrol⟩ := hlevel.exists_steps
      rw [← t.fit_steps o _ _ k, ← hcontrol] at hfit
      refine ⟨fun _ => ⟨hm, hfit⟩, fun r hr => ⟨⟨hr.sound, trivial⟩, follows_sound hlevel hr ?_⟩⟩
      intro v m' hv hm' hlevel'
      simp only [hcontrol, t.tells_steps] at hv
      exact ih v (hnext v hv) hm' hlevel'
  | within b t next ih =>
      obtain ⟨hargs, hfit, hnext⟩ := hp
      obtain ⟨k, hcontrol⟩ := hlevel.exists_steps
      have hinside : (b.opened m).control = { b.enter m₀.control with steps := k } := by
        rw [← b.enter_steps, ← hcontrol]
        rfl
      rw [← t.fit_steps o _ _ k, ← hinside] at hfit
      refine ⟨⟨hm.opened hargs, trivial⟩, fun _ => ⟨hm.opened hargs, hfit⟩, fun r hr => ?_⟩
      have hrun := b.sound_outcome hm hr
      refine ⟨⟨hrun.sound, trivial⟩, follows_sound hlevel hrun ?_⟩
      intro v m' hv hm' hlevel'
      simp only [hinside, hcontrol, t.tells_steps, b.tells_steps] at hv
      exact ih v (hnext v hv) hm' hlevel'

/-- All runs from sound machines are sound. -/
theorem soundness_kept (o : Origins) (setting : Setting σ) :
  (soundness o setting).Kept setting
  where
  exhausted _ m hpre := ⟨.refl m, hpre.1, trivial⟩
  start _ _ hpre := hpre
  plan _ m hknown hpre := (Task.honest hknown hpre.2).obeys_soundness hpre.1 (.refl m)

end Scriptlet
