import Scriptlet.Proofs.Parsing.Proper
import Scriptlet.Proofs.Running.Honest
import Scriptlet.Proofs.Running.Modest

/-!
# Proper runs

What is run is proper, for it has been parsed: the program, the texts that it has read and run on
the way, and the bodies of the functions that these make.  So the fallbacks of the evaluator for
trees that are not proper are never taken, and every fault of a run is ordinary.
-/

namespace Scriptlet

variable {σ : Type}

/-! ### Proper machines -/

/-- What is asked of the trees that are run, whatever their number literals are. -/
abbrev Law.runnable : Law :=
  .proper fun _ _ => True

/-- All statements that are kept of a source text can be run. -/
theorem Program.runnable_parse (text file : String) :
  Stmt.AllEverywhere .runnable (Program.parse text file).1.statements
  := everywhere_parse file fun _ _ _ => trivial

/-- Whether the parameters of a function differ and its body can be run. -/
structure Closure.Proper (c : Closure) : Prop where
  params : c.params.Nodup
  body : Stmt.AllEverywhere .runnable c.body

/-- Whether all functions of a machine are proper. -/
def Machine.Proper (m : Machine σ) : Prop :=
  ∀ c ∈ m.heap.closures, c.Proper

/-- Every function of a proper machine is proper, even one that is not there, which has no body. -/
theorem Machine.Proper.closure {m : Machine σ} (hm : m.Proper) (id : Nat) :
  (m.heap.closure id).Proper
  := by
  unfold Heap.closure
  rw [Array.getD_eq_getD_getElem?]
  cases hid : m.heap.closures[id]? with
  | none => exact ⟨List.nodup_nil, trivial⟩
  | some c => exact hm c (Array.mem_of_getElem? hid)

/-- Whether what a task makes is no error, or one with an ordinary fault. -/
def Yield.Ordinary : (y : Yield) → y.Of → Prop
  | .value, v => v.IfError Fault.Ordinary
  | _, _ => True

/-- Whether an outcome leaves a proper machine, and is something that fulfils `P` or no fault but an
ordinary one. -/
structure Outcome.Proper {α : Type} (P : α → Prop) (r : Outcome σ α) : Prop where
  machine : r.machine.Proper
  result : r.Follows (fun a _ => P a) fun u _ => u.Ordinary

/-- A modest outcome leaves a proper machine proper, as it has the same functions. -/
theorem Outcome.Modest.proper {m : Machine σ} {α : Type} {P : α → Prop} {r : Outcome σ α}
    (hr : r.Modest m P) (hm : m.Proper) :
  r.Proper P
  := by
  refine ⟨?_, hr.result⟩
  unfold Machine.Proper
  rw [hr.closures]
  exact hm

/-! ### Actions -/

namespace Action

/-- Whether an action is given what keeps machines proper. -/
def Proper : Action → Prop
  | newClosure _ params body _ => params.Nodup ∧ Stmt.AllEverywhere .runnable body
  | raise _ v => v.IfError Fault.Ordinary
  | native _ args _ => ∀ v ∈ args, v.Clean
  | _ => True

/-- Whether an action can lead to a result on a proper machine. -/
def Makes : (a : Action) → a.Result → Prop
  | closure _, f => f.Proper
  | native .., v => v.IfError Fault.Ordinary
  | _, _ => True

variable {o : Origins} {m : Machine σ} (setting : Setting σ)

/-- Every native function that starts no task keeps the functions and makes at most errors with
ordinary causes. -/
theorem modest_runNative (hm : m.Sound o) (f : Native) {args : List Value}
    (hargs : ∀ v ∈ args, v.Clean) (scope : Scope) :
  Outcome.Modest m (Value.IfError Fault.Ordinary) (runNative setting f args scope m)
  := by
  cases f
  case update => exact Run.modest_updateName hargs scope m
  case host => exact Run.modest_host args setting m
  case print => exact (Run.modest_joined args).bind (fun _ _ => Run.modest_writeOut _ _) m
  case printError => exact (Run.modest_joined args).bind (fun _ _ => Run.modest_writeErr _ _) m
  case readLine => exact Run.modest_promptLine _ args m
  case length => exact Run.modest_length args m
  case push => exact Run.modest_push args m
  case pop => exact Run.modest_pop args hm
  case shift => exact Run.modest_shift args hm
  case unshift => exact Run.modest_unshift args m
  case slice => exact Run.modest_slice args m
  case arguments => exact Run.modest_arguments args m
  case keys => exact Run.modest_keys args m
  case str => exact Run.modest_str args m
  case newLine => exact ⟨rfl, trivial⟩
  case importUnit | eval | forEach => exact ⟨rfl, Run.ordinary_invalid⟩

/-- Every action keeps machines proper and stops only with ordinary faults. -/
theorem proper_run (hm : m.Sound o) (hproper : m.Proper) {a : Action} (ha : a.Proper) :
  Outcome.Proper a.Makes (a.run setting m)
  := by
  cases a
  case lookUp name scope pos => exact (Run.modest_lookUp name scope m).proper hproper
  case assign name v scope => exact (Run.modest_assign name v scope m).proper hproper
  case newClosure => exact ⟨Array.forall_mem_push.mpr ⟨⟨ha.1, ha.2⟩, hproper⟩, trivial⟩
  case insert pairs key v => exact (Modest.answer _ m).proper hproper
  case index pos collection i => exact (Run.modest_index collection i m).proper hproper
  case negate pos v => exact (Run.modest_negate v m).proper hproper
  case operate pos op a b => exact (Run.modest_operate op a b m).proper hproper
  case raise pos v => exact (Run.modest_raise ha m).proper hproper
  case closure id => exact ⟨hproper, hproper.closure id⟩
  case native f args scope => exact (modest_runNative setting hm f ha scope).proper hproper
  all_goals exact ⟨hproper, trivial⟩

end Action

/-! ### Plans -/

/-- Whether what a task is given to run is proper. -/
def Task.Proper {y : Yield} : Task y → Prop
  | statements ss _ | block ss _ => Stmt.AllEverywhere .runnable ss
  | statement s _ => s.Everywhere .runnable
  | expr e _ => e.Everywhere .runnable
  | unary pos op operand _ => (Expr.unary pos op operand).Everywhere .runnable
  | binary pos op left right _ => (Expr.binary pos op left right).Everywhere .runnable
  | loop pos test body _ _ => (Expr.loop pos test body).Everywhere .runnable
  | all es _ => Expr.AllEverywhere .runnable es
  | entries es _ _ => Expr.EntriesEverywhere .runnable es
  | decorated decorator declaration _ =>
    decorator.Everywhere .runnable ∧ declaration.Declaring fun _ _ => True
  | declared declaration _ _ => declaration.Declaring fun _ _ => True
  | program p _ => Stmt.AllEverywhere .runnable p.statements
  | _ => True

/-- Whether what a task makes has been shown to be ordinary, if it may be an error. -/
def Task.Tame {y : Yield} (t : Task y) (v : y.Of) : Prop :=
  match t.settles with
  | true => y.Ordinary v
  | false => True

/-- Whether a plan goes through what is proper only, has no faults but ordinary ones, and makes
something that fulfils `R`. -/
def Plan.Proper {α : Type} (R : α → Prop) : Plan α → Prop
  | ret a => R a
  | leave _ => True
  | stop f => f.Ordinary
  | act a next => a.Proper ∧ ∀ v, a.Makes v → (next v).Proper R
  | tick _ next => next.Proper R
  | room full next => (∀ limit, (full limit).Proper R) ∧ next.Proper R
  | call (y := y) t next => t.Proper ∧ ∀ v, y.Ordinary v → (next v).Proper R
  | within _ t next =>
    t.Proper ∧ ∀ v : Value, v.IfError Fault.Ordinary → (next v).Proper R

namespace Task

open Plan

variable {setting : Setting σ} {scope : Scope}

/-- A proper statement starts its parts, which are proper. -/
theorem proper_statement {s : Stmt} (h : (statement s scope).Proper) :
  (plan setting (statement s scope)).Proper (statement s scope).Tame
  := by
  rcases s with ⟨pos, x, value⟩ | ⟨pos, _ | value⟩ | ⟨pos, value⟩ | ⟨pos, body⟩ | ⟨pos, name⟩
  case define => exact ⟨h.2, fun _ _ => ⟨trivial, fun _ _ => trivial⟩⟩
  case ret.none => trivial
  case ret.some | expr | block => exact ⟨h.2, fun _ _ => trivial⟩
  case use =>
    refine ⟨trivial, fun v hv => ?_⟩
    cases v
    case error f => exact (Fault.cause_located f pos).trans_ne hv
    all_goals trivial

/-- A proper expression starts its parts, and makes functions that are proper. -/
theorem proper_expr {e : Expr} (h : (expr e scope).Proper) :
  (plan setting (expr e scope)).Proper (expr e scope).Tame
  := by
  cases e
  case name => exact ⟨trivial, fun _ _ => trivial⟩
  case num | str | bool | null => trivial
  case unary | binary | loop => exact ⟨h, fun _ _ => trivial⟩
  case cond pos test yes no =>
    cases no with
    | none =>
        obtain ⟨-, htest, hyes⟩ := h
        refine ⟨htest, fun v _ => ?_⟩
        dsimp only
        split
        · exact ⟨hyes, fun _ _ => trivial⟩
        · trivial
    | some no =>
        obtain ⟨-, htest, hyes, hno⟩ := h
        refine ⟨htest, fun v _ => ?_⟩
        dsimp only
        split
        · exact ⟨hyes, fun _ _ => trivial⟩
        · exact ⟨hno, fun _ _ => trivial⟩
  case func => exact ⟨h, fun _ _ => trivial⟩
  case call =>
    exact ⟨h.2.1, fun _ _ => ⟨h.2.2, fun _ _ => ⟨trivial, fun _ _ => trivial⟩⟩⟩
  case array | hash => exact ⟨h.2, fun _ _ => ⟨trivial, fun _ _ => trivial⟩⟩
  case index =>
    exact ⟨h.2.1, fun _ _ => ⟨h.2.2, fun _ _ => ⟨trivial, fun _ _ => trivial⟩⟩⟩
  case assign =>
    refine ⟨h.2, fun v _ => ⟨trivial, fun found _ => ?_⟩⟩
    cases found
    · rintro ⟨⟩
    · trivial
  case decorated =>
    obtain ⟨⟨hdeclares, hnamed⟩, hdecorator, hdeclaration⟩ := h
    exact ⟨⟨hdecorator, hdeclaration, hdeclares, hnamed⟩, fun _ _ => trivial⟩

/-- A proper unary operator starts its operand: `delete` has a name for it. -/
theorem proper_unary {pos : Position} {op : UnaryOp} {operand : Expr}
    (h : (unary pos op operand scope).Proper) :
  (plan setting (unary pos op operand scope)).Proper (unary pos op operand scope).Tame
  := by
  cases op
  case delete =>
    cases operand
    case name => exact ⟨trivial, fun _ _ => trivial⟩
    all_goals trivial
  case negate => exact ⟨h.2, fun _ _ => ⟨trivial, fun _ _ => trivial⟩⟩
  case not | typeOf => exact ⟨h.2, fun _ _ => trivial⟩
  case throw => exact ⟨h.2, fun _ hv => ⟨hv, fun _ _ => trivial⟩⟩

/-- A proper binary operator starts its operands. -/
theorem proper_binary {pos : Position} {op : BinaryOp} {left right : Expr}
    (h : (binary pos op left right scope).Proper) :
  (plan setting (binary pos op left right scope)).Proper (binary pos op left right scope).Tame
  := by
  refine ⟨h.2.1, fun a _ => ?_⟩
  dsimp only
  split
  · trivial
  · split
    · trivial
    · refine ⟨h.2.2, fun b _ => ?_⟩
      dsimp only
      split
      · trivial
      · exact ⟨trivial, fun _ _ => trivial⟩

/-- A proper loop starts its test and its body. -/
theorem proper_loop {pos : Position} {test : Expr} {body : List Stmt} {last : Value}
    (h : (loop pos test body last scope).Proper) :
  (plan setting (loop pos test body last scope)).Proper (loop pos test body last scope).Tame
  := by
  refine ⟨h.2.1, fun v _ => ?_⟩
  dsimp only
  split
  · exact ⟨h.2.2, fun _ _ => ⟨h, fun _ _ => trivial⟩⟩
  · trivial

/-- The name of a decorated declaration is known. -/
theorem proper_decorated {decorator : Expr} {declaration : Stmt}
    (h : (decorated decorator declaration scope).Proper) :
  (plan setting (decorated decorator declaration scope)).Proper
    (decorated decorator declaration scope).Tame
  := by
  obtain ⟨hdecorator, hdeclaration⟩ := h
  obtain ⟨name, hname⟩ := Option.isSome_iff_exists.mp hdeclaration.named
  refine ⟨hdecorator, fun f _ => ?_⟩
  dsimp only
  rw [hname]
  exact ⟨hdeclaration, fun _ _ => ⟨trivial, fun _ _ => ⟨trivial, fun _ _ => trivial⟩⟩⟩

/-- What is declared is a value or decorated. -/
theorem proper_declared {declaration : Stmt} {name : String}
    (h : (declared declaration name scope).Proper) :
  (plan setting (declared declaration name scope)).Proper
    (declared declaration name scope).Tame
  := by
  cases declaration
  case define => exact ⟨h.everywhere, fun _ _ => ⟨trivial, fun _ _ => trivial⟩⟩
  case expr => exact ⟨h.everywhere.2, fun _ _ => trivial⟩
  all_goals cases h.declares

/-- A call starts a function of the machine or a native one. -/
theorem proper_apply {callee : Value} {args : List Value} {pos : Position} :
  (plan setting (apply callee args scope pos)).Proper (apply callee args scope pos).Tame
  := by
  cases callee
  case native f =>
    refine ⟨trivial, fun v hv => ?_⟩
    cases v
    case error f => exact (Fault.cause_located f pos).trans_ne hv
    all_goals trivial
  case func => exact ⟨trivial, fun _ _ => trivial⟩
  all_goals rintro ⟨⟩

/-- A function of a proper machine has a body that is proper. -/
theorem proper_closure {i : Nat} {args : List Value} {pos : Position} :
  (plan setting (closure i args pos)).Proper (closure i args pos).Tame
  := by
  refine ⟨trivial, fun f hf => ?_⟩
  dsimp only
  split
  · rintro ⟨⟩
  · refine ⟨fun _ => ?_, trivial, fun _ _ => ⟨hf.body, fun _ _ => trivial⟩⟩
    rintro ⟨⟩

/-- A native function starts what goes through an array, a text or a unit, and makes ordinary
errors. -/
theorem proper_native {f : Native} {args : List Value} (hargs : ∀ v ∈ args, v.Clean) :
  (plan setting (native f args scope)).Proper (native f args scope).Tame
  := by
  rcases nativePlan_cases setting f args scope with ⟨name, rest, rfl, rfl, hplan⟩
    | ⟨code, rest, rfl, rfl, -, hplan⟩ | ⟨rfl, hplan⟩ | hplan | ⟨v, rfl | rfl, hplan⟩
  all_goals simp only [plan, hplan]
  · exact ⟨trivial, fun _ hv => hv⟩
  · exact ⟨trivial, fun _ hv => hv⟩
  · exact ⟨trivial, fun _ hv => hv⟩
  · exact ⟨hargs, fun _ hv => hv⟩
  · exact Run.ordinary_invalid
  · rintro ⟨⟩

/-- What goes through an array starts its first round, and makes ordinary errors. -/
theorem proper_overElements {args : List Value} :
  (plan setting (overElements args scope)).Proper (overElements args scope).Tame
  := by
  rcases args with _ | ⟨_ | _ | _ | _ | id | _ | _ | _ | _, _ | ⟨callback, args⟩⟩
  case cons.array.cons =>
    refine ⟨trivial, fun es _ => ?_⟩
    cases callback
    case func => exact ⟨trivial, fun _ _ => ⟨trivial, fun _ hv => hv⟩⟩
    case native => exact ⟨trivial, fun _ hv => hv⟩
    all_goals rintro ⟨⟩
  all_goals exact Run.ordinary_invalid

/-- A round over an array starts a call of the callback. -/
theorem proper_forEach {callback : Value} {arity : Nat} {array : Value} {es : List Value}
    {i : Nat} :
  (plan setting (forEach callback arity array es i scope)).Proper
    (forEach callback arity array es i scope).Tame
  := by
  cases es with
  | nil => trivial
  | cons element rest =>
      refine ⟨trivial, fun v hv => ?_⟩
      cases v
      case error => exact hv
      all_goals exact ⟨trivial, fun _ hv => hv⟩

/-- A text is run only as what it reads as. -/
theorem proper_text {code file : String} :
  (plan setting (text code file scope)).Proper (text code file scope).Tame
  := by
  refine ⟨fun _ => ?_, ?_⟩
  · rintro ⟨⟩
  · have hrunnable := Program.runnable_parse code file
    generalize Program.parse code file = found at hrunnable ⊢
    rcases found with ⟨p, _ | ⟨e, rest⟩⟩
    · exact ⟨hrunnable, fun _ hv => hv⟩
    · rintro ⟨⟩

/-- A unit is run as a program that has been parsed, and so is proper. -/
theorem proper_unit {name : String} :
  (plan setting (unit name scope)).Proper (unit name scope).Tame
  := by
  simp only [plan]
  rcases setting.unit? name with _ | ⟨key, code⟩
  · rintro ⟨⟩
  · refine ⟨trivial, fun imported _ => ?_⟩
    cases imported
    · exact ⟨trivial, fun _ hv => hv⟩
    · rintro ⟨⟩

/-- A proper program starts its statements. -/
theorem proper_program {p : Program} (h : (program p scope).Proper) :
  (plan setting (program p scope)).Proper (program p scope).Tame
  := by
  refine ⟨h, fun v hv => ?_⟩
  cases v
  case error f => exact (Fault.cause_inFile f p.file).trans_ne hv
  all_goals trivial

/-- The plans of tasks are proper. -/
theorem proper_plan {o : Origins} {c : Control} {y : Yield} {t : Task y} (h : t.Proper)
    (hfit : t.Fit o setting c) :
  (t.plan setting).Proper t.Tame
  := by
  cases t with
  | statements ss scope =>
      rcases ss with _ | ⟨s, _ | ⟨s', rest⟩⟩
      · trivial
      · exact ⟨h.1, fun _ _ => trivial⟩
      · exact ⟨h.1, fun _ _ => ⟨h.2, fun _ _ => trivial⟩⟩
  | statement s scope => exact proper_statement h
  | block body scope => exact ⟨trivial, fun _ _ => ⟨h, fun _ _ => trivial⟩⟩
  | expr e scope => exact proper_expr h
  | unary pos op operand scope => exact proper_unary h
  | binary pos op left right scope => exact proper_binary h
  | loop pos test body last scope => exact proper_loop h
  | all es scope =>
      cases es with
      | nil => trivial
      | cons e rest => exact ⟨h.1, fun _ _ => ⟨h.2, fun _ _ => trivial⟩⟩
  | entries es pairs scope =>
      rcases es with _ | ⟨⟨key, value⟩, rest⟩
      · trivial
      · exact ⟨h.1, fun _ _ => ⟨h.2.1, fun _ _ => ⟨trivial, fun _ _ =>
          ⟨h.2.2, fun _ _ => trivial⟩⟩⟩⟩
  | decorated decorator declaration scope => exact proper_decorated h
  | declared declaration name scope => exact proper_declared h
  | apply callee args scope pos => exact proper_apply
  | closure id args pos => exact proper_closure
  | native f args scope => exact proper_native hfit.1
  | overElements args scope => exact proper_overElements
  | forEach callback arity array es i scope => exact proper_forEach
  | call callee args scope => exact ⟨trivial, fun _ _ => ⟨trivial, fun _ hv => hv⟩⟩
  | text code file scope => exact proper_text
  | unit name scope => exact proper_unit
  | program p scope => exact proper_program h

/-- What a task makes that does not hand on faults is clean. -/
theorem Tame.ordinary {o : Origins} {c : Control} {y : Yield} {t : Task y} {v : y.Of}
    (hv : t.Tame v) (hclean : y.Clean (fun f => t.Tells o setting c f) v) :
  y.Ordinary v
  := by
  cases t
  case native | overElements | forEach | call | text | unit | program => exact hv
  case all | entries => trivial
  all_goals exact Value.Clean.ifError hclean

end Task

/-! ### Runs -/

variable {o : Origins} {setting : Setting σ}

/-- Runs from sound and proper machines come to such machines, and have no faults but ordinary
ones. -/
def properness (o : Origins) (setting : Setting σ) : Contract σ where
  Given t := (soundness o setting).Given t
  Pre t m := (soundness o setting).Pre t m ∧ m.Proper ∧ t.Proper
  Post {y} t m r := (soundness o setting).Post t m r ∧ r.Proper y.Ordinary
  Good x :=
    (soundness o setting).Good x ∧ x.machine.Proper
    ∧ match x with
      | .start t _ => t.Proper
      | _ => True

/-- Counting a step changes no function, and fails for an ordinary cause. -/
theorem Run.proper_tick {m : Machine σ} (hm : m.Proper) (pos : Position) :
  Outcome.Proper (fun _ => True) (Run.tick setting pos m)
  := by
  rw [Run.tick_apply]
  split
  · exact ⟨hm, trivial⟩
  · dsimp only
    split
    · exact ⟨hm, by rintro ⟨⟩⟩
    · exact ⟨hm, trivial⟩

/-- What a sound run is unwound with by `return` is no error. -/
theorem Outcome.Sound.clean_ret {m : Machine σ} {α : Type} {Q : α → Prop} {r : Outcome σ α}
    (hr : r.Sound o m Q) (v : Value) (m' : Machine σ) (heq : r = .error (.ret v) m') :
  v.Clean
  := by
  subst heq
  exact hr.result

/-- A bracket hands on nothing but ordinary faults, if no other is met inside. -/
theorem Bracket.proper_outcome (b : Bracket) (m : Machine σ) {r : Outcome σ Value}
    (hr : r.Proper (Value.IfError Fault.Ordinary))
    (hclean : ∀ v m', r = .error (.ret v) m' → v.Clean) :
  (b.outcome m r).Proper (Value.IfError Fault.Ordinary)
  := by
  obtain ⟨hmachine, hresult⟩ := hr
  refine ⟨?_, ?_⟩
  · rw [b.machine_outcome]
    exact hmachine
  · rcases r with ⟨v, m'⟩ | ⟨u, m'⟩
    · exact hresult
    · cases u
      case fault f =>
        cases b
        case body g args => exact (Fault.cause_inFile f g.file).trans_ne hresult
        all_goals exact hresult
      case ret v =>
        have hv := (hclean v m' rfl).ifError (P := Fault.Ordinary)
        cases b
        case body | settled | program => exact hv
        all_goals trivial
      all_goals
        cases b
        all_goals trivial

/-- A plan that goes on with an outcome that is sound and proper. -/
theorem follows_proper {α β : Type} {r : Outcome σ α} {R : α → Prop} {S : β → Prop}
    {Q Q' : Outcome σ β → Prop} {next : α → Plan β}
    (h : r.Follows (fun v m => (next v).Obeys (soundness o setting) setting Q m)
      fun u m => Q (.error u m))
    (hsound : r.machine.Sound o) (hr : r.Proper R)
    (hnext : ∀ v m, R v → (next v).Obeys (soundness o setting) setting Q m → m.Sound o →
      m.Proper → (next v).Obeys (properness o setting) setting Q' m)
    (hQ : ∀ r', Q r' → r'.Proper S → Q' r') :
  r.Follows (fun v m => (next v).Obeys (properness o setting) setting Q' m)
    fun u m => Q' (.error u m)
  := by
  obtain ⟨hmachine, hresult⟩ := hr
  cases r with
  | ok v m => exact hnext v m hresult h hsound hmachine
  | error u m => exact hQ _ h ⟨hmachine, hresult⟩

/-- The run of a proper plan is proper if it is sound and the runs of its tasks are both: by
induction on the plan. -/
theorem Plan.Proper.obeys {α : Type} {R : α → Prop} {Q Q' : Outcome σ α → Prop} {p : Plan α}
    {m : Machine σ} (hp : p.Proper R) (h : p.Obeys (soundness o setting) setting Q m)
    (hm : m.Sound o) (hproper : m.Proper) (hQ : ∀ r, Q r → r.Proper R → Q' r) :
  p.Obeys (properness o setting) setting Q' m
  := by
  induction p generalizing m with
  | ret a => exact hQ _ h ⟨hproper, hp⟩
  | leave v => exact hQ _ h ⟨hproper, trivial⟩
  | stop f => exact hQ _ h ⟨hproper, hp⟩
  | act a next ih =>
      obtain ⟨hgood, hnext⟩ := h
      have hrun := a.proper_run setting hm hproper hp.1
      exact ⟨⟨hgood, hrun.machine, trivial⟩,
        follows_proper hnext hgood.1 hrun (fun v _ hv => ih v (hp.2 v hv)) hQ⟩
  | tick pos next ih =>
      obtain ⟨hbefore, hgood, hnext⟩ := h
      have hrun : Outcome.Proper (fun _ => True) (Run.tick setting pos m) :=
        Run.proper_tick hproper pos
      exact ⟨⟨hbefore, hproper, trivial⟩, ⟨hgood, hrun.machine, trivial⟩,
        follows_proper hnext hgood.1 hrun (fun _ _ _ => ih hp) hQ⟩
  | room full next ihfull ih =>
      obtain ⟨hgood, hnext⟩ := h
      refine ⟨⟨hgood, hproper, trivial⟩, ?_⟩
      split
      · rename_i hfull
        rw [if_pos hfull] at hnext
        exact ihfull _ (hp.1 _) hnext hm hproper
      · rename_i hfull
        rw [if_neg hfull] at hnext
        exact ih hp.2 hnext hm hproper
  | call t next ih =>
      obtain ⟨hpre, hnext⟩ := h
      refine ⟨fun hgiven => ⟨hpre hgiven, hproper, hp.1⟩, fun r hr => ?_⟩
      obtain ⟨hgood, hfollows⟩ := hnext r hr.1
      exact ⟨⟨hgood, hr.2.machine, trivial⟩,
        follows_proper hfollows hgood.1 hr.2 (fun v _ hv => ih v (hp.2 v hv)) hQ⟩
  | within b t next ih =>
      obtain ⟨hbefore, hpre, hnext⟩ := h
      refine ⟨⟨hbefore, hproper, trivial⟩, fun hgiven => ⟨hpre hgiven, hproper, hp.1⟩,
        fun r hr => ?_⟩
      obtain ⟨hgood, hfollows⟩ := hnext r hr.1
      have hrun := b.proper_outcome m hr.2 hr.1.clean_ret
      exact ⟨⟨hgood, hrun.machine, trivial⟩,
        follows_proper hfollows hgood.1 hrun (fun v _ hv => ih v (hp.2 v hv)) hQ⟩

/-- All runs from sound and proper machines are sound and proper. -/
theorem properness_kept (o : Origins) (setting : Setting σ) :
  (properness o setting).Kept setting
  where
  exhausted t m hpre :=
    ⟨(soundness_kept o setting).exhausted t m hpre.1, hpre.2.1, trivial⟩
  start t m hpre := ⟨(soundness_kept o setting).start t m hpre.1, hpre.2⟩
  plan t m hknown hpre := by
    obtain ⟨hsound, hproper, ht⟩ := hpre
    apply (Task.proper_plan ht hsound.2).obeys
      ((soundness_kept o setting).plan t m hknown hsound) hsound.1 hproper
    intro r hr hrproper
    refine ⟨hr, hrproper.machine, ?_⟩
    have hresult := hr.result
    have htame := hrproper.result
    cases r with
    | ok v m' => exact Task.Tame.ordinary htame hresult
    | error u m' => exact htame

end Scriptlet
