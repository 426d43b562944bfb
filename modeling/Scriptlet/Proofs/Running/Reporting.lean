import Scriptlet.Proofs.Running.Plain
import Scriptlet.Proofs.Running.Progress

/-!
# Faults that are reported

A run that goes beyond a limit fails, however deep inside the program that happens: the fault
unwinds through every plan, and where it is handed on as a value, it is handed on by a task whose
errors are all faults to the plan that started it (`Task.failed_of_hit`).
-/

namespace Scriptlet

variable {σ : Type}

/-! ### Failed runs -/

/-- Whether what a task makes is an error with the given cause. -/
def Yield.IsError (cause : Cause) : (y : Yield) → y.Of → Prop
  | .value, .error f => f.cause = cause
  | _, _ => False

/-- Whether an outcome is a fault with the given cause, or an error value that stands for one. -/
def Outcome.Failed (settles : Bool) (cause : Cause) {y : Yield} : Outcome σ y.Of → Prop
  | .ok v _ => settles ∧ y.IsError cause v
  | .error (.fault f) _ => f.cause = cause
  | .error _ _ => False

/-- Giving a fault a position keeps its cause. -/
@[simp] theorem Fault.cause_located (f : Fault) (pos : Position) :
  (f.located pos).cause = f.cause
  := by
  unfold located
  split
  all_goals rfl

/-- Giving a fault a file keeps its cause. -/
@[simp] theorem Fault.cause_inFile (f : Fault) (file : String) :
  (f.inFile file).cause = f.cause
  := by
  unfold inFile
  split
  all_goals rfl

/-! ### Plans that report faults -/

namespace Plan

variable {y : Yield} {settles : Bool} {cause : Cause}

/-- Whether a plan does nothing but fail with the given cause. -/
def Reports (settles : Bool) (cause : Cause) {y : Yield} : Plan y.Of → Prop
  | ret v => settles ∧ y.IsError cause v
  | stop f => f.cause = cause
  | _ => False

/-- Whether a plan fails when there is no room and when a task that it starts has failed. -/
def Passes (settles : Bool) {y : Yield} : Plan y.Of → Prop
  | ret _ | leave _ | stop _ => True
  | act _ next => ∀ v, (next v).Passes settles
  | tick _ next => next.Passes settles
  | room full next =>
    (∀ limit, (full limit).Reports settles (.depthExceeded limit)) ∧ next.Passes settles
  | call (y := z) t next =>
    (∀ v, (next v).Passes settles)
    ∧ (t.settles → ∀ cause v, z.IsError cause v → (next v).Reports settles cause)
  | within b t next =>
    (∀ v, (next v).Passes settles)
    ∧ (b.settles ∨ t.settles → ∀ f, (next (.error f)).Reports settles f.cause)

/-- A plan that starts a task which hands on no faults. -/
theorem passes_call {z : Yield} {t : Task z} {next : z.Of → Plan y.Of} (ht : t.settles = false)
    (hnext : ∀ v, (next v).Passes settles) :
  (call t next).Passes settles
  := by
  refine ⟨hnext, fun hsettles => ?_⟩
  rw [ht] at hsettles
  cases hsettles

/-- A plan that ends with a task and hands on its faults. -/
theorem passes_last (t : Task y) :
  (call t ret).Passes true
  := ⟨fun _ => trivial, fun _ _ _ hv => ⟨rfl, hv⟩⟩

/-- A plain plan fails whenever it is to: by induction on the plan. -/
theorem Plain.passes {p : Plan y.Of} (hp : p.Plain) :
  p.Passes false
  := by
  induction p with
  | ret a => trivial
  | leave v => trivial
  | stop f => trivial
  | act a next ih => exact fun v => ih v (hp v)
  | tick pos next ih => exact ih hp
  | room full next ihfull ih =>
      obtain ⟨⟨pos, hfull⟩, hnext⟩ := hp
      refine ⟨fun limit => ?_, ih hnext⟩
      rw [hfull]
      rfl
  | call t next ih => exact passes_call hp.1 fun v => ih v (hp.2 v)
  | within b t next ih =>
      obtain ⟨hb, ht, hnext⟩ := hp
      refine ⟨fun v => ih v (hnext v), fun hsettles => ?_⟩
      rw [hb.settles_eq, ht, or_self] at hsettles
      cases hsettles

end Plan

namespace Task

open Plan

variable {setting : Setting σ}

/-- A statement fails with whatever it starts; what `use` makes is raised again. -/
theorem passes_statement (s : Stmt) (scope : Scope) :
  (plan setting (statement s scope)).Passes false
  := by
  cases s
  case use pos name =>
    refine ⟨fun v => ?_, fun _ cause v hv => ?_⟩
    · cases v
      all_goals trivial
    · cases v
      case error f => exact (f.cause_located pos).trans hv
      all_goals exact hv.elim
  all_goals exact Plain.passes (plain_plan rfl)

/-- A call fails with whatever it calls; what a native function makes is raised again. -/
theorem passes_apply (callee : Value) (args : List Value) (scope : Scope) (pos : Position) :
  (plan setting (apply callee args scope pos)).Passes false
  := by
  cases callee
  case native =>
    refine ⟨fun v => ?_, fun _ f => f.cause_located pos⟩
    cases v
    all_goals trivial
  all_goals exact Plain.passes (plain_plan rfl)

/-- A native function hands on the errors of the tasks that it starts. -/
theorem passes_native (f : Native) (args : List Value) (scope : Scope) :
  (plan setting (native f args scope)).Passes true
  := by
  rcases nativePlan_cases setting f args scope with ⟨name, rest, -, -, hplan⟩
    | ⟨code, rest, -, -, -, hplan⟩ | ⟨-, hplan⟩ | hplan | ⟨v, -, hplan⟩
  all_goals simp only [plan, hplan]
  · exact passes_last _
  · exact passes_last _
  · exact passes_last _
  · exact fun _ => trivial
  · trivial

/-- What goes through an array hands on the errors of its first round. -/
theorem passes_overElements (args : List Value) (scope : Scope) :
  (plan setting (overElements args scope)).Passes true
  := by
  rcases args with _ | ⟨_ | _ | _ | _ | id | _ | _ | _ | _, _ | ⟨callback, args⟩⟩
  case cons.array.cons =>
    intro elements
    cases callback
    case func => exact fun _ => passes_last _
    case native => exact passes_last _
    all_goals trivial
  all_goals trivial

/-- A round over an array hands on the errors of the callback and of the next round. -/
theorem passes_forEach (callback : Value) (arity : Nat) (array : Value) (elements : List Value)
    (i : Nat) (scope : Scope) :
  (plan setting (forEach callback arity array elements i scope)).Passes true
  := by
  cases elements with
  | nil => trivial
  | cons element rest =>
      refine ⟨fun v => ?_, fun _ cause v hv => ?_⟩
      · cases v
        case error => trivial
        all_goals exact passes_last _
      · cases v
        case error => exact ⟨rfl, hv⟩
        all_goals exact hv.elim

/-- A text hands on the errors of its program. -/
theorem passes_text (code file : String) (scope : Scope) :
  (plan setting (text code file scope)).Passes true
  := by
  refine ⟨fun _ => ⟨rfl, rfl⟩, ?_⟩
  rcases Program.parse code file with ⟨p, _ | ⟨e, es⟩⟩
  · exact ⟨fun _ => trivial, fun _ _ => ⟨rfl, rfl⟩⟩
  · trivial

/-- A unit hands on the errors of its program. -/
theorem passes_unit (name : String) (scope : Scope) :
  (plan setting (unit name scope)).Passes true
  := by
  simp only [plan]
  rcases setting.unit? name with _ | ⟨key, code⟩
  · trivial
  · intro imported
    cases imported
    · exact ⟨fun _ => trivial, fun _ _ => ⟨rfl, rfl⟩⟩
    · trivial

/-- The plan of every task reports the faults of the tasks it starts. -/
theorem passes {y : Yield} (t : Task y) :
  (t.plan setting).Passes t.settles
  := by
  cases t with
  | statement s scope => exact passes_statement s scope
  | apply callee args scope pos => exact passes_apply callee args scope pos
  | native f args scope => exact passes_native f args scope
  | overElements args scope => exact passes_overElements args scope
  | forEach callback arity array elements i scope =>
      exact passes_forEach callback arity array elements i scope
  | call callee args scope => exact fun _ => ⟨fun _ => trivial, fun _ _ => ⟨rfl, rfl⟩⟩
  | text code file scope => exact passes_text code file scope
  | unit name scope => exact passes_unit name scope
  | program p scope =>
      refine ⟨fun v => ?_, fun _ f => ⟨rfl, f.cause_inFile p.file⟩⟩
      cases v
      all_goals trivial
  | _ => exact Plain.passes (plain_plan rfl)

end Task

/-- An evaluation reports the faults of the library and of the program. -/
theorem Program.passes_plan (program : Program) (scope : Scope) :
  (program.plan setting scope).Passes (y := .value) true
  := by
  unfold plan
  split
  · refine ⟨fun v => ?_, fun _ cause v hv => ?_⟩
    · cases v
      case error => trivial
      all_goals exact Plan.passes_last _
    · cases v
      case error => exact ⟨rfl, hv⟩
      all_goals exact hv.elim
  · exact Plan.passes_last _

/-! ### Limits that are hit -/

/-- Whether a limit keeps a run from going on, and with which cause. -/
def Moment.Hits (setting : Setting σ) (cause : Cause) : Moment σ → Prop
  | tick m =>
    ∃ limit, setting.options.maxSteps = some limit ∧ limit ≤ m.control.steps
      ∧ cause = .budgetExceeded limit
  | room m =>
    setting.options.maxDepth ≤ m.control.depth
    ∧ cause = .depthExceeded setting.options.maxDepth
  | _ => False

variable {setting : Setting σ} {cause : Cause}

/-- A plan that does nothing but fail has failed, whatever it is run on. -/
theorem Plan.Reports.failed {y : Yield} {settles : Bool} {p : Plan y.Of}
    (hp : p.Reports settles cause) (start : {y : Yield} → Task y → RunOn σ y.Of) (m : Machine σ) :
  Outcome.Failed settles cause (p.run setting start m)
  := by
  cases p
  case ret | stop => exact hp
  all_goals exact hp.elim

/-- A plan that does nothing but fail has no moments. -/
theorem Plan.Reports.moments_eq {y : Yield} {settles : Bool} {p : Plan y.Of}
    (hp : p.Reports settles cause) (start : {y : Yield} → Task y → RunOn σ y.Of)
    (inside : {y : Yield} → Task y → Machine σ → List (Moment σ)) (m : Machine σ) :
  p.moments setting start inside m = []
  := by
  cases p
  case ret | stop => rfl
  all_goals exact hp.elim

/-- A bracket hands a failure on, as an error value if it settles. -/
theorem Bracket.failed_outcome (b : Bracket) {m : Machine σ} {settles : Bool} {r : Outcome σ Value}
    (hr : Outcome.Failed (y := .value) settles cause r) :
  Outcome.Failed (y := .value) (b.settles || settles) cause (b.outcome m r)
  := by
  rcases r with ⟨v, m'⟩ | ⟨u, m'⟩
  · exact ⟨by simp [hr.1], hr.2⟩
  · cases u
    case fault f =>
      cases b
      case body => exact (f.cause_inFile _).trans hr
      case settled | program => exact ⟨rfl, hr⟩
      all_goals exact hr
    all_goals exact hr.elim

/-- What follows a failure fails. -/
theorem failed_andThen {y z : Yield} {settles settles' : Bool} {r : Outcome σ z.Of}
    {next : z.Of → Machine σ → Outcome σ y.Of} (hr : Outcome.Failed settles' cause r)
    (hnext : settles' → ∀ v m, z.IsError cause v → Outcome.Failed settles cause (next v m)) :
  Outcome.Failed settles cause (r.andThen next)
  := by
  rcases r with ⟨v, m⟩ | ⟨u, m⟩
  · exact hnext hr.1 v m hr.2
  · cases u
    all_goals exact hr

/-- A limit is hit behind an outcome only if the run goes on. -/
theorem exists_of_hit {α : Type} {r : Outcome σ α} {next : α → Machine σ → List (Moment σ)}
    {x : Moment σ} (hx : x ∈ r.moments next) (hhit : x.Hits setting cause) :
  ∃ a m, r = .ok a m ∧ x ∈ next a m
  := by
  rcases List.mem_cons.mp hx with rfl | hx
  · exact hhit.elim
  · cases r with
    | ok a m => exact ⟨a, m, rfl, hx⟩
    | error u m => cases hx

/-- A step beyond the limit fails with the cause of the limit. -/
theorem Run.failed_tick {pos : Position} {m : Machine σ}
    (hhit : (Moment.tick m).Hits setting cause) :
  ∃ m', Run.tick setting pos m = .error (.fault (.placed cause pos)) m'
  := by
  obtain ⟨limit, hlimit, hle, rfl⟩ := hhit
  rw [Run.tick_apply, hlimit]
  dsimp only
  rw [if_pos (Nat.lt_succ_of_le hle)]
  exact ⟨_, rfl⟩

section

variable {start : {y : Yield} → Task y → RunOn σ y.Of} {y z : Yield} {settles : Bool}
  {m : Machine σ}

/-- A plan fails if a task that it starts has failed. -/
theorem Plan.Passes.failed_call {t : Task z} {next : z.Of → Plan y.Of}
    (hp : (call t next).Passes settles) (hr : Outcome.Failed t.settles cause (start t m)) :
  Outcome.Failed settles cause ((call t next).run setting start m)
  := by
  rw [run_call]
  refine failed_andThen hr fun hsettles v m' hv => ?_
  exact (hp.2 hsettles cause v hv).failed _ m'

/-- A plan fails if a task that it starts in a bracket has failed. -/
theorem Plan.Passes.failed_within {b : Bracket} {t : Task .value} {next : Value → Plan y.Of}
    (hp : (within b t next).Passes settles)
    (hr : Outcome.Failed t.settles cause (start t (b.opened m))) :
  Outcome.Failed settles cause ((within b t next).run setting start m)
  := by
  rw [run_within]
  refine failed_andThen (b.failed_outcome hr) fun hsettles v m' hv => ?_
  cases v
  case error f =>
    obtain rfl : f.cause = cause := hv
    exact (hp.2 (Bool.or_eq_true_iff.mp hsettles) f).failed _ m'
  all_goals exact hv.elim

end

/-- The run of a plan in which a limit is hit fails if those of its tasks do in which one is. -/
theorem Plan.Passes.failed {start : {y : Yield} → Task y → RunOn σ y.Of}
    {inside : {y : Yield} → Task y → Machine σ → List (Moment σ)}
    (hstart : ∀ (z : Yield) (t : Task z) m, (∃ x ∈ inside t m, x.Hits setting cause) →
      Outcome.Failed t.settles cause (start t m))
    {y : Yield} {settles : Bool} {p : Plan y.Of} (hp : p.Passes settles) {m : Machine σ}
    {x : Moment σ} (hx : x ∈ p.moments setting start inside m) (hhit : x.Hits setting cause) :
  Outcome.Failed settles cause (p.run setting start m)
  := by
  induction p generalizing m with
  | ret a => cases hx
  | leave v => cases hx
  | stop f => cases hx
  | act a next ih =>
      obtain ⟨v, m', hrun, hx⟩ := exists_of_hit hx hhit
      rw [run_act, hrun]
      exact ih v (hp v) hx
  | tick pos next ih =>
      rw [run_tick]
      rcases List.mem_cons.mp hx with rfl | hx
      · obtain ⟨m', hrun⟩ : ∃ m', Run.tick setting pos m = .error (.fault (.placed cause pos)) m' :=
          Run.failed_tick hhit
        rw [hrun]
        rfl
      · obtain ⟨v, m', hrun, hx⟩ := exists_of_hit hx hhit
        rw [hrun]
        exact ih hp hx
  | room full next ihfull ih =>
      rw [run_room]
      rcases List.mem_cons.mp hx with rfl | hx
      · -- The plan for a full depth does nothing but fail.
        rw [if_pos hhit.1, hhit.2]
        exact (hp.1 _).failed _ m
      · split
        · rename_i hfull
          rw [if_pos hfull, (hp.1 _).moments_eq] at hx
          cases hx
        · rename_i hfull
          rw [if_neg hfull] at hx
          exact ih hp.2 hx
  | call t next ih =>
      rcases List.mem_append.mp hx with hx | hx
      · exact hp.failed_call (hstart _ t m ⟨x, hx, hhit⟩)
      · obtain ⟨v, m', hrun, hx⟩ := exists_of_hit hx hhit
        rw [run_call, show start t m = .ok v m' from hrun]
        exact ih v (hp.1 v) hx
  | within b t next ih =>
      rcases List.mem_cons.mp hx with rfl | hx
      · exact hhit.elim
      rcases List.mem_append.mp hx with hx | hx
      · exact hp.failed_within (hstart _ t _ ⟨x, hx, hhit⟩)
      · obtain ⟨v, m', hrun, hx⟩ := exists_of_hit hx hhit
        rw [run_within, hrun]
        exact ih v (hp.1 v) hx

/-- A task in whose run a limit is hit fails because of it. -/
theorem Task.failed_of_hit (n : Nat) {y : Yield} (t : Task y) (m : Machine σ)
    (h : ∃ x ∈ t.moments setting n m, x.Hits setting cause) :
  Outcome.Failed t.settles cause (t.run setting n m)
  := by
  induction n generalizing y t m with
  | zero =>
      obtain ⟨x, hx, hhit⟩ := h
      obtain rfl := List.mem_singleton.mp hx
      exact hhit.elim
  | succ n ih =>
      obtain ⟨x, hx, hhit⟩ := h
      rw [run_succ]
      rcases List.mem_cons.mp hx with rfl | hx
      · exact hhit.elim
      · exact t.passes.failed (fun z t' m' => ih t' m') hx hhit

end Scriptlet
