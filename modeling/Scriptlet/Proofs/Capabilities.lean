import Scriptlet.Proofs.Provenance
import Scriptlet.Proofs.Running.Parallel
import Scriptlet.Proofs.Running.Plain

/-!
# Capabilities

What a setting does not allow makes no difference, however a program comes by the function that
asks for it.  If code may not be handed to the host, then the host is never asked, so it does not
matter what it would answer and do to the streams; if `eval` may not run texts, then only the
program and the texts of units are ever read and run.  How errors are shown never matters.
-/

namespace Scriptlet

variable {σ : Type}

/-! ### Started tasks -/

section

variable (P : {y : Yield} → Task y → Prop)

/-- Whether all tasks that a plan can start fulfil `P`. -/
def Plan.Starts {α : Type} : Plan α → Prop
  | ret _ | leave _ | stop _ => True
  | act _ next => ∀ v, (next v).Starts
  | tick _ next => next.Starts
  | room full next => (∀ limit, (full limit).Starts) ∧ next.Starts
  | call t next | within _ t next => P t ∧ ∀ v, (next v).Starts

/-- All tasks that are started fulfil `P`. -/
def starting : Contract σ where
  Given _ := True
  Pre t _ := P t
  Post _ _ _ := True
  Good
    | .start t _ => P t
    | _ => True

end

section

variable {P : {y : Yield} → Task y → Prop} {setting : Setting σ}

/-- What holds of all that follows holds of what follows an outcome. -/
theorem Outcome.follows_of_forall {α : Type} {r : Outcome σ α} {next : α → Machine σ → Prop}
    (h : ∀ a m, next a m) :
  r.Follows next fun _ _ => True
  := by
  cases r with
  | ok a m => exact h a m
  | error u m => trivial

/-- A plan that can start only such tasks obeys the contract that says so: by induction on the plan,
whatever its actions and tasks come to. -/
theorem Plan.Starts.obeys {α : Type} {p : Plan α} (hp : p.Starts P) (m : Machine σ) :
  p.Obeys (starting P) setting (fun _ => True) m
  := by
  induction p generalizing m with
  | ret a => trivial
  | leave v => trivial
  | stop f => trivial
  | act a next ih => exact ⟨trivial, Outcome.follows_of_forall fun v => ih v (hp v)⟩
  | tick pos next ih => exact ⟨trivial, trivial, Outcome.follows_of_forall fun _ => ih hp⟩
  | room full next ihfull ih =>
      refine ⟨trivial, ?_⟩
      split
      · exact ihfull _ (hp.1 _) m
      · exact ih hp.2 m
  | call t next ih =>
      obtain ⟨ht, hnext⟩ := hp
      exact ⟨fun _ => ht, fun r _ =>
        ⟨trivial, Outcome.follows_of_forall fun v => ih v (hnext v)⟩⟩
  | within b t next ih =>
      obtain ⟨ht, hnext⟩ := hp
      exact ⟨trivial, fun _ => ht, fun r _ =>
        ⟨trivial, Outcome.follows_of_forall fun v => ih v (hnext v)⟩⟩

/-- If tasks that fulfil `P` start only tasks that do, then so do all tasks that a plan starts,
directly or through others. -/
theorem Plan.Starts.moments (hP : ∀ {y : Yield} (t : Task y), P t → (t.plan setting).Starts P)
    {α : Type} {p : Plan α} (hp : p.Starts P) (n : Nat) (m : Machine σ) {y : Yield} {t : Task y}
    {m' : Machine σ}
    (ht : .start t m' ∈ p.moments setting (Task.run setting n) (Task.moments setting n) m) :
  P t
  := by
  have hkept : (starting P).Kept setting := {
    exhausted := fun _ _ _ => trivial
    start := fun _ _ ht => ht
    plan := fun t m _ ht => (hP t ht).obeys m }
  have hwithin : (starting P).KeptWithin setting n := hkept.run n
  exact (hwithin.plan p m (hp.obeys m) fun _ _ _ _ => trivial).2 _ ht

end

/-! ### What is read and run -/

/-- Whether a text that is run is that of a unit, and a program that is run is `root` or what such a
text reads as. -/
def Task.Sourced (setting : Setting σ) (root : Program) {y : Yield} : Task y → Prop
  | text code file _ => ∃ key, setting.unit? file = some (key, code)
  | program p _ =>
    p = root
    ∨ ∃ key code, setting.unit? p.file = some (key, code) ∧ Program.parse code p.file = (p, [])
  | _ => True

/-- A task that hands on faults is no text and no program, so nothing is asked of it. -/
theorem Task.sourced_of_settles_eq {setting : Setting σ} {root : Program} {y : Yield} {t : Task y}
    (ht : t.settles = false) :
  t.Sourced setting root
  := by
  cases t
  case text | program => cases ht
  all_goals trivial

/-- A plain plan starts nothing that is not sourced: by induction on the plan. -/
theorem Plan.Plain.starts {setting : Setting σ} {root : Program} {α : Type} {p : Plan α}
    (hp : p.Plain) :
  p.Starts (Task.Sourced setting root)
  := by
  induction p with
  | ret a => trivial
  | leave v => trivial
  | stop f => trivial
  | act a next ih => exact fun v => ih v (hp v)
  | tick pos next ih => exact ih hp
  | room full next ihfull ih =>
      obtain ⟨⟨pos, hfull⟩, hnext⟩ := hp
      refine ⟨fun limit => ?_, ih hnext⟩
      rw [hfull]
      trivial
  | call t next ih => exact ⟨Task.sourced_of_settles_eq hp.1, fun v => ih v (hp.2 v)⟩
  | within b t next ih =>
      obtain ⟨-, ht, hnext⟩ := hp
      exact ⟨Task.sourced_of_settles_eq ht, fun v => ih v (hnext v)⟩

namespace Task

open Plan

variable {setting : Setting σ} {root : Program}

/-- A statement starts no text and no program; a unit is one of a name. -/
theorem starts_statement (s : Stmt) (scope : Scope) :
  (plan setting (statement s scope)).Starts (Sourced setting root)
  := by
  cases s
  case use pos name =>
    refine ⟨trivial, fun v => ?_⟩
    cases v
    all_goals trivial
  all_goals exact Plain.starts (plain_plan rfl)

/-- A call starts no text and no program. -/
theorem starts_apply (callee : Value) (args : List Value) (scope : Scope) (pos : Position) :
  (plan setting (apply callee args scope pos)).Starts (Sourced setting root)
  := by
  cases callee
  case native =>
    refine ⟨trivial, fun v => ?_⟩
    cases v
    all_goals trivial
  all_goals exact Plain.starts (plain_plan rfl)

/-- What goes through an array starts no text and no program. -/
theorem starts_overElements (args : List Value) (scope : Scope) :
  (plan setting (overElements args scope)).Starts (Sourced setting root)
  := by
  rcases args with _ | ⟨_ | _ | _ | _ | id | _ | _ | _ | _, _ | ⟨callback, args⟩⟩
  case cons.array.cons =>
    intro elements
    cases callback
    case func => exact fun _ => ⟨trivial, fun _ => trivial⟩
    case native => exact ⟨trivial, fun _ => trivial⟩
    all_goals trivial
  all_goals trivial

/-- No native function runs a text that it is given. -/
theorem starts_native (heval : setting.options.allowEval = false) (f : Native) (args : List Value)
    (scope : Scope) :
  (plan setting (native f args scope)).Starts (Sourced setting root)
  := by
  rcases nativePlan_cases setting f args scope with ⟨name, rest, -, -, hplan⟩
    | ⟨code, rest, -, -, hallowed, -⟩ | ⟨-, hplan⟩ | hplan | ⟨v, -, hplan⟩
  · simp only [plan, hplan]
    exact ⟨trivial, fun _ => trivial⟩
  · rw [heval] at hallowed
    cases hallowed
  · simp only [plan, hplan]
    exact ⟨trivial, fun _ => trivial⟩
  · simp only [plan, hplan]
    exact fun _ => trivial
  · simp only [plan, hplan]
    trivial

/-- A text of the library or of a module starts the program that it reads as. -/
theorem starts_text {code file : String} {scope : Scope}
    (h : (text code file scope).Sourced setting root) :
  (plan setting (text code file scope)).Starts (Sourced setting root)
  := by
  obtain ⟨key, hunit⟩ := h
  refine ⟨fun _ => trivial, ?_⟩
  rcases hparse : Program.parse code file with ⟨p, _ | ⟨e, es⟩⟩
  · have hfile : p.file = file := by
      rw [← congrArg (fun r => r.1.file) hparse]
      rfl
    refine ⟨.inr ⟨key, code, ?_, ?_⟩, fun _ => trivial⟩
    · rw [hfile, hunit]
    · rw [hfile, hparse]
  · trivial

/-- The text that is run for a name is that of the unit of that name. -/
theorem starts_unit (name : String) (scope : Scope) :
  (plan setting (unit name scope)).Starts (Sourced setting root)
  := by
  simp only [plan]
  rcases hunit : setting.unit? name with _ | ⟨key, code⟩
  · trivial
  · intro imported
    cases imported
    · exact ⟨⟨key, hunit⟩, fun _ => trivial⟩
    · trivial

/-- Texts of units and what they read as are all that is run on behalf of them. -/
theorem starts_plan (heval : setting.options.allowEval = false) {y : Yield} (t : Task y)
    (ht : t.Sourced setting root) :
  (t.plan setting).Starts (Sourced setting root)
  := by
  cases t with
  | statement s scope => exact starts_statement s scope
  | apply callee args scope pos => exact starts_apply callee args scope pos
  | native f args scope => exact starts_native heval f args scope
  | overElements args scope => exact starts_overElements args scope
  | forEach callback arity array elements i scope =>
      cases elements with
      | nil => trivial
      | cons element rest =>
          refine ⟨trivial, fun v => ?_⟩
          cases v
          case error => trivial
          all_goals exact ⟨trivial, fun _ => trivial⟩
  | call callee args scope => exact fun _ => ⟨trivial, fun _ => trivial⟩
  | text code file scope => exact starts_text ht
  | unit name scope => exact starts_unit name scope
  | program p scope =>
      refine ⟨trivial, fun v => ?_⟩
      cases v
      all_goals trivial
  | _ => exact Plain.starts (plain_plan rfl)

end Task

/-- An evaluation starts with the library and the program. -/
theorem Program.starts_plan (setting : Setting σ) (program : Program) (scope : Scope) :
  (program.plan setting scope).Starts (Task.Sourced setting program)
  := by
  unfold plan
  split
  · refine ⟨trivial, fun v => ?_⟩
    cases v
    case error => trivial
    all_goals exact ⟨.inl rfl, fun _ => trivial⟩
  · exact ⟨.inl rfl, fun _ => trivial⟩

/-! ### Streams that differ in their hosts -/

/-- Whether streams in states that `R` relates give the same answers when they are read and written
and are left in such states.  What their hosts answer, and what becomes of the streams then, is left
open. -/
structure Terminal.Alike {σ' : Type} (R : σ → σ' → Prop) (terminal : Terminal σ)
    (terminal' : Terminal σ') : Prop where
  readLine : SameAnswers R terminal.readLine terminal'.readLine
  writeOut (text : String) : SameAnswers R (terminal.writeOut text) (terminal'.writeOut text)
  writeErr (text : String) : SameAnswers R (terminal.writeErr text) (terminal'.writeErr text)

/-- Streams that are read and written alike answer alike whatever a program may ask of them, if it
may not hand code to their hosts. -/
theorem Terminal.Alike.sameAnswers {σ' α : Type} {R : σ → σ' → Prop} {setting : Setting σ}
    {terminal : Terminal σ'} (h : setting.terminal.Alike R terminal)
    (hhost : setting.options.allowHost = false) {request : σ → α × σ} {request' : σ' → α × σ'}
    (hasks : setting.Asks terminal request request') :
  SameAnswers R request request'
  := by
  cases hasks with
  | readLine => exact h.readLine
  | writeOut text => exact h.writeOut text
  | writeErr text => exact h.writeErr text
  | evalHost code hallowed =>
      rw [hhost] at hallowed
      cases hallowed

/-- The same streams, with a record of the code that their host is handed, the last one first. -/
def Terminal.recorded (terminal : Terminal σ) : Terminal (σ × List String) where
  readLine | (s, record) => let (answer, s) := terminal.readLine s; (answer, s, record)
  writeOut text | (s, record) => let (answer, s) := terminal.writeOut text s; (answer, s, record)
  writeErr text | (s, record) => let (answer, s) := terminal.writeErr text s; (answer, s, record)
  evalHost code
    | (s, record) => let (answer, s) := terminal.evalHost code s; (answer, s, code :: record)

/-- Reading and writing leaves the record alone. -/
theorem Terminal.alike_recorded (terminal : Terminal σ) (record : List String) :
  terminal.Alike (fun s s' => s' = (s, record)) terminal.recorded
  where
  readLine := by
    rintro s _ rfl
    exact ⟨rfl, rfl⟩
  writeOut text := by
    rintro s _ rfl
    exact ⟨rfl, rfl⟩
  writeErr text := by
    rintro s _ rfl
    exact ⟨rfl, rfl⟩

/-! ### Evaluations -/

namespace Setting

variable {setting : Setting σ}

/-- The setting with errors shown otherwise. -/
def shown (setting : Setting σ) (showPrefix showColor : Bool) : Setting σ :=
  { setting with options := { setting.options with showPrefix, showColor } }

/-- How errors are shown makes no difference to any action or plan. -/
theorem parallel_shown (showPrefix showColor : Bool) :
  setting.Parallel Eq (setting.shown showPrefix showColor)
  where
  allowEval := rfl
  unit? := rfl
  maxSteps := rfl
  maxDepth := rfl
  useLibrary := rfl
  act a := by
    have halike : setting.Alike (setting.shown showPrefix showColor) := ⟨⟨rfl, rfl⟩, rfl, rfl⟩
    rw [halike.run_action a]
    rintro m _ rfl
    exact ⟨_, rfl, (Outcome.on_self (a.run setting m)).symm⟩

/-- A host that may not be asked makes no difference to any action or plan. -/
theorem parallel_on {σ' : Type} {R : σ → σ' → Prop} {terminal : Terminal σ'}
    (hhost : setting.options.allowHost = false) (h : setting.terminal.Alike R terminal) :
  setting.Parallel R (setting.on terminal)
  where
  allowEval := rfl
  unit? := rfl
  maxSteps := rfl
  maxDepth := rfl
  useLibrary := rfl
  act := Action.parallel_run (h.sameAnswers hhost)

end Setting

/-- Options that allow nothing and options of presentation do not interfere with an evaluation.

How errors are shown makes no difference to what the evaluation comes to, to the values and names
that are left and to the streams.

If code may not be handed to the host, then the evaluation comes to the same on any other streams
that give the same answers when they are read and written, whatever their host answers and does, and
it leaves streams that go on doing so; and the host is never asked, for a record of the code that it
is handed stays as it is.

If `eval` may not run texts, then each text that is read is that of the library or of a module,
which is the unit of the name that it is run under, and each program that is run is the evaluated
one or what such a text reads as. -/
theorem Run.evaluate_capabilities (setting : Setting σ) (n : Nat) (program : Program)
    (scope : Scope) (m : Machine σ) :
  let result := Run.evaluate setting n program scope m
  (∀ showPrefix showColor,
    Run.evaluate (setting.shown showPrefix showColor) n program scope m = result)
  ∧ (setting.options.allowHost = false →
    (∀ (σ' : Type) (terminal : Terminal σ') (R : σ → σ' → Prop),
      setting.terminal.Alike R terminal → ∀ streams, R m.streams streams →
      ∃ streams', R (Outcome.machine result).streams streams'
        ∧ Run.evaluate (setting.on terminal) n program scope (m.on streams)
          = Outcome.on result streams')
    ∧ ∀ record,
      Run.evaluate (setting.on setting.terminal.recorded) n program scope (m.on (m.streams, record))
        = Outcome.on result ((Outcome.machine result).streams, record))
  ∧ (setting.options.allowEval = false →
    (∀ code file scope' m',
      .start (.text code file scope') m' ∈ program.moments setting n scope m →
      ∃ key, setting.unit? file = some (key, code))
    ∧ ∀ p scope' m', .start (.program p scope') m' ∈ program.moments setting n scope m →
      p = program
      ∨ ∃ key code, setting.unit? p.file = some (key, code)
        ∧ Program.parse code p.file = (p, []))
  := by
  intro result
  refine ⟨?shown, fun hhost => ⟨?hosts, ?record⟩, ?sourced⟩
  case shown =>
    intro showPrefix showColor
    obtain ⟨_, rfl, heq⟩ :=
      (setting.parallel_shown showPrefix showColor).evaluate n program scope m _ rfl
    exact heq.trans (Outcome.on_self result)
  case hosts =>
    intro σ' terminal R halike streams hstreams
    exact (Setting.parallel_on hhost halike).evaluate n program scope m streams hstreams
  case record =>
    intro record
    have halike := setting.terminal.alike_recorded record
    obtain ⟨_, rfl, heq⟩ :=
      (Setting.parallel_on hhost halike).evaluate n program scope m _ rfl
    exact heq
  case sourced =>
    intro heval
    have hsourced {y : Yield} {t : Task y} {m' : Machine σ}
        (ht : .start t m' ∈ program.moments setting n scope m) :
      t.Sourced setting program
      := (program.starts_plan setting scope).moments (Task.starts_plan heval) n _ ht
    exact ⟨fun _ _ _ _ ht => hsourced ht, fun _ _ _ ht => hsourced ht⟩

/-- What is reported does not depend on the streams. -/
theorem Outcome.report?_on {σ' : Type} (r : Outcome σ Value) (streams : σ') :
  (r.on streams).report? = r.report?
  := by
  rcases r with ⟨v, m⟩ | ⟨u, m⟩
  · cases v
    all_goals rfl
  · rfl

/-- A module binds the function of the host to another name, and the program has it called for the
elements of an array.  The other streams have a host that answers, writes and is written down. -/
theorem Run.evaluate_capabilities_alias :
  let disk : Disk := { Disk.empty with files := [(["m.tiny"], "let ask = js".toUTF8)] }
  let setting : Setting := ⟨{ Options.standard with useLibrary := false }, Device.standard, disk⟩
  let program := (Program.parse "use m; __builtin_forEach([\"1\"], ask)" "main.tiny").1
  let m : Machine := { Machine.initial (.ofLines []) with scopes := ⟨#[[]]⟩ }
  let quiet : Terminal (Streams × List String) := setting.terminal.recorded
  let loud : Terminal (Streams × List String) :=
    { quiet with
      evalHost := fun code s => (.ok code, { s.1 with out := s.1.out ++ code }, code :: s.2) }
  setting.options.allowHost = false ∧ setting.options.allowEval = false
  ∧ setting.terminal.Alike (fun s s' => s' = (s, [])) loud
  ∧ Outcome.report? (Run.evaluate setting 60 program [0] m)
    = some "allowJavaScript is not allowed at main.tiny 1:25"
  ∧ (let result := Run.evaluate (setting.on loud) 60 program [0] (m.on (m.streams, []))
    Outcome.report? result = some "allowJavaScript is not allowed at main.tiny 1:25"
    ∧ (Outcome.machine result).streams.2 = [])
  ∧ ∀ code file scope' m', .start (.text code file scope') m' ∈ program.moments setting 60 [0] m →
    ∃ key, setting.unit? file = some (key, code)
  := by
  intro disk setting program m quiet loud
  have hhost : setting.options.allowHost = false := rfl
  have heval : setting.options.allowEval = false := rfl
  have hquiet := setting.terminal.alike_recorded []
  have hloud : setting.terminal.Alike (fun s s' => s' = (s, [])) loud :=
    ⟨hquiet.readLine, hquiet.writeOut, hquiet.writeErr⟩
  have hreport : Outcome.report? (Run.evaluate setting 60 program [0] m)
      = some "allowJavaScript is not allowed at main.tiny 1:25" := by
    decide +kernel
  clear_value setting program m loud
  obtain ⟨-, hhosts, hsourced⟩ := Run.evaluate_capabilities setting 60 program [0] m
  obtain ⟨_, rfl, heq⟩ := (hhosts hhost).1 _ loud _ hloud _ rfl
  refine ⟨hhost, heval, hloud, hreport, ⟨?_, ?_⟩, (hsourced heval).1⟩
  · rw [heq, Outcome.report?_on]
    exact hreport
  · rw [heq, Outcome.machine_on]
    rfl

end Scriptlet
