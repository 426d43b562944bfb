import Scriptlet.Proofs.Balance
import Scriptlet.Proofs.Running.Ending
import Scriptlet.Proofs.Running.Plain

/-!
# Files in progress

Which files are in progress at each moment of a run: the units whose text is being run and, under
them, the script.  Every plan enters a unit only behind a test that it is not being imported, and
leaving brackets keeps that record exact.  So the imported files in progress are distinct, and an
attempt to import one of them fails at once.

The script is not among the units that are being imported.  So its text can be started once more
while it is in progress, by an import of the script itself.
-/

namespace Scriptlet

variable {σ : Type}

/-! ### Plans that enter units -/

/-- The unit that is found not to be imported when an action leads to `v`. -/
def Action.absent? : (a : Action) → a.Result → Option String
  | isImported key, false => some key
  | _, _ => none

/-- Whether a plan enters a unit only right behind a test that it is not being imported, if
`absent?` is the unit of which the last action has found that. -/
def Plan.Guarded (absent? : Option String) {α : Type} : Plan α → Prop
  | ret _ | leave _ | stop _ => True
  | act a next => ∀ v, (next v).Guarded (a.absent? v)
  | tick _ next => next.Guarded none
  | room full next => (∀ limit, (full limit).Guarded none) ∧ next.Guarded none
  | call _ next => ∀ v, (next v).Guarded none
  | within b _ next =>
    (∀ key, b = .unit key → absent? = some key) ∧ ∀ v, (next v).Guarded none

/-- A plain plan enters no unit: by induction on the plan, whatever the last action has found. -/
theorem Plan.Plain.guarded {α : Type} {p : Plan α} {absent? : Option String} (hp : p.Plain) :
  p.Guarded absent?
  := by
  induction p generalizing absent? with
  | ret a => trivial
  | leave v => trivial
  | stop f => trivial
  | act a next ih => exact fun v => ih v (hp v)
  | tick pos next ih => exact ih hp
  | room full next ihfull ih =>
      obtain ⟨⟨pos, hfull⟩, hnext⟩ := hp
      refine ⟨fun limit => ?_, ih hnext⟩
      rw [hfull]
      trivial
  | call t next ih => exact fun v => ih v (hp.2 v)
  | within b t next ih =>
      obtain ⟨hb, -, hnext⟩ := hp
      exact ⟨fun key heq => absurd heq (hb.ne_unit key), fun v => ih v (hnext v)⟩

namespace Task

open Plan

variable {setting : Setting σ}

/-- A statement enters no unit itself. -/
theorem guarded_statement (s : Stmt) (scope : Scope) :
  (plan setting (statement s scope)).Guarded none
  := by
  cases s
  case use pos name =>
    intro v
    cases v
    all_goals trivial
  all_goals exact Plain.guarded (plain_plan rfl)

/-- A call enters no unit itself. -/
theorem guarded_apply (callee : Value) (args : List Value) (scope : Scope) (pos : Position) :
  (plan setting (apply callee args scope pos)).Guarded none
  := by
  cases callee
  case native =>
    refine ⟨by rintro key ⟨⟩, fun v => ?_⟩
    cases v
    all_goals trivial
  all_goals exact Plain.guarded (plain_plan rfl)

/-- What goes through an array enters no unit itself. -/
theorem guarded_overElements (args : List Value) (scope : Scope) :
  (plan setting (overElements args scope)).Guarded none
  := by
  rcases args with _ | ⟨_ | _ | _ | _ | id | _ | _ | _ | _, _ | ⟨callback, args⟩⟩
  case cons.array.cons =>
    intro elements
    cases callback
    case func => exact fun _ _ => trivial
    case native => exact fun _ => trivial
    all_goals trivial
  all_goals trivial

/-- A native function enters no unit itself. -/
theorem guarded_native (f : Native) (args : List Value) (scope : Scope) :
  (plan setting (native f args scope)).Guarded none
  := by
  rcases nativePlan_cases setting f args scope with ⟨name, rest, -, -, hplan⟩
    | ⟨code, rest, -, -, -, hplan⟩ | ⟨-, hplan⟩ | hplan | ⟨v, -, hplan⟩
  all_goals simp only [plan, hplan]
  case inr.inr.inr.inr => trivial
  all_goals exact fun _ => trivial

/-- An import enters its unit right behind the test that it is not being imported. -/
theorem guarded_unit (name : String) (scope : Scope) :
  (plan setting (unit name scope)).Guarded none
  := by
  simp only [plan]
  rcases setting.unit? name with _ | ⟨key, code⟩
  · trivial
  · intro imported
    cases imported
    · exact ⟨fun _ heq => congrArg some (Bracket.unit.inj heq), fun _ => trivial⟩
    · trivial

/-- No plan enters a unit that is being imported. -/
theorem guarded {y : Yield} (t : Task y) :
  (t.plan setting).Guarded none
  := by
  cases t with
  | statement s scope => exact guarded_statement s scope
  | apply callee args scope pos => exact guarded_apply callee args scope pos
  | native f args scope => exact guarded_native f args scope
  | overElements args scope => exact guarded_overElements args scope
  | forEach callback arity array elements i scope =>
      cases elements with
      | nil => trivial
      | cons element rest =>
          intro v
          cases v
          case error => trivial
          all_goals exact fun _ => trivial
  | call callee args scope =>
      exact fun _ => ⟨by rintro key ⟨⟩, fun _ => trivial⟩
  | text code file scope =>
      refine ⟨fun _ => trivial, ?_⟩
      rcases Program.parse code file with ⟨p, _ | ⟨e, es⟩⟩
      · exact ⟨by rintro key ⟨⟩, fun _ => trivial⟩
      · trivial
  | unit name scope => exact guarded_unit name scope
  | program p scope =>
      refine ⟨by rintro key ⟨⟩, fun v => ?_⟩
      cases v
      all_goals trivial
  | _ => exact Plain.guarded (plain_plan rfl)

end Task

/-- No evaluation enters a unit that is being imported. -/
theorem Program.guarded_plan {setting : Setting σ} (program : Program) (scope : Scope) :
  (program.plan setting scope).Guarded none
  := by
  unfold plan
  split
  · intro v
    cases v
    case error => trivial
    all_goals exact fun _ => trivial
  · exact fun _ => trivial

/-! ### Occasions -/

/-- A moment of a run, with what is in progress. -/
structure Occasion (σ : Type) where
  /-- The files that are in progress, innermost first. -/
  files : List String
  /-- What happens. -/
  moment : Moment σ

/-- The name of the unit that is asked for. -/
def Occasion.asked? (o : Occasion σ) : Option String :=
  match o.moment with
  | .start (.unit name _) _ => some name
  | _ => none

/-- An occasion on which a unit is asked for is the start of its import. -/
theorem Occasion.exists_of_asked? {o : Occasion σ} {name : String} (h : o.asked? = some name) :
  ∃ scope m, o.moment = .start (.unit name scope) m
  := by
  unfold asked? at h
  split at h
  · rename_i name' scope m hmoment
    obtain rfl : name' = name := Option.some.inj h
    exact ⟨scope, m, hmoment⟩
  · cases h

/-- The files that are in progress inside a bracket. -/
def Bracket.files (b : Bracket) (files : List String) : List String :=
  match b with
  | unit key => key :: files
  | _ => files

/-- The occasions of a run from an outcome on that goes on with `next`. -/
def Outcome.occasions {α : Type} (files : List String) (r : Outcome σ α)
    (next : α → Machine σ → List (Occasion σ)) : List (Occasion σ) :=
  ⟨files, .after r.machine⟩ ::
    match r with
    | .ok a m => next a m
    | .error _ _ => []

/-- The occasions of the run of a plan, in which tasks are run by `start` and have the occasions
`inside`. -/
def Plan.occasions (setting : Setting σ) (start : {y : Yield} → Task y → RunOn σ y.Of)
    (inside : List String → {y : Yield} → Task y → Machine σ → List (Occasion σ))
    (files : List String) {α : Type} : Plan α → Machine σ → List (Occasion σ)
  | ret _, _ | leave _, _ | stop _, _ => []
  | act a next, m =>
    Outcome.occasions files (a.run setting m) fun v m' =>
      (next v).occasions setting start inside files m'
  | tick pos next, m =>
    ⟨files, .tick m⟩ ::
      Outcome.occasions files (Run.tick setting pos m) fun _ m' =>
        next.occasions setting start inside files m'
  | room full next, m =>
    ⟨files, .room m⟩ ::
      if setting.options.maxDepth ≤ m.control.depth then
        (full setting.options.maxDepth).occasions setting start inside files m
      else
        next.occasions setting start inside files m
  | call t next, m =>
    inside files t m
      ++ Outcome.occasions files (start t m) fun v m' =>
        (next v).occasions setting start inside files m'
  | within b t next, m =>
    ⟨b.files files, .enter b (b.opened m)⟩ ::
      (inside (b.files files) t (b.opened m)
        ++ Outcome.occasions files (b.outcome m (start t (b.opened m))) fun v m' =>
          (next v).occasions setting start inside files m')

/-- The occasions of the run of a task that is started while `files` are in progress. -/
def Task.occasions (setting : Setting σ) (n : Nat) (files : List String) {y : Yield} (t : Task y)
    (m : Machine σ) : List (Occasion σ) :=
  ⟨files, .start t m⟩ ::
    match n with
    | 0 => []
    | n + 1 =>
      (t.plan setting).occasions setting (Task.run setting n) (Task.occasions setting n) files m

/-- The occasions of an evaluation that is started while `files` are in progress. -/
def Program.occasions (setting : Setting σ) (n : Nat) (files : List String) (program : Program)
    (scope : Scope) (m : Machine σ) : List (Occasion σ) :=
  (program.plan setting scope).occasions setting (Task.run setting n) (Task.occasions setting n)
    files m.anew

/-- The occasions of the run of the script that a path leads to, which is in progress itself. -/
def Setting.occasions (setting : Setting σ) (n : Nat) (path : String) (m : Machine σ) :
    List (Occasion σ) :=
  match setting.disk.program path with
  | .error _ => []
  | .ok program =>
    let (scope, scopes) := m.scopes.enclose [] []
    program.occasions (setting.beside path) n (setting.disk.identity? path).toList scope
      { m with scopes }

section

variable {setting : Setting σ} {files : List String}

/-- The occasions behind an outcome are at the moments behind it. -/
theorem Outcome.map_occasions {α : Type} (r : Outcome σ α)
    {next : α → Machine σ → List (Occasion σ)} {next' : α → Machine σ → List (Moment σ)}
    (hnext : ∀ a m, (next a m).map Occasion.moment = next' a m) :
  (r.occasions files next).map Occasion.moment = r.moments next'
  := by
  cases r with
  | ok a m => exact congrArg (_ :: ·) (hnext a m)
  | error u m => rfl

/-- The occasions of a plan are at its moments. -/
theorem Plan.map_occasions {start : {y : Yield} → Task y → RunOn σ y.Of}
    {inside : List String → {y : Yield} → Task y → Machine σ → List (Occasion σ)}
    {inside' : {y : Yield} → Task y → Machine σ → List (Moment σ)}
    (hinside : ∀ (files : List String) (y : Yield) (t : Task y) (m : Machine σ),
      (inside files t m).map Occasion.moment = inside' t m)
    {α : Type} (p : Plan α) (m : Machine σ) :
  (p.occasions setting start inside files m).map Occasion.moment = p.moments setting start inside' m
  := by
  induction p generalizing m with
  | ret a => rfl
  | leave v => rfl
  | stop f => rfl
  | act a next ih => exact Outcome.map_occasions _ ih
  | tick pos next ih => exact congrArg (_ :: ·) (Outcome.map_occasions _ fun _ => ih)
  | room full next ihfull ih =>
      apply congrArg (_ :: ·)
      split
      · exact ihfull _ m
      · exact ih m
  | call t next ih =>
      simp only [occasions, moments, List.map_append, hinside, Outcome.map_occasions _ ih]
  | within b t next ih =>
      simp only [occasions, moments, List.map_cons, List.map_append, hinside,
        Outcome.map_occasions _ ih]

/-- The occasions of a task are its moments. -/
theorem Task.map_occasions (n : Nat) {y : Yield} (t : Task y) (m : Machine σ) :
  (t.occasions setting n files m).map Occasion.moment = t.moments setting n m
  := by
  induction n generalizing y t m files with
  | zero => rfl
  | succ n ih =>
      exact congrArg (_ :: ·) (Plan.map_occasions (fun _ _ t m => ih t m) (t.plan setting) m)

end

/-! ### What is in progress -/

/-- Whether the units that a machine records as being imported are distinct, and are with `base`
under them the files in progress. -/
structure Machine.Records (base files : List String) (m : Machine σ) : Prop where
  eq : files = m.control.imports ++ base
  distinct : m.control.imports.Nodup

/-- Whether the machine on an occasion records what is in progress. -/
def Occasion.Recorded (base : List String) (o : Occasion σ) : Prop :=
  o.moment.machine.Records base o.files

section

variable {setting : Setting σ} {base files : List String} {m m' : Machine σ}

/-- The record of what is in progress is exact wherever the run stands at the same point. -/
theorem Machine.Records.of_level (h : m.Records base files) (hlevel : m.Level m') :
  m'.Records base files
  := by
  have himports : m'.control.imports = m.control.imports := by rw [hlevel.control]
  constructor
  · rw [himports]
    exact h.eq
  · rw [himports]
    exact h.distinct

/-- The record stays exact when a bracket is entered that is not a unit being imported. -/
theorem Machine.Records.opened (h : m.Records base files) {b : Bracket}
    (hb : ∀ key, b = .unit key → key ∉ m.control.imports) :
  (b.opened m).Records base (b.files files)
  := by
  cases b
  case unit key =>
    constructor
    · exact congrArg (key :: ·) h.eq
    · exact List.nodup_cons.mpr ⟨hb key rfl, h.distinct⟩
  all_goals exact ⟨h.eq, h.distinct⟩

/-- The test whether a unit is being imported reads the record. -/
theorem Action.run_isImported (setting : Setting σ) (key : String) (m : Machine σ) :
  (isImported key).run setting m = .ok (decide (key ∈ m.control.imports)) m
  := rfl

/-- A unit that is found not to be imported is not in the record. -/
theorem Action.not_mem_of_absent? {a : Action} {v : a.Result} {key : String}
    (hrun : a.run setting m = .ok v m') (hv : a.absent? v = some key) :
  key ∉ m'.control.imports
  := by
  unfold absent? at hv
  split at hv
  · cases hv
    rw [run_isImported] at hrun
    injection hrun with hfound hm
    rw [← hm]
    exact of_decide_eq_false hfound
  · cases hv

/-- The record is exact behind an outcome that stands where it was. -/
theorem Machine.Records.behind {α : Type} {r : Outcome σ α}
    {next : α → Machine σ → List (Occasion σ)}
    (hm : m.Records base files) (hlevel : m.Level r.machine)
    (hnext : ∀ v m', r = .ok v m' → m'.Records base files → ∀ o ∈ next v m', o.Recorded base) :
  ∀ o ∈ r.occasions files next, o.Recorded base
  := by
  have hm' := hm.of_level hlevel
  cases r with
  | ok v m' => exact List.forall_mem_cons.mpr ⟨hm', hnext v m' rfl hm'⟩
  | error u m' => exact List.forall_mem_singleton.mpr hm'

/-- The record is exact on all occasions of a guarded plan if it is on those of its tasks. -/
theorem Plan.Guarded.recorded {start : {y : Yield} → Task y → RunOn σ y.Of}
    {inside : List String → {y : Yield} → Task y → Machine σ → List (Occasion σ)}
    (hstart : ∀ (y : Yield) (t : Task y) (m : Machine σ), m.Level (Outcome.machine (start t m)))
    (hinside : ∀ (y : Yield) (t : Task y) (m : Machine σ) (files : List String),
      m.Records base files → ∀ o ∈ inside files t m, o.Recorded base)
    {absent? : Option String} {α : Type} {p : Plan α} (hp : p.Guarded absent?)
    (habsent : ∀ key, absent? = some key → key ∉ m.control.imports) (hm : m.Records base files) :
  ∀ o ∈ p.occasions setting start inside files m, o.Recorded base
  := by
  induction p generalizing absent? m with
  | ret a => exact List.forall_mem_nil _
  | leave v => exact List.forall_mem_nil _
  | stop f => exact List.forall_mem_nil _
  | act a next ih =>
      apply hm.behind (.of_eq ((a.quiet_run setting).control m))
      intro v m' hrun hm'
      exact ih v (hp v) (fun _ => Action.not_mem_of_absent? hrun) hm'
  | tick pos next ih =>
      refine List.forall_mem_cons.mpr ⟨hm, hm.behind (Run.level_tick setting pos m) ?_⟩
      intro _ m' _ hm'
      exact ih hp (by rintro key ⟨⟩) hm'
  | room full next ihfull ih =>
      refine List.forall_mem_cons.mpr ⟨hm, ?_⟩
      split
      · exact ihfull _ (hp.1 _) (by rintro key ⟨⟩) hm
      · exact ih hp.2 (by rintro key ⟨⟩) hm
  | call t next ih =>
      simp only [occasions, List.forall_mem_append]
      refine ⟨hinside _ t m files hm, hm.behind (hstart _ t m) ?_⟩
      intro v m' _ hm'
      exact ih v (hp v) (by rintro key ⟨⟩) hm'
  | within b t next ih =>
      have hopened := hm.opened fun key hb => habsent key (hp.1 key hb)
      simp only [occasions, List.forall_mem_cons, List.forall_mem_append]
      refine ⟨hopened, hinside _ t _ _ hopened,
        hm.behind (b.level_outcome (hstart _ t (b.opened m))) ?_⟩
      intro v m' _ hm'
      exact ih v (hp.2 v) (by rintro key ⟨⟩) hm'

/-- The record is exact on all occasions of a task that starts with an exact one. -/
theorem Task.recorded (n : Nat) {y : Yield} (t : Task y) (hm : m.Records base files) :
  ∀ o ∈ t.occasions setting n files m, o.Recorded base
  := by
  induction n generalizing y t m files with
  | zero => exact List.forall_mem_singleton.mpr hm
  | succ n ih =>
      refine List.forall_mem_cons.mpr ⟨hm, ?_⟩
      exact t.guarded.recorded (fun _ t m => t.level_run setting n m)
        (fun _ t m files hm => ih t hm) (by rintro key ⟨⟩) hm

/-- The record is exact on all occasions of an evaluation. -/
theorem Program.recorded (n : Nat) (program : Program) (scope : Scope) (m : Machine σ) :
  ∀ o ∈ program.occasions setting n files scope m, o.Recorded files
  := by
  have hm : m.anew.Records files files := ⟨rfl, List.nodup_nil⟩
  refine (program.guarded_plan scope).recorded (fun _ t m => t.level_run setting n m)
    (fun _ t m files hm => t.recorded n hm) (by rintro key ⟨⟩) hm

/-! ### Imports of files in progress -/

/-- An import of a unit that is being imported fails at once. -/
theorem Task.ends_circular {name key text : String} {scope : Scope}
    (hunit : setting.unit? name = some (key, text)) (hkey : key ∈ m.control.imports) :
  (unit name scope).Ends setting m (.ok (.failure (.circularImport name)) m)
  := by
  rw [ends_iff]
  simp only [plan, hunit]
  rw [Plan.ends_act, Action.run_isImported, decide_eq_true hkey]
  exact Plan.ends_ret.mpr rfl

end

/-! ### Scripts -/

/-- A path that can be read leads to a place. -/
theorem Disk.exists_resolve {d : Disk} {path text : String} (h : d.read path = .ok text) :
  ∃ place, d.resolve path = .ok place
  := by
  have hlocate : d.locate path = d.resolve path := by
    unfold locate
    split
    · rename_i hlong
      simp only [read, locate, if_pos hlong] at h
      cases h
    · rfl
  simp only [read, hlocate] at h
  cases hplace : d.resolve path with
  | error fault =>
      rw [hplace] at h
      cases h
  | ok place => exact ⟨place, rfl⟩

/-- What can be run as a script has an identity. -/
theorem Disk.exists_identity {d : Disk} {path : String} {program : Program}
    (h : d.program path = .ok program) :
  ∃ script, d.identity? path = some script
  := by
  unfold Disk.program at h
  split at h
  · cases h
  · rename_i text hread
    obtain ⟨place, hresolve⟩ := exists_resolve hread
    refine ⟨identity place, ?_⟩
    unfold identity?
    rw [hresolve]

namespace Setting

/-- On every occasion in the run of a script, the files that are in progress are distinct files that
are being imported and, under them, the script: no import starts a file while an import of it is
in progress, whatever code asks for it and however its path is spelled.  Such an import comes at
once to an error that says so, and nothing has changed.  Only the script itself can be started
while it is in progress, and not again while that import of it is. -/
theorem imports_distinct {setting : Setting σ} {n : Nat} {path : String} {m : Machine σ}
    {o : Occasion σ} (ho : o ∈ setting.occasions n path m) :
  ∃ script imported, setting.disk.identity? path = some script
    ∧ o.files = imported ++ [script] ∧ imported.Nodup
    ∧ ∀ name scope m' file text, o.moment = .start (.unit name scope) m' →
      (setting.beside path).unit? name = some (file, text) → file ∈ imported →
      (Task.unit name scope).Ends (setting.beside path) m'
        (.ok (.failure (.circularImport name)) m')
  := by
  unfold occasions at ho
  split at ho
  · cases ho
  · rename_i program hprogram
    obtain ⟨script, hscript⟩ := Disk.exists_identity hprogram
    rw [hscript] at ho
    have hrecorded := Program.recorded n program _ _ o ho
    refine ⟨script, o.moment.machine.control.imports, hscript, hrecorded.eq,
      hrecorded.distinct, ?_⟩
    intro name scope m' file text hmoment hunit hfile
    rw [hmoment] at hfile
    exact Task.ends_circular hunit hfile

/-- An import under another spelling from a function that is called later. -/
theorem imports_distinct_spelling :
  let disk : Disk := { Disk.empty with files := [(["main.tiny"], "use a; f()".toUTF8),
    (["a.tiny"], "func f() \x7b use \"./a\" \x7d; use \"b\"".toUTF8),
    (["b.tiny"], "f()".toUTF8)] }
  let setting : Setting := ⟨{ Options.standard with useLibrary := false }, Device.standard, disk⟩
  let m : Machine := .initial (.ofLines [])
  ∃ o ∈ setting.occasions 60 "main.tiny" m,
    o.files = ["/home/b.tiny", "/home/a.tiny", "/home/main.tiny"]
    ∧ ∃ scope m', o.moment = .start (.unit "./a" scope) m'
      ∧ (Task.unit "./a" scope).Ends (setting.beside "main.tiny") m'
        (.ok (.failure (.circularImport "./a")) m')
  := by
  intro disk setting m
  have hasked : ∃ o ∈ setting.occasions 60 "main.tiny" m,
      o.asked? = some "./a"
        ∧ o.files = ["/home/b.tiny", "/home/a.tiny"] ++ ["/home/main.tiny"] := by
    decide +kernel
  have hkey : ((setting.beside "main.tiny").unit? "./a").map Prod.fst = some "/home/a.tiny" := by
    decide +kernel
  clear_value disk setting m
  obtain ⟨o, ho, hname, hfiles⟩ := hasked
  obtain ⟨scope, m', hmoment⟩ := Occasion.exists_of_asked? hname
  obtain ⟨⟨file, text⟩, hunit, rfl⟩ := Option.map_eq_some_iff.mp hkey
  obtain ⟨script, imported, -, heq, -, hends⟩ := imports_distinct ho
  obtain ⟨rfl, -⟩ := List.append_inj' (heq.symm.trans hfiles) rfl
  refine ⟨o, ho, hfiles, scope, m', hmoment, ?_⟩
  exact hends "./a" scope m' _ text hmoment hunit (by simp)

/-- A script that imports a unit which imports the script is started while it is in progress. -/
theorem exists_not_distinct :
  let disk : Disk := { Disk.empty with files := [
    (["main.tiny"], "__builtin_print(\"x\"); use b;".toUTF8),
    (["b.tiny"], "use main;".toUTF8)] }
  let setting : Setting := ⟨{ Options.standard with useLibrary := false }, Device.standard, disk⟩
  let m : Machine := .initial (.ofLines [])
  (∃ o ∈ setting.occasions 60 "main.tiny" m, ¬ o.files.Nodup)
  ∧ (Outcome.machine (Run.script setting 60 "main.tiny" m)).streams.out = "xx"
  := by
  decide +kernel

end Setting

end Scriptlet
