import Scriptlet.Proofs.Running.Quiet

/-!
# Moments of a run

What happens while a task is run, in order: the tasks that are started, the brackets that are
entered, the steps that are counted, and the machines in between.

A contract says what a task may rely on, what it comes to and what holds at each moment.  If the
plan of every task obeys the contract, counting on the tasks it starts to keep it, then all runs
keep it (`Contract.Kept.run`).
-/

namespace Scriptlet

variable {σ : Type}

/-! ### Moments -/

/-- Something that happens in a run. -/
inductive Moment (σ : Type) where
  /-- A task is started. -/
  | start {y : Yield} (t : Task y) (m : Machine σ)
  /-- A bracket has been entered. -/
  | enter (b : Bracket) (m : Machine σ)
  /-- A step is about to be counted. -/
  | tick (m : Machine σ)
  /-- It is about to be decided whether one more call or text may be nested. -/
  | room (m : Machine σ)
  /-- An action, a step, a task or a bracket is over. -/
  | after (m : Machine σ)

/-- The machine at a moment. -/
def Moment.machine : Moment σ → Machine σ
  | start _ m | enter _ m | tick m | room m | after m => m

namespace Outcome

variable {α β : Type}

/-- What a run comes to that goes on with `next` after an outcome. -/
def andThen (r : Outcome σ α) (next : α → Machine σ → Outcome σ β) : Outcome σ β :=
  match r with
  | .ok a m => next a m
  | .error u m => .error u m

/-- Two runs one after the other come to what follows the outcome of the first. -/
theorem bind_apply (r : RunOn σ α) (f : α → RunOn σ β) (m : Machine σ) :
  (r >>= f) m = andThen (r m) f
  := by
  simp only [bind, EStateM.bind]
  cases r m
  all_goals rfl

/-- The moments of a run from an outcome on that goes on with `next`. -/
def moments (r : Outcome σ α) (next : α → Machine σ → List (Moment σ)) : List (Moment σ) :=
  .after r.machine ::
    match r with
    | .ok a m => next a m
    | .error _ _ => []

/-- Whether what follows an outcome fulfils `next`, or `stop` if nothing follows. -/
def Follows (r : Outcome σ α) (next : α → Machine σ → Prop)
    (stop : Unwind → Machine σ → Prop) : Prop :=
  match r with
  | .ok a m => next a m
  | .error u m => stop u m

/-- Whether an outcome is the value `true`. -/
def isTrue : Outcome σ Value → Bool
  | .ok (.bool true) _ => true
  | _ => false

/-- An outcome that is tested to be `true` is a machine with that value. -/
theorem exists_of_isTrue {r : Outcome σ Value} (h : r.isTrue = true) :
  ∃ m, r = .ok (.bool true) m
  := by
  unfold isTrue at h
  split at h
  · exact ⟨_, rfl⟩
  · cases h

/-- Whether an outcome is a fault. -/
def isFault : Outcome σ Value → Bool
  | .error (.fault _) _ => true
  | _ => false

/-- An outcome that is tested to be a fault is a machine with one. -/
theorem exists_of_isFault {r : Outcome σ Value} (h : r.isFault = true) :
  ∃ f m, r = .error (.fault f) m
  := by
  unfold isFault at h
  split at h
  · exact ⟨_, _, rfl⟩
  · cases h

end Outcome

namespace Plan

variable (setting : Setting σ)

/-- The moments of the run of a plan, in which tasks are run by `start` and have the moments
`inside`. -/
def moments (start : {y : Yield} → Task y → RunOn σ y.Of)
    (inside : {y : Yield} → Task y → Machine σ → List (Moment σ)) {α : Type} :
    Plan α → Machine σ → List (Moment σ)
  | ret _, _ | leave _, _ | stop _, _ => []
  | act a next, m =>
    Outcome.moments (a.run setting m) fun v m' => (next v).moments start inside m'
  | tick pos next, m =>
    .tick m :: Outcome.moments (Run.tick setting pos m) fun _ m' => next.moments start inside m'
  | room full next, m =>
    .room m ::
      if setting.options.maxDepth ≤ m.control.depth then
        (full setting.options.maxDepth).moments start inside m
      else
        next.moments start inside m
  | call t next, m =>
    inside t m ++ Outcome.moments (start t m) fun v m' => (next v).moments start inside m'
  | within b t next, m =>
    .enter b (b.opened m) ::
      (inside t (b.opened m)
        ++ Outcome.moments (b.outcome m (start t (b.opened m))) fun v m' =>
          (next v).moments start inside m')

variable {setting} {start : {y : Yield} → Task y → RunOn σ y.Of} {α β : Type}

/-- A plan that starts with an action goes on with what that leads to. -/
theorem run_act (a : Action) (next : a.Result → Plan α) (m : Machine σ) :
  (act a next).run setting start m
    = Outcome.andThen (a.run setting m) fun v m' => (next v).run setting start m'
  := Outcome.bind_apply _ _ m

/-- A plan that starts with a counted step goes on if the limit allows it. -/
theorem run_tick (pos : Position) (next : Plan α) (m : Machine σ) :
  (tick pos next).run setting start m
    = Outcome.andThen (Run.tick setting pos m) fun _ m' => next.run setting start m'
  := Outcome.bind_apply _ _ m

/-- A plan that starts with a test for room goes on with one of two plans. -/
theorem run_room (full : Nat → Plan α) (next : Plan α) (m : Machine σ) :
  (room full next).run setting start m
    = if setting.options.maxDepth ≤ m.control.depth then
        (full setting.options.maxDepth).run setting start m
      else
        next.run setting start m
  := by
  change (if setting.options.maxDepth ≤ m.control.depth then _ else _ : RunOn σ α) m = _
  split
  all_goals rfl

/-- A plan that starts with a task goes on with what that comes to. -/
theorem run_call {y : Yield} (t : Task y) (next : y.Of → Plan α) (m : Machine σ) :
  (call t next).run setting start m
    = Outcome.andThen (start t m) fun v m' => (next v).run setting start m'
  := Outcome.bind_apply _ _ m

/-- A plan that starts with a task in a bracket goes on with what the bracket makes of its
outcome. -/
theorem run_within (b : Bracket) (t : Task .value) (next : Value → Plan α) (m : Machine σ) :
  (within b t next).run setting start m
    = Outcome.andThen (b.outcome m (start t (b.opened m))) fun v m' => (next v).run setting start m'
  := Outcome.bind_apply _ _ m

end Plan

/-- The moments of the run of a task with the given fuel. -/
def Task.moments (setting : Setting σ) (n : Nat) {y : Yield} (t : Task y) (m : Machine σ) :
    List (Moment σ) :=
  .start t m ::
    match n with
    | 0 => []
    | n + 1 => (t.plan setting).moments setting (Task.run setting n) (Task.moments setting n) m

/-! ### Contracts -/

/-- What tasks rely on and what their runs come to. -/
structure Contract (σ : Type) where
  /-- What is known of the tasks that are started, besides what they rely on. -/
  Given {y : Yield} : Task y → Prop
  /-- What a task relies on. -/
  Pre {y : Yield} : Task y → Machine σ → Prop
  /-- What the run of a task from a machine comes to. -/
  Post {y : Yield} : Task y → Machine σ → Outcome σ y.Of → Prop
  /-- What holds at each moment. -/
  Good : Moment σ → Prop

/-- Whether a plan that is run from a machine comes to an outcome that fulfils `Q` if the tasks it
starts keep the contract, and starts them so that they do. -/
def Plan.Obeys (C : Contract σ) (setting : Setting σ) {α : Type} (Q : Outcome σ α → Prop) :
    Plan α → Machine σ → Prop
  | ret a, m => Q (.ok a m)
  | leave v, m => Q (.error (.ret v) m)
  | stop f, m => Q (.error (.fault f) m)
  | act a next, m =>
    C.Good (.after (Outcome.machine (a.run setting m)))
    ∧ Outcome.Follows (a.run setting m) (fun v m' => (next v).Obeys C setting Q m')
      fun u m' => Q (.error u m')
  | tick pos next, m =>
    C.Good (.tick m)
    ∧ C.Good (.after (Outcome.machine (Run.tick setting pos m)))
    ∧ Outcome.Follows (Run.tick setting pos m) (fun _ m' => next.Obeys C setting Q m')
      fun u m' => Q (.error u m')
  | room full next, m =>
    C.Good (.room m)
    ∧ if setting.options.maxDepth ≤ m.control.depth then
        (full setting.options.maxDepth).Obeys C setting Q m
      else
        next.Obeys C setting Q m
  | call t next, m =>
    (C.Given t → C.Pre t m)
    ∧ ∀ r, C.Post t m r → C.Good (.after (Outcome.machine r))
      ∧ Outcome.Follows r (fun v m' => (next v).Obeys C setting Q m') fun u m' => Q (.error u m')
  | within b t next, m =>
    C.Good (.enter b (b.opened m))
    ∧ (C.Given t → C.Pre t (b.opened m))
    ∧ ∀ r, C.Post t (b.opened m) r →
      C.Good (.after (Outcome.machine (b.outcome m r)))
      ∧ Outcome.Follows (b.outcome m r) (fun v m' => (next v).Obeys C setting Q m')
        fun u m' => Q (.error u m')

namespace Contract

variable {C : Contract σ} {setting : Setting σ}

/-- Whether the plans of all tasks obey a contract. -/
structure Kept (C : Contract σ) (setting : Setting σ) : Prop where
  /-- A run without fuel keeps the contract. -/
  exhausted {y : Yield} (t : Task y) (m : Machine σ) : C.Pre t m → C.Post t m (.error .exhausted m)
  /-- The start of a task is a good moment. -/
  start {y : Yield} (t : Task y) (m : Machine σ) : C.Pre t m → C.Good (.start t m)
  /-- The plan of a task obeys the contract. -/
  plan {y : Yield} (t : Task y) (m : Machine σ) :
    C.Given t → C.Pre t m → (t.plan setting).Obeys C setting (C.Post t m) m

/-- The tasks that are started in some moments are as given. -/
def GivenIn (C : Contract σ) (l : List (Moment σ)) : Prop :=
  ∀ (y : Yield) (t : Task y) (m : Machine σ), .start t m ∈ l → C.Given t

/-- If the tasks in some moments are as given, then those in the first of them are. -/
theorem GivenIn.left {l₁ l₂ : List (Moment σ)} (h : C.GivenIn (l₁ ++ l₂)) :
  C.GivenIn l₁
  := by
  intro y t m hm
  exact h y t m (List.mem_append_left _ hm)

/-- If the tasks in some moments are as given, then those in the last of them are. -/
theorem GivenIn.right {l₁ l₂ : List (Moment σ)} (h : C.GivenIn (l₁ ++ l₂)) :
  C.GivenIn l₂
  := by
  intro y t m hm
  exact h y t m (List.mem_append_right _ hm)

/-- If the tasks in some moments are as given, then those behind the first of them are. -/
theorem GivenIn.tail {x : Moment σ} {l : List (Moment σ)} (h : C.GivenIn (x :: l)) :
  C.GivenIn l
  := by
  intro y t m hm
  exact h y t m (List.mem_cons_of_mem _ hm)

/-- The first moment of a task is its start. -/
theorem GivenIn.started {n : Nat} {y : Yield} {t : Task y} {m : Machine σ}
    (h : C.GivenIn (t.moments setting n m)) :
  C.Given t
  := by
  apply h y t m
  cases n
  all_goals exact List.mem_cons_self

/-- Whether a run with the given moments keeps a contract. -/
def Keeps (C : Contract σ) {α : Type} (Q : Outcome σ α → Prop) (r : Outcome σ α)
    (l : List (Moment σ)) : Prop :=
  Q r ∧ ∀ x ∈ l, C.Good x

/-- Whether the runs of all tasks with fuel `n` keep a contract. -/
def KeptWithin (C : Contract σ) (setting : Setting σ) (n : Nat) : Prop :=
  ∀ {y : Yield} (t : Task y) (m : Machine σ), C.GivenIn (t.moments setting n m) → C.Pre t m →
    C.Keeps (C.Post t m) (t.run setting n m) (t.moments setting n m)

/-- What follows an outcome keeps a contract. -/
theorem keeps_andThen {α β : Type} {Q : Outcome σ β → Prop} {r : Outcome σ α}
    {next : α → Machine σ → Outcome σ β} {moments : α → Machine σ → List (Moment σ)}
    {P : α → Machine σ → Prop}
    (hnext : ∀ a m, P a m → C.GivenIn (moments a m) → C.Keeps Q (next a m) (moments a m))
    (hgood : C.Good (.after r.machine))
    (hr : r.Follows P fun u m' => Q (.error u m'))
    (hgiven : C.GivenIn (r.moments moments)) :
  C.Keeps Q (r.andThen next) (r.moments moments)
  := by
  cases r with
  | ok a m =>
      obtain ⟨hq, hl⟩ := hnext a m hr hgiven.tail
      exact ⟨hq, List.forall_mem_cons.mpr ⟨hgood, hl⟩⟩
  | error u m =>
      exact ⟨hr, List.forall_mem_singleton.mpr hgood⟩

/-- A plan that obeys a contract keeps it if the tasks it starts do. -/
theorem KeptWithin.plan {n : Nat} (hn : C.KeptWithin setting n) {α : Type}
    {Q : Outcome σ α → Prop} (p : Plan α) (m : Machine σ) (hp : p.Obeys C setting Q m)
    (hgiven : C.GivenIn (p.moments setting (Task.run setting n) (Task.moments setting n) m)) :
  C.Keeps Q (p.run setting (Task.run setting n) m)
    (p.moments setting (Task.run setting n) (Task.moments setting n) m)
  := by
  induction p generalizing m with
  | ret a => exact ⟨hp, List.forall_mem_nil _⟩
  | leave v => exact ⟨hp, List.forall_mem_nil _⟩
  | stop f => exact ⟨hp, List.forall_mem_nil _⟩
  | act a next ih =>
      rw [Plan.run_act]
      simp only [Plan.moments, Plan.Obeys] at hp hgiven ⊢
      exact keeps_andThen ih hp.1 hp.2 hgiven
  | tick pos next ih =>
      rw [Plan.run_tick]
      simp only [Plan.moments, Plan.Obeys] at hp hgiven ⊢
      obtain ⟨hgood, hafter, hnext⟩ := hp
      obtain ⟨hq, hl⟩ := keeps_andThen (fun _ => ih) hafter hnext hgiven.tail
      exact ⟨hq, List.forall_mem_cons.mpr ⟨hgood, hl⟩⟩
  | room full next ihfull ih =>
      rw [Plan.run_room]
      simp only [Plan.moments, Plan.Obeys] at hp hgiven ⊢
      obtain ⟨hgood, hnext⟩ := hp
      have hrest := hgiven.tail
      split
      · rename_i hfull
        rw [if_pos hfull] at hnext hrest
        obtain ⟨hq, hl⟩ := ihfull _ m hnext hrest
        exact ⟨hq, List.forall_mem_cons.mpr ⟨hgood, hl⟩⟩
      · rename_i hfull
        rw [if_neg hfull] at hnext hrest
        obtain ⟨hq, hl⟩ := ih m hnext hrest
        exact ⟨hq, List.forall_mem_cons.mpr ⟨hgood, hl⟩⟩
  | call t next ih =>
      rw [Plan.run_call]
      simp only [Plan.moments, Plan.Obeys] at hp hgiven ⊢
      obtain ⟨hpre, hnext⟩ := hp
      -- The task keeps the contract if it is started as the contract asks, which the plan has seen
      -- to.
      obtain ⟨hpost, hinside⟩ := hn t m hgiven.left (hpre hgiven.left.started)
      obtain ⟨hgood, hfollows⟩ := hnext _ hpost
      obtain ⟨hq, hl⟩ := keeps_andThen ih hgood hfollows hgiven.right
      exact ⟨hq, List.forall_mem_append.mpr ⟨hinside, hl⟩⟩
  | within b t next ih =>
      rw [Plan.run_within]
      simp only [Plan.moments, Plan.Obeys] at hp hgiven ⊢
      obtain ⟨hgood, hpre, hnext⟩ := hp
      have hrest := hgiven.tail
      obtain ⟨hpost, hinside⟩ := hn t _ hrest.left (hpre hrest.left.started)
      obtain ⟨hafter, hfollows⟩ := hnext _ hpost
      obtain ⟨hq, hl⟩ := keeps_andThen ih hafter hfollows hrest.right
      exact ⟨hq, List.forall_mem_cons.mpr ⟨hgood, List.forall_mem_append.mpr ⟨hinside, hl⟩⟩⟩

/-- If the plans of all tasks obey a contract, then all runs keep it. -/
theorem Kept.run (hC : C.Kept setting) (n : Nat) :
  C.KeptWithin setting n
  := by
  induction n with
  | zero =>
      intro y t m _ hpre
      rw [Task.run_zero]
      exact ⟨hC.exhausted t m hpre, List.forall_mem_singleton.mpr (hC.start t m hpre)⟩
  | succ n ih =>
      intro y t m hgiven hpre
      rw [Task.run_succ]
      obtain ⟨hpost, hl⟩ := ih.plan _ m (hC.plan t m hgiven.started hpre) hgiven.tail
      exact ⟨hpost, List.forall_mem_cons.mpr ⟨hC.start t m hpre, hl⟩⟩

end Contract

end Scriptlet
