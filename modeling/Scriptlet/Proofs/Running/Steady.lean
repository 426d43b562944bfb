import Scriptlet.Proofs.Running.Moment

/-!
# What every run keeps

A relation between a machine and what becomes of it holds over the run of every task if it holds
over actions and counted steps, and across a bracket whenever it holds inside (`Steady.run`).  Over
an action it holds if it holds over what operations are made of (`Compositional.of_preorder`).
-/

namespace Scriptlet

variable {σ : Type}

/-- Whatever comes out of a bracket, the machine is left as the bracket leaves it. -/
theorem Bracket.machine_outcome (b : Bracket) (m : Machine σ) (r : Outcome σ Value) :
  (b.outcome m r).machine = b.closed m r.machine
  := by
  cases r with
  | ok v m' => rfl
  | error u m' =>
      unfold outcome
      dsimp only
      cases b.land u
      all_goals rfl

/-- Whether a preorder of machines holds over all that is done in a plan without starting a task,
and outside of a bracket if it holds inside. -/
structure Steady (setting : Setting σ) (R : Machine σ → Machine σ → Prop) : Prop where
  refl (m : Machine σ) : R m m
  trans {m₁ m₂ m₃ : Machine σ} : R m₁ m₂ → R m₂ m₃ → R m₁ m₃
  act (a : Action) (m : Machine σ) : R m (Outcome.machine (a.run setting m))
  tick (pos : Position) (m : Machine σ) : R m (Outcome.machine (Run.tick setting pos m))
  within (b : Bracket) {m m' : Machine σ} : R (b.opened m) m' → R m (b.closed m m')

namespace Steady

variable {setting : Setting σ} {R : Machine σ → Machine σ → Prop} {α β : Type}

/-- A steady relation holds over a run and what goes on with it. -/
theorem andThen (hR : Steady setting R) {m : Machine σ} {r : Outcome σ α}
    {next : α → Machine σ → Outcome σ β} (hr : R m r.machine)
    (hnext : ∀ a m', R m' (next a m').machine) :
  R m (r.andThen next).machine
  := by
  cases r with
  | ok a m' => exact hR.trans hr (hnext a m')
  | error u m' => exact hr

/-- What is kept by the tasks that a plan starts is kept by the plan: by induction on the plan. -/
theorem plan (hR : Steady setting R) {start : {y : Yield} → Task y → RunOn σ y.Of}
    (hstart : ∀ (y : Yield) (t : Task y) m, R m (Outcome.machine (start t m))) (p : Plan α)
    (m : Machine σ) :
  R m (Outcome.machine (p.run setting start m))
  := by
  induction p generalizing m with
  | ret a => exact hR.refl m
  | leave v => exact hR.refl m
  | stop f => exact hR.refl m
  | act a next ih =>
      rw [Plan.run_act]
      exact hR.andThen (hR.act a m) ih
  | tick pos next ih =>
      rw [Plan.run_tick]
      exact hR.andThen (hR.tick pos m) fun _ => ih
  | room full next ihfull ih =>
      rw [Plan.run_room]
      split
      · exact ihfull _ m
      · exact ih m
  | call t next ih =>
      rw [Plan.run_call]
      exact hR.andThen (hstart _ t m) ih
  | within b t next ih =>
      rw [Plan.run_within]
      refine hR.andThen ?_ ih
      rw [b.machine_outcome]
      exact hR.within b (hstart _ t _)

/-- However a task ends, the relation holds. -/
theorem run (hR : Steady setting R) (n : Nat) {y : Yield} (t : Task y) (m : Machine σ) :
  R m (Outcome.machine (t.run setting n m))
  := by
  induction n generalizing y t m with
  | zero =>
      rw [Task.run_zero]
      exact hR.refl m
  | succ n ih =>
      rw [Task.run_succ]
      exact hR.plan (fun _ => ih) _ m

end Steady

/-! ### Operations -/

/-- A preorder of machines holds over all operations that bind no names if it holds where neither
names nor functions change and where a function is made. -/
theorem Compositional.of_preorder {setting : Setting σ} {R : Machine σ → Machine σ → Prop}
    (htrans : ∀ m₁ m₂ m₃, R m₁ m₂ → R m₂ m₃ → R m₁ m₃)
    (hsame : ∀ m m' : Machine σ, m'.scopes = m.scopes → m'.heap.closures = m.heap.closures → R m m')
    (hnew : ∀ c m, R m (Outcome.machine (Run.newClosure c m))) :
  Compositional setting setting.terminal fun r _ => ∀ m, R m (Outcome.machine (r m))
  where
  pure _ m := hsame m m rfl rfl
  stop _ m := hsame m m rfl rfl
  bind {_ _ r _ f _} hr hf m := by
    have hm := hr m
    rw [Outcome.bind_apply]
    generalize r m = outcome at hm ⊢
    rcases outcome with ⟨a, m'⟩ | ⟨u, m'⟩
    · exact htrans m m' _ hm (hf a m')
    · exact hm
  get hf _ m := hf m m.streams m
  modifyArray _ _ _ := hsame _ _ rfl rfl
  exchange _ _ := hsame _ _ rfl rfl
  newArray _ _ := hsame _ _ rfl rfl
  newHash _ _ := hsame _ _ rfl rfl
  newClosure := hnew
  answer {_ ask} _ m := by
    rw [Quiet.answer_apply]
    cases ask m.heap
    all_goals exact hsame m m rfl rfl

end Scriptlet
