import Scriptlet.Proofs.Running.Failures
import Scriptlet.Proofs.Running.Steady

/-!
# Balance

Whatever a task does and however it ends, afterwards the run stands where it stood before: the
same calls, units and texts are running, in the same file and at the same site, and only more
steps have been counted.  On the way no more calls and texts are nested than the options allow.

Both follow from how plans use brackets.  Leaving a bracket undoes what entering it did, and a
bracket that nests one level deeper is only entered behind a test that there is room.
-/

namespace Scriptlet

variable {σ : Type}

/-! ### Brackets -/

namespace Machine

/-- Whether `m'` stands at the same point as `m`, with no fewer steps counted. -/
structure Level (m m' : Machine σ) : Prop where
  control : m'.control = { m.control with steps := m'.control.steps }
  steps : m.control.steps ≤ m'.control.steps

/-- A machine stands where it stands. -/
theorem Level.refl (m : Machine σ) :
  m.Level m
  := ⟨rfl, Nat.le_refl _⟩

/-- Who stands at the same point twice stands there. -/
theorem Level.trans {m₁ m₂ m₃ : Machine σ} (h₁ : m₁.Level m₂) (h₂ : m₂.Level m₃) :
  m₁.Level m₃
  := by
  constructor
  · rw [h₂.control, h₁.control]
  · exact Nat.le_trans h₁.steps h₂.steps

/-- Machines that stand at the same point with the same count of steps are level. -/
theorem Level.of_eq {m m' : Machine σ} (h : m'.control = m.control) :
  m.Level m'
  := by
  constructor
  · rw [h]
  · exact Nat.le_of_eq (congrArg Control.steps h.symm)

/-- At the same point as many calls and texts are nested. -/
theorem Level.depth_eq {m m' : Machine σ} (h : m.Level m') :
  m'.control.depth = m.control.depth
  := by
  rw [h.control]
  rfl

end Machine

/-- Counting a step changes nothing but the count. -/
theorem Run.level_tick (setting : Setting σ) (pos : Position) (m : Machine σ) :
  m.Level (Outcome.machine (Run.tick setting pos m))
  := by
  rw [Run.tick_apply]
  split
  · exact .refl m
  · dsimp only
    split
    all_goals exact ⟨rfl, Nat.le_succ _⟩

namespace Bracket

/-- Entering a bracket of a function or a text nests one level deeper, and no other does. -/
theorem depth_opened (b : Bracket) (m : Machine σ) :
  (b.opened m).control.depth = m.control.depth + b.deepens.toNat
  := by
  cases b
  case body f args =>
    change m.control.frames.length + 1 + m.control.sources = _
    simp only [Control.depth, deepens, Bool.toNat_true]
    omega
  all_goals rfl

/-- Where there is room for a bracket that nests one level deeper, the limit of the depth is kept
inside. -/
theorem depth_opened_le {b : Bracket} {m : Machine σ} {limit : Nat}
    (hdepth : m.control.depth ≤ limit) (hroomy : b.deepens → m.control.depth < limit) :
  (b.opened m).control.depth ≤ limit
  := by
  rw [b.depth_opened]
  cases hb : b.deepens with
  | false => exact hdepth
  | true => exact hroomy hb

/-- Entering a bracket counts no step. -/
theorem steps_opened (b : Bracket) (m : Machine σ) :
  (b.opened m).control.steps = m.control.steps
  := by
  cases b
  all_goals rfl

/-- Leaving a bracket undoes what entering it did. -/
theorem level_closed (b : Bracket) {m m' : Machine σ} (h : (b.opened m).Level m') :
  m.Level (b.closed m m')
  := by
  have hcontrol := h.control
  have hsteps := h.steps
  unfold opened at hcontrol hsteps
  unfold closed
  constructor
  · dsimp only at hcontrol ⊢
    rw [hcontrol]
    cases b
    all_goals rfl
  · cases b
    all_goals exact hsteps

/-- If what is run in a bracket comes back to where it started, so does the bracket. -/
theorem level_outcome (b : Bracket) {m : Machine σ} {r : Outcome σ Value}
    (h : (b.opened m).Level r.machine) :
  m.Level (b.outcome m r).machine
  := by
  rw [b.machine_outcome]
  exact b.level_closed h

end Bracket

/-! ### Runs -/

/-- That a run comes back to where it started is kept by whatever a plan does. -/
theorem steady_level (setting : Setting σ) :
  Steady setting Machine.Level
  where
  refl := .refl
  trans := .trans
  act a m := .of_eq ((a.quiet_run setting).control m)
  tick := Run.level_tick setting
  within b := b.level_closed

/-- Every task comes back to where it started, however it ends. -/
theorem Task.level_run (setting : Setting σ) (n : Nat) {y : Yield} (t : Task y) (m : Machine σ) :
  m.Level (Outcome.machine (t.run setting n m))
  := (steady_level setting).run n t m

/-- What follows an outcome that stands where `m₀` did. -/
theorem follows_level {α β : Type} {m₀ m : Machine σ} {r : Outcome σ α} {P : α → Machine σ → Prop}
    (hm : m₀.Level m) (hr : m.Level r.machine) (hP : ∀ a m', m.Level m' → P a m') :
  r.Follows P fun u m' => m₀.Level (Outcome.machine (.error u m' : Outcome σ β))
  := by
  cases r with
  | ok a m' => exact hP a m' hr
  | error u m' => exact hm.trans hr

/-- Tasks are started and end at the same point, at a depth within the limit. -/
def balance (limit : Nat) : Contract σ where
  Given _ := True
  Pre _ m := m.control.depth ≤ limit
  Post _ m r := m.Level r.machine
  Good x := x.machine.control.depth ≤ limit

/-- At the same point the depth is within the limit if it was. -/
theorem good_after {limit : Nat} {m m' : Machine σ} (h : m.Level m')
    (hdepth : m.control.depth ≤ limit) :
  (balance limit).Good (.after m')
  := Nat.le_trans (Nat.le_of_eq h.depth_eq) hdepth

variable {setting : Setting σ}

/-- Every part of an orderly plan ends where it began: by induction on the plan, along which the
depth does not change. -/
theorem Plan.Orderly.obeys_balance {y : Yield} {t : Task y} {g : Progress} {α : Type} {p : Plan α}
    (hp : p.Orderly t g) {m₀ m : Machine σ} (hm : m₀.Level m)
    (hdepth : m.control.depth ≤ setting.options.maxDepth)
    (hroomy : g.roomy → m.control.depth < setting.options.maxDepth) :
  p.Obeys (balance setting.options.maxDepth) setting (fun r => m₀.Level r.machine) m
  := by
  induction p generalizing g m with
  | ret a => exact hm
  | leave v => exact hm
  | stop f => exact hm
  | act a next ih =>
      have hlevel := Machine.Level.of_eq ((a.quiet_run setting).control m)
      refine ⟨good_after hlevel hdepth, follows_level hm hlevel ?_⟩
      intro v m' hm'
      rw [← hm'.depth_eq] at hdepth hroomy
      exact ih v (hp v) (hm.trans hm') hdepth hroomy
  | tick pos next ih =>
      have hlevel := Run.level_tick setting pos m
      refine ⟨hdepth, good_after hlevel hdepth, follows_level hm hlevel ?_⟩
      intro _ m' hm'
      rw [← hm'.depth_eq] at hdepth hroomy
      exact ih hp (hm.trans hm') hdepth hroomy
  | room full next ihfull ih =>
      refine ⟨hdepth, ?_⟩
      split
      · exact ihfull _ (hp.1 _) hm hdepth hroomy
      · rename_i hfull
        exact ih hp.2 hm hdepth fun _ => Nat.lt_of_not_le hfull
  | call t' next ih =>
      refine ⟨fun _ => hdepth, fun r hr => ⟨good_after hr hdepth, follows_level hm hr ?_⟩⟩
      intro v m' hm'
      rw [← hm'.depth_eq] at hdepth hroomy
      exact ih v (hp.2 v) (hm.trans hm') hdepth hroomy
  | within b t' next ih =>
      obtain ⟨hdeepens, -, -, hnext⟩ := hp
      -- A bracket that takes a level has been made where there was room for one.
      have hopened : (b.opened m).control.depth ≤ setting.options.maxDepth :=
        Bracket.depth_opened_le hdepth fun hb => hroomy (hdeepens hb)
      refine ⟨hopened, fun _ => hopened, fun r hr => ?_⟩
      have hlevel : m.Level (Outcome.machine (b.outcome m r)) := b.level_outcome hr
      refine ⟨good_after hlevel hdepth, follows_level hm hlevel ?_⟩
      intro v m' hm'
      rw [← hm'.depth_eq] at hdepth hroomy
      exact ih v (hnext v) (hm.trans hm') hdepth hroomy

/-- All tasks come back to where they started, within the limit of the depth on the way. -/
theorem balance_kept (setting : Setting σ) :
  (balance setting.options.maxDepth).Kept setting
  where
  exhausted _ m _ := Machine.Level.refl m
  start _ _ hdepth := hdepth
  plan t m _ hdepth := t.orderly.obeys_balance (Machine.Level.refl m) hdepth (by rintro ⟨⟩)

/-- However the run of a task ends, the units and calls that are running, the number of texts that
are, the call site and the file are what they were at its start; and at every moment of a run that
starts within the limit of the depth the depth is within the limit. -/
theorem Task.run_balanced (setting : Setting σ) (n : Nat) {y : Yield} (t : Task y) (m : Machine σ)
    (hdepth : m.control.depth ≤ setting.options.maxDepth) :
  (Outcome.machine (t.run setting n m)).control
    = { m.control with steps := (Outcome.machine (t.run setting n m)).control.steps }
  ∧ ∀ x ∈ t.moments setting n m, x.machine.control.depth ≤ setting.options.maxDepth
  := by
  obtain ⟨hlevel, hmoments⟩ := (balance_kept setting).run n t m (fun _ _ _ _ => trivial) hdepth
  exact ⟨hlevel.control, hmoments⟩

/-- A text that is run inside a call, in the file of another unit, and calls a function that calls
itself until there may be no further call. -/
theorem Task.run_balanced_text :
  let setting : Setting := ⟨{ Options.standard with maxDepth := 5 }, Device.standard, .empty⟩
  let m : Machine :=
    { Machine.initial (.ofLines []) with
      scopes := ⟨#[[]]⟩
      control := ⟨["/a.tiny"], [⟨some "g", [.null]⟩], 1, 5, ⟨3, 4⟩, "a"⟩ }
  let t : Task .value := .text "func f() \x7b f() \x7d f()" "<eval>" [0]
  m.control.depth ≤ setting.options.maxDepth
  ∧ (Outcome.machine (t.run setting 50 m)).control
    = { m.control with steps := (Outcome.machine (t.run setting 50 m)).control.steps }
  ∧ (∀ x ∈ t.moments setting 50 m, x.machine.control.depth ≤ setting.options.maxDepth)
  ∧ (∃ x ∈ t.moments setting 50 m, x.machine.control.depth = setting.options.maxDepth)
  ∧ (Outcome.fault? t.settles (t.run setting 50 m)).map Fault.message
    = some "Maximum call depth of 5 exceeded"
  := by
  intro setting m t
  have hdepth : m.control.depth ≤ setting.options.maxDepth := by decide
  have hdeepest : (t.moments setting 50 m).any
      (fun x => x.machine.control.depth == setting.options.maxDepth) = true := by
    decide +kernel
  have hfault : (Outcome.fault? t.settles (t.run setting 50 m)).map Fault.message
      = some "Maximum call depth of 5 exceeded" := by
    decide +kernel
  obtain ⟨hcontrol, hmoments⟩ := Task.run_balanced setting 50 t m hdepth
  obtain ⟨x, hx, hreached⟩ := List.any_eq_true.mp hdeepest
  exact ⟨hdepth, hcontrol, hmoments, ⟨x, hx, eq_of_beq hreached⟩, hfault⟩

end Scriptlet
