import Mathlib.Data.Prod.Lex
import Scriptlet.Proofs.Balance
import Scriptlet.Proofs.Running.Fuel

/-!
# Tasks that halt

If the number of steps is limited, every task halts.  What a plan starts is behind a counted step,
of which there are only so many, or nested one level deeper, for which there is only so much room,
or ranks below the task itself.
-/

namespace Scriptlet

variable {σ : Type}

variable {setting : Setting σ} {limit : Nat}

/-- The steps that can still be counted. -/
def Machine.stepsLeft (m : Machine σ) (limit : Nat) : Nat :=
  limit - m.control.steps

/-- The levels that can still be nested. -/
def Machine.levelsLeft (m : Machine σ) (setting : Setting σ) : Nat :=
  setting.options.maxDepth - m.control.depth

/-- Whether less is left to do for `t'` from `m'` on than for `t` from `m` on. -/
def Task.Nearer (setting : Setting σ) (limit : Nat) {y z : Yield} (t' : Task y) (m' : Machine σ)
    (t : Task z) (m : Machine σ) : Prop :=
  m'.stepsLeft limit < m.stepsLeft limit
  ∨ m'.stepsLeft limit ≤ m.stepsLeft limit
    ∧ (m'.levelsLeft setting < m.levelsLeft setting
      ∨ m'.levelsLeft setting = m.levelsLeft setting ∧ t'.Below t)

/-- Later, at the same point, no more steps are left. -/
theorem Machine.Level.stepsLeft_le {m m' : Machine σ} (h : m.Level m') :
  m'.stepsLeft limit ≤ m.stepsLeft limit
  := Nat.sub_le_sub_left h.steps limit

/-- Later, at the same point, as many levels are left. -/
theorem Machine.Level.levelsLeft_eq {m m' : Machine σ} (h : m.Level m') :
  m'.levelsLeft setting = m.levelsLeft setting
  := by
  unfold Machine.levelsLeft
  rw [h.depth_eq]

/-- A bracket that nests one level deeper takes one of the levels that are left. -/
theorem Bracket.levelsLeft_opened (b : Bracket) {m : Machine σ}
    (hroomy : b.deepens → m.control.depth < setting.options.maxDepth) :
  b.deepens ∧ (b.opened m).levelsLeft setting < m.levelsLeft setting
  ∨ b.deepens = false ∧ (b.opened m).levelsLeft setting = m.levelsLeft setting
  := by
  unfold Machine.levelsLeft
  rw [b.depth_opened]
  cases hb : b.deepens with
  | true =>
      have := hroomy hb
      left
      refine ⟨rfl, ?_⟩
      rw [Bool.toNat_true]
      omega
  | false => exact .inr ⟨rfl, rfl⟩

/-- A step that is counted takes from the steps that are left. -/
theorem Run.stepsLeft_tick {pos : Position} {m m' : Machine σ}
    (hlimit : setting.options.maxSteps = some limit) (h : Run.tick setting pos m = .ok () m') :
  m'.stepsLeft limit < m.stepsLeft limit
  := by
  rw [Run.tick_apply, hlimit] at h
  dsimp only at h
  split at h
  · cases h
  · cases h
    unfold Machine.stepsLeft
    dsimp only
    omega

/-- Whether `m` is a machine that the plan of a task run from `m₀` can have come to with the
progress `g`. -/
structure Progress.Reaches (setting : Setting σ) (limit : Nat) (g : Progress) (m₀ m : Machine σ) :
    Prop where
  level : m₀.Level m
  depth : m.control.depth ≤ setting.options.maxDepth
  roomy : g.roomy → m.control.depth < setting.options.maxDepth
  counted : g.counted → m.stepsLeft limit < m₀.stepsLeft limit

/-- A machine at the same point is one that the plan can have come to, when neither a step has been
counted nor room been tested. -/
theorem Progress.Reaches.step {g g' : Progress} {m₀ m m' : Machine σ}
    (h : g.Reaches setting limit m₀ m) (hlevel : m.Level m') (hroomy : g'.roomy = g.roomy)
    (hcounted : g'.counted = g.counted) :
  g'.Reaches setting limit m₀ m'
  where
  level := h.level.trans hlevel
  depth := hlevel.depth_eq ▸ h.depth
  roomy := hlevel.depth_eq ▸ hroomy ▸ h.roomy
  counted hg := Nat.lt_of_le_of_lt hlevel.stepsLeft_le (h.counted (hcounted ▸ hg))

/-- Less is left to do for a task that a plan may start than for the task whose plan it is. -/
theorem Progress.Reaches.nearer {y z : Yield} {t' : Task y} {t : Task z} {g : Progress}
    {m₀ m m' : Machine σ} (h : g.Reaches setting limit m₀ m)
    (hsteps : m'.control.steps = m.control.steps)
    (hlevels : g.counted ∨ m'.levelsLeft setting < m.levelsLeft setting
      ∨ m'.levelsLeft setting = m.levelsLeft setting ∧ t'.Below t) :
  t'.Nearer setting limit m' t m₀
  := by
  have hleft : m'.stepsLeft limit = m.stepsLeft limit := by
    unfold Machine.stepsLeft
    rw [hsteps]
  unfold Task.Nearer
  rw [hleft, ← h.level.levelsLeft_eq]
  rcases hlevels with hcounted | hlevels
  · exact .inl (h.counted hcounted)
  · exact .inr ⟨h.level.stepsLeft_le, hlevels⟩

/-- An orderly plan halts if all tasks halt for which less is left to do. -/
theorem Plan.Orderly.halts {z : Yield} {t : Task z} {g : Progress} {α : Type} {p : Plan α}
    (hp : p.Orderly t g) (hlimit : setting.options.maxSteps = some limit) {m₀ m : Machine σ}
    (hm : g.Reaches setting limit m₀ m)
    (hhalts : ∀ (y : Yield) (t' : Task y) m', m'.control.depth ≤ setting.options.maxDepth →
      t'.Nearer setting limit m' t m₀ → t'.Halts setting m') :
  p.Halts setting m
  := by
  induction p generalizing g m with
  | ret a => trivial
  | leave v => trivial
  | stop f => trivial
  | act a next ih =>
      intro v m' hrun
      have hcontrol := (a.quiet_run setting).control m
      rw [hrun] at hcontrol
      exact ih v (hp v) (hm.step (.of_eq hcontrol) rfl rfl)
  | tick pos next ih =>
      intro m' hrun
      have hlevel := Run.level_tick setting pos m
      rw [hrun] at hlevel
      have hleft := Run.stepsLeft_tick hlimit hrun
      have hm' : g.Reaches setting limit m₀ m' := hm.step hlevel rfl rfl
      exact ih hp ⟨hm'.level, hm'.depth, hm'.roomy, fun _ =>
        Nat.lt_of_lt_of_le hleft hm.level.stepsLeft_le⟩
  | room full next ihfull ih =>
      unfold Halts
      split
      · exact ihfull _ (hp.1 _) hm
      · rename_i hfull
        exact ih hp.2 ⟨hm.level, hm.depth, fun _ => Nat.lt_of_not_le hfull, hm.counted⟩
  | call t' next ih =>
      obtain ⟨hbelow, hnext⟩ := hp
      constructor
      · exact hhalts _ t' m hm.depth
          (hm.nearer rfl (hbelow.imp_right fun hbelow => .inr ⟨rfl, hbelow⟩))
      · intro n v m' hrun
        have hlevel := t'.level_run setting n m
        rw [hrun] at hlevel
        exact ih v (hnext v) (hm.step hlevel rfl rfl)
  | within b t' next ih =>
      obtain ⟨hdeepens, -, hbelow, hnext⟩ := hp
      have hroomy (hb : b.deepens) := hm.roomy (hdeepens hb)
      constructor
      · apply hhalts _ t' _ (Bracket.depth_opened_le hm.depth hroomy)
        apply hm.nearer (b.steps_opened m)
        -- A bracket takes one of the levels that are left, or a step has been counted, or what is
        -- inside is smaller.
        rcases b.levelsLeft_opened hroomy with ⟨-, hlt⟩ | ⟨hb, heq⟩
        · exact .inr (.inl hlt)
        · rw [hb] at hbelow
          rcases hbelow with hcounted | hfalse | hbelow
          · exact .inl hcounted
          · cases hfalse
          · exact .inr (.inr ⟨heq, hbelow⟩)
      · intro n v m' hrun
        have hlevel : m.Level (Outcome.machine (b.run (t'.run setting n) m)) :=
          b.level_outcome (t'.level_run setting n (b.opened m))
        rw [hrun] at hlevel
        exact ih v (hnext v) (hm.step hlevel rfl rfl)

/-- Every task halts if the number of steps is limited: by induction on the steps that are left,
then on the levels, then on the rank of the task. -/
theorem Task.halts (hlimit : setting.options.maxSteps = some limit) {y : Yield} (t : Task y)
    (m : Machine σ) (hdepth : m.control.depth ≤ setting.options.maxDepth) :
  t.Halts setting m
  := by
  apply Halts.of_plan
  apply t.orderly.halts hlimit ⟨.refl m, hdepth, by rintro ⟨⟩, by rintro ⟨⟩⟩
  intro z t' m' hdepth' hnearer
  exact Task.halts hlimit t' m' hdepth'
termination_by (m.stepsLeft limit, m.levelsLeft setting, t.level, t.size)
decreasing_by
  unfold Nearer Below at hnearer
  simp only [Prod.lex_def]
  omega

end Scriptlet
