import Scriptlet.Proofs.Anchors
import Scriptlet.Proofs.Running.Honest

/-!
# Provenance of errors

An error that a program ends with in a scope of its own has a position and a file, and the two
belong together: some program was run under the name of that file during the evaluation and has a
node at the position, or some text was read under it that has its first syntax error there.
-/

namespace Scriptlet

variable {σ : Type}

variable {setting : Setting σ}

/-- A machine without values whose only scope, `[0]`, is empty. -/
def Machine.fresh (streams : σ) : Machine σ :=
  { Machine.initial streams with scopes := ⟨#[[]]⟩ }

/-- The moments of an evaluation. -/
def Program.moments (setting : Setting σ) (n : Nat) (program : Program) (scope : Scope)
    (m : Machine σ) : List (Moment σ) :=
  (program.plan setting scope).moments setting (Task.run setting n) (Task.moments setting n) m.anew

/-- Where the faults of a run with some moments come from: the programs and the texts that were
started in it. -/
def Origins.inMoments (root : Program) (l : List (Moment σ)) : Origins where
  root := root
  Node file pos := ∃ p scope m, .start (.program p scope) m ∈ l ∧ p.file = file ∧ pos ∈ p.positions
  Flaw file e :=
    ∃ code scope m, .start (.text code file scope) m ∈ l
      ∧ (Program.parse code file).2.head? = some e

/-- What is started in some moments is among the origins of their faults. -/
theorem Task.known_inMoments {root : Program} {l : List (Moment σ)} {y : Yield} {t : Task y}
    {m : Machine σ} (ht : .start t m ∈ l) :
  t.Known (.inMoments root l)
  := by
  cases t
  case program p scope => exact fun pos hpos => ⟨p, scope, m, ht, rfl, hpos⟩
  case text code file scope => exact fun e he => ⟨code, scope, m, ht, he⟩
  all_goals trivial

/-- A machine without values is sound. -/
theorem Machine.sound_fresh (o : Origins) (streams : σ) :
  (Machine.fresh streams).anew.Sound o
  where
  heap := ⟨Array.forall_mem_empty _, Array.forall_mem_empty _, Array.forall_mem_empty _⟩
  scopes := Array.forall_mem_push.mpr ⟨List.forall_mem_nil _, Array.forall_mem_empty _⟩
  frames := List.forall_mem_nil _

/-- At the start of an evaluation there is room for the library, and it is not being imported. -/
theorem Program.honest_plan {o : Origins} (scope : Scope) (hdepth : 1 ≤ setting.options.maxDepth) :
  (o.root.plan setting scope).Honest o setting .initial (Value.IfError (Fault.Filed o))
  := by
  unfold plan
  split
  · refine ⟨trivial, fun v hv => ?_⟩
    have hnext : (Plan.call (.program o.root scope) Plan.ret).Honest o setting .initial
        (Value.IfError (Fault.Filed o)) := ⟨.inl rfl, fun _ hv => hv⟩
    cases v
    case error f =>
      rcases hv with hf | ⟨-, hrefused⟩
      · exact hf
      · rcases hrefused _ _ (if_pos rfl) with himports | hfull
        · cases himports
        · exact absurd hfull (Nat.not_le_of_lt hdepth)
    all_goals exact hnext
  · exact ⟨.inl rfl, fun _ hv => hv⟩

/-- An evaluation in a fresh scope keeps to what is sound. -/
theorem Program.sound_moments (hdepth : 1 ≤ setting.options.maxDepth) (n : Nat)
    (program : Program) (streams : σ) :
  let l := program.moments setting n [0] (.fresh streams)
  (soundness (.inMoments program l) setting).Keeps
    (Outcome.Sound (.inMoments program l) (Machine.fresh streams).anew
      (Value.IfError (Fault.Filed (.inMoments program l))))
    (Run.evaluate setting n program [0] (.fresh streams)) l
  := by
  intro l
  have hkept : (soundness (.inMoments program l) setting).KeptWithin setting n :=
    (soundness_kept _ setting).run n
  have hfresh := Machine.sound_fresh (.inMoments program l) streams
  rw [Run.evaluate_apply]
  apply hkept.plan
  · exact (Program.honest_plan [0] hdepth).obeys_soundness hfresh (.refl _)
  · exact fun _ _ _ ht => Task.known_inMoments ht

/-- An error that a program in a fresh scope ends with has a line, a column and a file.  They are
the place of a node of a program that was run in that file during the evaluation: of the program
itself, of a unit run under its name or of a text run by `eval`; or they are the place of a token of
a text that was read under that name and has its first syntax error there. -/
theorem Run.evaluate_located (hdepth : 1 ≤ setting.options.maxDepth) {n : Nat} {program : Program}
    {streams : σ} {f : Fault} {m₁ : Machine σ}
    (hrun : Run.evaluate setting n program [0] (.fresh streams) = .ok (.error f) m₁) :
  ∃ file pos, f.file = some file ∧ f.line = some pos.line ∧ f.column = some pos.column
  ∧ ((∃ p scope m, .start (.program p scope) m ∈ program.moments setting n [0] (.fresh streams)
      ∧ p.ComesFrom setting program ∧ p.file = file ∧ pos ∈ p.positions)
    ∨ ∃ code scope m e,
      .start (.text code file scope) m ∈ program.moments setting n [0] (.fresh streams)
      ∧ setting.Provides file code ∧ (Program.parse code file).2.head? = some e
      ∧ f = .ofSyntaxError e file ∧ ∃ t ∈ Source.listing code, t.position = pos)
  := by
  obtain ⟨hsound, hmoments⟩ := Program.sound_moments hdepth n program streams
  rw [hrun] at hsound
  cases hsound.result with
  | @node file pos cause hnode =>
      obtain ⟨p, scope, m, hp, hfile, hpos⟩ := hnode
      have hfrom : p.ComesFrom setting program := (hmoments _ hp).2
      exact ⟨file, pos, rfl, rfl, rfl, .inl ⟨p, scope, m, hp, hfrom, hfile, hpos⟩⟩
  | @flaw file e hflaw =>
      obtain ⟨code, scope, m, htext, he⟩ := hflaw
      have hprovides : setting.Provides file code := (hmoments _ htext).2
      exact ⟨file, e.position, rfl, rfl, rfl, .inr ⟨code, scope, m, e, htext, hprovides, he, rfl,
        Program.exists_token_of_error (List.mem_of_mem_head? he)⟩⟩

/-- The text of the error that a run ends with, if it ends with one. -/
def Outcome.report? : Outcome σ Value → Option String
  | .ok (.error f) _ => some f.text
  | _ => none

/-- What reports an error has ended with one. -/
theorem Outcome.exists_of_report? {r : Outcome σ Value} {text : String}
    (h : r.report? = some text) :
  ∃ f m, r = .ok (.error f) m ∧ f.text = text
  := by
  unfold report? at h
  split at h
  · exact ⟨_, _, rfl, Option.some.inj h⟩
  · cases h

/-- A function that comes from a text run by `eval` and fails when the program calls it. -/
theorem Run.evaluate_located_closure :
  let setting : Setting :=
    ⟨{ Options.standard with useLibrary := false, allowEval := true }, Device.standard, .empty⟩
  let program := (Program.parse "eval(\"func f() \x7b missing \x7d\"); f()" "main.tiny").1
  1 ≤ setting.options.maxDepth
  ∧ ∃ f m₁, Run.evaluate setting 40 program [0] (.fresh (.ofLines [])) = .ok (.error f) m₁
    ∧ f.text = "Undefined name 'missing' at <eval> 1:12"
    ∧ ∃ file, ∃ pos : Position,
      f.file = some file ∧ f.line = some pos.line ∧ f.column = some pos.column
  := by
  intro setting program
  have hdepth : 1 ≤ setting.options.maxDepth := by decide
  have hreport : Outcome.report? (Run.evaluate setting 40 program [0] (.fresh (.ofLines [])))
      = some "Undefined name 'missing' at <eval> 1:12" := by
    decide +kernel
  obtain ⟨f, m₁, hrun, htext⟩ := Outcome.exists_of_report? hreport
  obtain ⟨file, pos, hfile, hline, hcolumn, -⟩ := Run.evaluate_located hdepth hrun
  exact ⟨hdepth, f, m₁, hrun, htext, file, pos, hfile, hline, hcolumn⟩

end Scriptlet
