import Scriptlet.Proofs.Running.Ending
import Scriptlet.Proofs.Running.Names

/-!
# Functions and scopes last

Arrays and the bindings of names can be changed, functions cannot.  Whatever a task does and however
it ends, afterwards every function that there was is there under its number, and is the same.  The
scopes that there were are there as well, whatever they bind.
-/

namespace Scriptlet

variable {σ : Type}

/-- Whether every function of `h` is the same in `h'`. -/
def Heap.Retains (h h' : Heap) : Prop :=
  ∀ (i : Nat) (f : Closure), h.closures[i]? = some f → h'.closures[i]? = some f

namespace Heap

variable {h h' h'' : Heap}

/-- A heap with the same functions has them all. -/
theorem Retains.of_eq (heq : h'.closures = h.closures) :
  h.Retains h'
  := by
  intro i f hf
  rwa [heq]

/-- A heap has the functions that it has. -/
theorem Retains.refl (h : Heap) :
  h.Retains h
  := .of_eq rfl

/-- Functions that last twice last. -/
theorem Retains.trans (h₁ : h.Retains h') (h₂ : h'.Retains h'') :
  h.Retains h''
  := fun i f hf => h₂ i f (h₁ i f hf)

/-- A new function leaves the others as they are. -/
theorem retains_newClosure (h : Heap) (c : Closure) :
  h.Retains (h.newClosure c).2
  := by
  intro i f hf
  obtain ⟨hi, -⟩ := Array.getElem?_eq_some_iff.mp hf
  change (h.closures.push c)[i]? = some f
  rwa [Array.getElem?_push_lt hi, ← Array.getElem?_eq_getElem hi]

/-- A function that is there is read as the same later. -/
theorem Retains.closure_eq (hh : h.Retains h') {i : Nat} {f : Closure}
    (hf : h.closures[i]? = some f) :
  h'.closure i = f
  := by
  unfold closure
  rw [Array.getD_eq_getD_getElem?, hh i f hf]
  rfl

end Heap

/-- Whether a run changes no functions. -/
def Retaining {α : Type} (r : RunOn σ α) : Prop :=
  ∀ m : Machine σ, m.heap.Retains (Outcome.machine (r m)).heap

namespace Retaining

variable {α β : Type}

/-- A run that leaves the list of functions alone changes none of them. -/
theorem of_eq {r : RunOn σ α} (h : ∀ m, (Outcome.machine (r m)).heap.closures = m.heap.closures) :
  Retaining r
  := fun m => .of_eq (h m)

/-- Changing the scopes changes no function. -/
theorem modifyScopes (f : Scopes → Scopes) :
  Retaining (σ := σ) (Run.modifyScopes f)
  := of_eq fun _ => rfl

/-- Operations change no functions. -/
theorem compositional (setting : Setting σ) :
  Compositional setting setting.terminal fun r _ => Retaining r
  := .of_preorder (R := fun m m' => m.heap.Retains m'.heap) (fun _ _ _ => .trans)
    (fun _ _ _ => .of_eq) fun c m => m.heap.retains_newClosure c

/-- Assigning changes no function. -/
theorem assign (name : String) (v : Value) (scope : Scope) :
  Retaining (σ := σ) (Run.assign name v scope)
  := by
  apply of_eq
  intro m
  change (Outcome.machine
    ((if m.scopes.has scope name then _ else _ : RunOn σ Bool) m)).heap.closures = m.heap.closures
  split
  all_goals rfl

end Retaining

/-- No action changes a function. -/
theorem Action.retaining_run (setting : Setting σ) (a : Action) :
  Retaining (a.run setting)
  := by
  apply (Retaining.compositional setting).action
  · exact fun scope name v _ => .modifyScopes _
  · exact .assign
  · exact fun scope name _ => .modifyScopes _
  · exact fun outer b _ => .of_eq fun _ => rfl

/-! ### Tasks -/

variable {setting : Setting σ}

/-- Counting a step leaves the heap alone. -/
theorem Run.heap_tick (pos : Position) (m : Machine σ) :
  (Outcome.machine (Run.tick setting pos m)).heap = m.heap
  := by
  rw [Run.tick_apply]
  split
  · rfl
  · dsimp only
    split
    all_goals rfl

/-- Counting a step leaves the scopes alone. -/
theorem Run.scopes_tick (pos : Position) (m : Machine σ) :
  (Outcome.machine (Run.tick setting pos m)).scopes = m.scopes
  := by
  rw [Run.tick_apply]
  split
  · rfl
  · dsimp only
    split
    all_goals rfl

/-- That functions last is kept by whatever a plan does. -/
theorem steady_retains (setting : Setting σ) :
  Steady setting fun m m' => m.heap.Retains m'.heap
  where
  refl m := .refl m.heap
  trans := .trans
  act a := a.retaining_run setting
  tick pos m := .of_eq (congrArg Heap.closures (Run.heap_tick pos m))
  within _ _ _ h := h

/-- Whatever a task comes to, every function is the same afterwards. -/
theorem Task.Ends.retains {y : Yield} {t : Task y} {m : Machine σ} {r : Outcome σ y.Of}
    (ht : t.Ends setting m r) :
  m.heap.Retains r.machine.heap
  := by
  obtain ⟨n, rfl, -⟩ := ht
  exact (steady_retains setting).run n t m

/-- That scopes last is kept by whatever a plan does. -/
theorem steady_size (setting : Setting σ) :
  Steady setting fun m m' => m.scopes.tables.size ≤ m'.scopes.tables.size
  where
  refl _ := Nat.le_refl _
  trans := Nat.le_trans
  act a m := (a.confines_run setting m).size
  tick pos m := Nat.le_of_eq (congrArg (·.tables.size) (Run.scopes_tick pos m)).symm
  within _ _ _ h := h

/-- Whatever a task comes to, there are as many scopes afterwards, or more. -/
theorem Task.Ends.size_le {y : Yield} {t : Task y} {m : Machine σ} {r : Outcome σ y.Of}
    (ht : t.Ends setting m r) :
  m.scopes.tables.size ≤ r.machine.scopes.tables.size
  := by
  obtain ⟨n, rfl, -⟩ := ht
  exact (steady_size setting).run n t m

end Scriptlet
