import Scriptlet.Proofs.Running.Operations

/-!
# Quiet runs

A run is quiet if it leaves where it stands alone, does not depend on how many steps have been
counted, and stops only with a fault or at a comparison that has no answer.  All actions are quiet:
what is counted, nested and imported changes by the steps and the brackets of a plan alone.
-/

namespace Scriptlet

variable {σ : Type}

/-- The outcome with `k` for the number of steps. -/
def Outcome.atSteps {α : Type} (k : Nat) : Outcome σ α → Outcome σ α
  | .ok a m => .ok a (m.atSteps k)
  | .error u m => .error u (m.atSteps k)

/-- Whether two values of a machine cannot be compared. -/
def Machine.Incomparable (m : Machine σ) : Prop :=
  ∃ a b, m.heap.equal? a b = none

/-- Whether a run leaves where it stands and the count of its steps alone. -/
structure Quiet {α : Type} (r : RunOn σ α) : Prop where
  control (m : Machine σ) : (Outcome.machine (r m)).control = m.control
  steps (m : Machine σ) (k : Nat) : r (m.atSteps k) = Outcome.atSteps k (r m)
  stops {m m' : Machine σ} {u : Unwind} :
    r m = .error u m' → (∃ f, u = .fault f) ∨ u = .endless ∧ m'.Incomparable

namespace Quiet

variable {α β : Type}

/-- A run that never stops. -/
theorem of_ok {r : RunOn σ α} (hok : ∀ m, ∃ a m', r m = .ok a m')
    (hcontrol : ∀ m, (Outcome.machine (r m)).control = m.control)
    (hsteps : ∀ m k, r (m.atSteps k) = Outcome.atSteps k (r m)) :
  Quiet r
  := by
  refine ⟨hcontrol, hsteps, fun {m m' u} h => ?_⟩
  obtain ⟨a, m₁, hm⟩ := hok m
  rw [hm] at h
  cases h

/-- Making something without doing anything is quiet. -/
theorem pure (a : α) :
  Quiet (Pure.pure a : RunOn σ α)
  := of_ok (fun _ => ⟨_, _, rfl⟩) (fun _ => rfl) fun _ _ => rfl

/-- Failing is quiet. -/
theorem raise (f : Fault) :
  Quiet (throw (.fault f) : RunOn σ α)
  := by
  refine ⟨fun _ => rfl, fun _ _ => rfl, ?_⟩
  intro m m' u h
  cases h
  exact .inl ⟨f, rfl⟩

/-- Quiet runs one after the other are quiet. -/
theorem bind {r : RunOn σ α} {f : α → RunOn σ β} (hr : Quiet r) (hf : ∀ a, Quiet (f a)) :
  Quiet (r >>= f)
  := by
  constructor
  · intro m
    have hm := hr.control m
    simp only [Bind.bind, EStateM.bind]
    cases hrun : r m with
    | ok a m' =>
        rw [hrun] at hm
        exact ((hf a).control m').trans hm
    | error u m' =>
        rw [hrun] at hm
        exact hm
  · intro m k
    simp only [Bind.bind, EStateM.bind, hr.steps m k]
    rcases r m with ⟨a, m'⟩ | ⟨u, m'⟩
    · exact (hf a).steps m' k
    · rfl
  · intro m m' u h
    simp only [Bind.bind, EStateM.bind] at h
    rcases hrun : r m with ⟨a, m₁⟩ | ⟨u₁, m₁⟩
    · rw [hrun] at h
      exact (hf a).stops h
    · rw [hrun] at h
      cases h
      exact hr.stops hrun

/-- A run that begins by looking at the machine. -/
theorem get {f : Machine σ → RunOn σ α} (hf : ∀ m, Quiet (f m))
    (hk : ∀ m k, f (m.atSteps k) = f m) :
  Quiet (MonadState.get >>= f)
  := by
  constructor
  · intro m
    exact (hf m).control m
  · intro m k
    change f (m.atSteps k) (m.atSteps k) = Outcome.atSteps k (f m m)
    rw [hk]
    exact (hf m).steps m k
  · intro m m' u h
    exact (hf m).stops (m := m) h

/-- Changing the heap is quiet. -/
theorem modifyHeap (f : Heap → Heap) :
  Quiet (σ := σ) (Run.modifyHeap f)
  := of_ok (fun _ => ⟨_, _, rfl⟩) (fun _ => rfl) fun _ _ => rfl

/-- Changing the scopes is quiet. -/
theorem modifyScopes (f : Scopes → Scopes) :
  Quiet (σ := σ) (Run.modifyScopes f)
  := of_ok (fun _ => ⟨_, _, rfl⟩) (fun _ => rfl) fun _ _ => rfl

/-- Asking something of the streams is quiet. -/
theorem exchange (request : σ → α × σ) :
  Quiet (Run.exchange request)
  := of_ok (fun _ => ⟨_, _, rfl⟩) (fun _ => rfl) fun _ _ => rfl

/-- Making an array is quiet. -/
theorem newArray (elements : Array Value) :
  Quiet (σ := σ) (Run.newArray elements)
  := of_ok (fun _ => ⟨_, _, rfl⟩) (fun _ => rfl) fun _ _ => rfl

/-- Making a hash is quiet. -/
theorem newHash (pairs : Pairs) :
  Quiet (σ := σ) (Run.newHash pairs)
  := of_ok (fun _ => ⟨_, _, rfl⟩) (fun _ => rfl) fun _ _ => rfl

/-- Making a function is quiet. -/
theorem newClosure (c : Closure) :
  Quiet (σ := σ) (Run.newClosure c)
  := of_ok (fun _ => ⟨_, _, rfl⟩) (fun _ => rfl) fun _ _ => rfl

/-- Making a scope is quiet. -/
theorem enclose (outer : Scope) (b : Bindings) :
  Quiet (σ := σ) (Run.enclose outer b)
  := of_ok (fun _ => ⟨_, _, rfl⟩) (fun _ => rfl) fun _ _ => rfl

/-- A question about the heap that has no answer stops the run. -/
theorem answer_apply (ask : Heap → Option α) (m : Machine σ) :
  Run.answer ask m
    = match ask m.heap with
      | some a => .ok a m
      | none => .error .endless m
  := by
  unfold Run.answer
  rw [Run.heap_bind]
  cases ask m.heap
  all_goals rfl

/-- A question about the heap that has no answer only if a comparison has none. -/
theorem answer {ask : Heap → Option α}
    (hask : ∀ h, ask h = none → ∃ a b, h.equal? a b = none) :
  Quiet (σ := σ) (Run.answer ask)
  := by
  constructor
  · intro m
    rw [answer_apply]
    cases ask m.heap
    all_goals rfl
  · intro m k
    rw [answer_apply, answer_apply, show (m.atSteps k).heap = m.heap from rfl]
    cases ask m.heap
    all_goals rfl
  · intro m m' u h
    rw [answer_apply] at h
    cases hm : ask m.heap with
    | some a =>
        rw [hm] at h
        cases h
    | none =>
        rw [hm] at h
        cases h
        exact .inr ⟨rfl, hask _ hm⟩

/-- Operations are quiet. -/
theorem compositional (setting : Setting σ) :
  Compositional setting setting.terminal fun r _ => Quiet r
  where
  pure := pure
  stop := raise
  bind := bind
  get hf := get fun m => hf m m.streams
  modifyArray _ _ := modifyHeap _
  exchange _ := exchange _
  newArray := newArray
  newHash := newHash
  newClosure := newClosure
  answer := answer

end Quiet

/-! ### Actions -/

namespace Run

/-- Assigning is quiet. -/
theorem quiet_assign (name : String) (value : Value) (scope : Scope) :
  Quiet (σ := σ) (assign name value scope)
  := by
  apply Quiet.get
  · intro m
    split
    · exact (Quiet.modifyScopes _).bind fun _ => .pure _
    · exact .pure _
  · intro m k
    rfl

end Run

/-- Every action is quiet. -/
theorem Action.quiet_run (setting : Setting σ) (a : Action) :
  Quiet (a.run setting)
  := by
  apply (Quiet.compositional setting).action
  · exact fun scope name v _ => .modifyScopes _
  · exact Run.quiet_assign
  · exact fun scope name _ => .modifyScopes _
  · exact fun outer b _ => .enclose outer b

end Scriptlet
