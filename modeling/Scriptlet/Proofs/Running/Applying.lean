import Scriptlet.Proofs.Running.Ending

/-!
# Calls

What names and calls come to, with the functions of the program and with native ones.
-/

namespace Scriptlet

variable {σ : Type}

/-- Reading the machine hands it on. -/
theorem Run.get_bind_apply {α : Type} (f : Machine σ → RunOn σ α) (m : Machine σ) :
  (get >>= f) m = f m m
  := rfl

/-- A name stands for what the scopes bind it to. -/
theorem Run.lookUp_of_get? {name : String} {scope : Scope} {m : Machine σ} {v : Value}
    (h : m.scopes.get? scope name = some v) (pos : Position) :
  Run.lookUp name scope pos m = .ok v m
  := by
  rw [Run.lookUp, Run.get_bind_apply, h]
  rfl

/-- A name that no scope has stands for the native function of that name. -/
theorem Run.lookUp_native {name : String} {scope : Scope} {m : Machine σ} {f : Native}
    (h : m.scopes.get? scope name = none) (hf : Native.ofName? name = some f) (pos : Position) :
  Run.lookUp name scope pos m = .ok (.native f) m
  := by
  rw [Run.lookUp, Run.get_bind_apply, h]
  dsimp only
  rw [hf]
  rfl

/-- Assigning changes the innermost scope that has the name. -/
theorem Run.assign_of_holder? {name : String} {scope : Scope} {id : Nat} {m : Machine σ}
    (h : m.scopes.holder? scope name = some id) (v : Value) :
  Run.assign name v scope m = .ok true { m with scopes := m.scopes.modify id (·.set name v) }
  := by
  change (if m.scopes.has scope name then _ else _ : RunOn σ Bool) m = _
  rw [Scopes.has, h]
  change EStateM.Result.ok true { m with scopes := m.scopes.update scope name v } = _
  rw [Scopes.update, h]

namespace Task

variable {setting : Setting σ} {scope : Scope} {m m₁ m₂ : Machine σ} {pos : Position} {v w : Value}

/-- A name comes to what the scopes bind it to. -/
theorem Ends.name {x : String} (hx : m.scopes.get? scope x = some v) :
  (expr (.name pos x) scope).Ends setting m (.ok v m)
  := by
  apply ends_iff.mpr
  exact Plan.ends_of_act (Run.lookUp_of_get? hx pos) (Plan.ends_ret.mpr rfl)

/-- A statement that is an expression comes to what the expression does. -/
theorem ends_statement_expr {e : Expr} {r : Outcome σ Value} :
  (statement (.expr pos e) scope).Ends setting m r ↔ (expr e scope).Ends setting m r
  := ends_iff.trans ends_last

/-- A call comes to what is called first, then to its arguments, and then to what applying the one
to the others does. -/
theorem ends_call_expr {callee : Expr} {args : List Expr} {r : Outcome σ Value} :
  (expr (.call pos callee args) scope).Ends setting m r
    ↔ Outcome.Then ((expr callee scope).Ends setting m)
      (fun f m₁ => Outcome.Then ((all args scope).Ends setting m₁)
        fun vs m₂ => (apply f vs scope pos).Ends setting m₂) r
  := by
  refine ends_iff.trans (Plan.ends_call.trans ?_)
  refine Outcome.then_congr fun f m₁ _ => Plan.ends_call.trans ?_
  exact Outcome.then_congr fun vs m₂ _ => ends_last

/-- No expressions come to no values. -/
theorem ends_all_nil {r : Outcome σ (List Value)} :
  (all [] scope).Ends setting m r ↔ r = .ok [] m
  := ends_iff.trans Plan.ends_ret

/-- Expressions come to the value of the first one, and then to those of the others. -/
theorem ends_all_cons {e : Expr} {rest : List Expr} {r : Outcome σ (List Value)} :
  (all (e :: rest) scope).Ends setting m r
    ↔ Outcome.Then ((expr e scope).Ends setting m)
      (fun v m₁ => Outcome.Then ((all rest scope).Ends setting m₁)
        fun values m₂ r => r = .ok (v :: values) m₂) r
  := by
  refine ends_iff.trans (Plan.ends_call.trans ?_)
  refine Outcome.then_congr fun v m₁ _ => Plan.ends_call.trans ?_
  exact Outcome.then_congr fun values m₂ _ => Plan.ends_ret

/-- A call whose callee and arguments come to values. -/
theorem Ends.call_expr {callee : Expr} {args : List Expr} {f : Value} {vs : List Value}
    {r : Outcome σ Value} (hcallee : (expr callee scope).Ends setting m (.ok f m₁))
    (hargs : (all args scope).Ends setting m₁ (.ok vs m₂))
    (happly : (apply f vs scope pos).Ends setting m₂ r) :
  (expr (.call pos callee args) scope).Ends setting m r
  := ends_call_expr.mpr ⟨_, hcallee, _, hargs, happly⟩

/-- If the first expression and the others come to values, then all of them do. -/
theorem Ends.all_cons {e : Expr} {rest : List Expr} {vs : List Value}
    (he : (expr e scope).Ends setting m (.ok v m₁))
    (hrest : (all rest scope).Ends setting m₁ (.ok vs m₂)) :
  (all (e :: rest) scope).Ends setting m (.ok (v :: vs) m₂)
  := ends_all_cons.mpr ⟨_, he, _, hrest, rfl⟩

/-- A single expression comes to its value alone. -/
theorem Ends.all_singleton {e : Expr} (he : (expr e scope).Ends setting m (.ok v m₁)) :
  (all [e] scope).Ends setting m (.ok [v] m₁)
  := he.all_cons (ends_all_nil.mpr rfl)

/-- The call of a native function that returns a value. -/
theorem Ends.apply_native {f : Native} {args : List Value}
    (h : (native f args scope).Ends setting ((Bracket.native pos).opened m) (.ok v m₁))
    (hv : v.isError = false) :
  (apply (.native f) args scope pos).Ends setting m (.ok v ((Bracket.native pos).closed m m₁))
  := by
  apply ends_iff.mpr
  apply Plan.ends_of_within h
  cases v
  case error => cases hv
  all_goals exact Plan.ends_ret.mpr rfl

/-- The call of a native function that returns an error stops with it. -/
theorem Ends.apply_native_error {f : Native} {args : List Value} {e : Fault}
    (h : (native f args scope).Ends setting ((Bracket.native pos).opened m) (.ok (.error e) m₁)) :
  (apply (.native f) args scope pos).Ends setting m
    (.error (.fault (e.located pos)) ((Bracket.native pos).closed m m₁))
  := by
  apply ends_iff.mpr
  exact Plan.ends_of_within h (Plan.ends_stop.mpr rfl)

/-- A native function that starts no task. -/
theorem Ends.native {f : Native} {args : List Value}
    (hplan : (native f args scope).plan setting = .act (.native f args scope) .ret)
    (hrun : (Action.native f args scope).run setting m = .ok v m₁) :
  (native f args scope).Ends setting m (.ok v m₁)
  := by
  apply ends_iff.mpr
  rw [hplan]
  exact Plan.ends_of_act hrun (Plan.ends_ret.mpr rfl)

/-- The native function that pushes puts a value behind the others of the array, and comes to the
array. -/
theorem ends_push (id : Nat) (v : Value) (scope : Scope) (pos : Position) :
  (apply (.native .push) [.array id, v] scope pos).Ends setting m
    (.ok (.array id) { m with heap := m.heap.modifyArray id (· ++ #[v]) })
  := by
  let inside := (Bracket.native pos).opened m
  have hrun : (Action.native .push [.array id, v] scope).run setting inside
      = .ok (.array id) { inside with heap := m.heap.modifyArray id (· ++ #[v]) } := rfl
  exact (Ends.native rfl hrun).apply_native rfl

/-- The native function that assigns changes the innermost scope that has the name, and comes to the
value. -/
theorem ends_update {x : String} {id : Nat} (h : m.scopes.holder? scope x = some id)
    (hv : v.isError = false) (pos : Position) :
  (apply (.native .update) [.str x, v] scope pos).Ends setting m
    (.ok v { m with scopes := m.scopes.modify id (·.set x v) })
  := by
  let inside := (Bracket.native pos).opened m
  have hrun : (Action.native .update [.str x, v] scope).run setting inside
      = .ok v { inside with scopes := m.scopes.modify id (·.set x v) } := by
    change (Run.assign x v scope >>= _) inside = _
    rw [Outcome.bind_apply, Run.assign_of_holder? (m := inside) h]
    rfl
  exact (Ends.native rfl hrun).apply_native hv

/-- A call of a function of the program comes to what its body does. -/
theorem Ends.of_body {id : Nat} {f : Closure} {args : List Value} {r : Outcome σ Value}
    (hf : m.heap.closure id = f) (hargs : args.length = f.params.length)
    (hdepth : m.control.depth < setting.options.maxDepth)
    (htick : Run.tick setting pos m = .ok () m₁)
    (hbody : (statements f.body (m₁.scopes.tables.size :: f.scope)).Ends setting
      ((Bracket.body f args).opened
        { m₁ with scopes := (m₁.scopes.enclose f.scope (.ofList (f.params.zip args))).2 }) r) :
  (apply (.func id) args scope pos).Ends setting m ((Bracket.body f args).outcome m₁ r)
  := by
  apply ends_iff.mpr
  apply ends_last.mpr
  apply ends_iff.mpr
  refine Plan.ends_of_act (v := f) (congrArg (EStateM.Result.ok · m) hf) ?_
  rw [if_neg (not_not_intro hargs), Plan.ends_room, if_neg (Nat.not_le_of_lt hdepth)]
  apply Plan.ends_of_tick htick
  exact Plan.ends_of_act rfl (Plan.ends_within_last hbody)

end Task

end Scriptlet
