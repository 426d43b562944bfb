import Scriptlet.Proofs.Traversal.Calls

/-!
# What is done with one element

The function that `map`, `filter` and `reduce` hand to `forEach` calls the callback and makes
something of what it returns, if it returns, and ends as the call does otherwise
(`Traversal.ends_each`).
-/

namespace Scriptlet

variable {σ : Type}

namespace Traversal

variable {T : Traversal σ} {x : Nat} {done : List (Value × Value)} {v w : Value} {m m' : Machine σ}
  {setting : Setting σ}

/-- Whether the names that the function uses can be read on a machine, where the callback is called
for `v`: the element in table `x`, its variables, and `push`. -/
structure Ready (T : Traversal σ) (x : Nat) (done : List (Value × Value)) (v : Value)
    (m : Machine σ) : Prop where
  element : m.scopes.get? (x :: T.scope) "x" = some v
  callback : m.scopes.get? (x :: T.scope) T.combinator.callback = some T.callback
  own : m.scopes.get? (x :: T.scope) T.combinator.own = some (T.own done)
  push : T.combinator ≠ .reduce → m.scopes.get? (x :: T.scope) "push" = some (.native .push)

/-! ### The function that is handed to `forEach` -/

/-- What the function returns for an element for which the callback has returned `w`. -/
def gave (T : Traversal σ) (w : Value) : Value :=
  match T.combinator with
  | .map => .array T.result
  | .filter => if w.truthy then .array T.result else .null
  | .reduce => w

/-- What the function returns for a value that is no error is no error. -/
theorem clean_gave (hw : w.Clean) :
  (T.gave w).Clean
  := by
  unfold gave
  split
  · trivial
  · split
    all_goals trivial
  · exact hw

/-- What `push(result, e)` comes to. -/
theorem ends_push_result {scope : Scope} {id : Nat} {e : Expr} {pos pos₁ pos₂ : Position}
    (hpush : m.scopes.get? scope "push" = some (.native .push))
    (hresult : m.scopes.get? scope "result" = some (.array id))
    (he : (Task.expr e scope).Ends setting m (.ok w m')) :
  (Task.expr (.call pos (.name pos₁ "push") [.name pos₂ "result", e]) scope).Ends setting m
    (.ok (.array id) { m' with heap := m'.heap.modifyArray id (· ++ #[w]) })
  := .call_expr (.name hpush) (.all_cons (.name hresult) (.all_singleton he)) (Task.ends_push ..)

/-- The block in which `filter` keeps an element. -/
theorem ends_keep (hpush : m.scopes.get? (x :: T.scope) "push" = some (.native .push))
    (hresult : m.scopes.get? (x :: T.scope) "result" = some (.array T.result))
    (helement : m.scopes.get? (x :: T.scope) "x" = some v) :
  (Task.statements
    [.expr ⟨29, 24⟩ (.call ⟨29, 28⟩ (.name ⟨29, 24⟩ "push")
      [.name ⟨29, 29⟩ "result", .name ⟨29, 37⟩ "x"])]
    (m.scopes.tables.size :: x :: T.scope)).Ends setting
    { m with scopes := (m.scopes.enclose T.scope []).2 }
    (.ok (.array T.result)
      { m with
        heap := m.heap.modifyArray T.result (· ++ #[v])
        scopes := (m.scopes.enclose T.scope []).2 })
  := by
  have hread (name : String) :
      (m.scopes.enclose T.scope []).2.get? (m.scopes.tables.size :: x :: T.scope) name
        = m.scopes.get? (x :: T.scope) name := m.scopes.get?_enclose (x :: T.scope) name
  apply Task.ends_statements_singleton.mpr
  apply Task.ends_statement_expr.mpr
  refine ends_push_result ((hread "push").trans hpush) ((hread "result").trans hresult) (.name ?_)
  exact (hread "x").trans helement

section

variable {r : Outcome σ Value} (h : T.Ready x done v m)
  (hcall : (Task.apply T.callback (T.args done v) (x :: T.scope) T.combinator.pos).Ends setting m r)

include h

/-- The arguments `(x)`. -/
theorem ends_all_element (pos : Position) :
  (Task.all [.name pos "x"] (x :: T.scope)).Ends setting m (.ok [v] m)
  := .all_singleton (.name h.element)

include hcall

/-- For an element, `map` pushes what the callback returns. -/
theorem ends_each_map (hT : T.combinator = .map) :
  (Task.statements T.combinator.each (x :: T.scope)).Ends setting m
    (r.andThen fun w m' => .ok (T.gave w) (T.took v w m'))
  := by
  obtain ⟨K, home, array, callback, initial, start⟩ := T
  obtain rfl : K = .map := hT
  let T : Traversal σ := ⟨.map, home, array, callback, initial, start⟩
  apply Task.ends_statements_singleton.mpr
  apply Task.ends_statement_expr.mpr
  have hf : (Task.expr (.call ⟨22, 41⟩ (.name ⟨22, 40⟩ "f") [.name ⟨22, 42⟩ "x"])
      (x :: T.scope)).Ends setting m r :=
    .call_expr (.name h.callback) (ends_all_element h _) hcall
  have hpush := h.push (by simp)
  cases r with
  | ok w m' => exact ends_push_result hpush h.own hf
  | error u m' =>
      refine Task.ends_call_expr.mpr ⟨_, .name hpush, .error u m', ?_, rfl⟩
      refine Task.ends_all_cons.mpr ⟨_, .name h.own, .error u m', ?_, rfl⟩
      exact Task.ends_all_cons.mpr ⟨_, hf, rfl⟩

variable (hspares : ∀ w m', r = .ok w m' → T.Spares x m m')

include hspares

/-- For an element, `reduce` assigns what the callback returns to its variable. -/
theorem ends_each_reduce (hT : T.combinator = .reduce) :
  (Task.statements T.combinator.each (x :: T.scope)).Ends setting m
    (r.andThen fun w m' => .ok (T.gave w) (T.took v w m'))
  := by
  obtain ⟨K, home, array, callback, initial, start⟩ := T
  obtain rfl : K = .reduce := hT
  let T : Traversal σ := ⟨.reduce, home, array, callback, initial, start⟩
  apply Task.ends_statements_singleton.mpr
  apply Task.ends_statement_expr.mpr
  have hargs : (Task.all [.name ⟨36, 35⟩ "acc", .name ⟨36, 40⟩ "x"] (x :: T.scope)).Ends setting m
      (.ok [T.latest done, v] m) :=
    .all_cons (.name h.own) (ends_all_element h _)
  have hf : (Task.expr (.call ⟨36, 34⟩ (.name ⟨36, 33⟩ "f")
      [.name ⟨36, 35⟩ "acc", .name ⟨36, 40⟩ "x"]) (x :: T.scope)).Ends setting m r :=
    .call_expr (.name h.callback) hargs hcall
  apply Task.ends_iff.mpr
  refine Plan.ends_call.mpr ⟨r, hf, ?_⟩
  cases r with
  | ok w m' =>
      have hholder : m'.scopes.holder? (x :: T.scope) "acc" = some T.table :=
        (hspares w m' rfl).holder rfl
      exact Plan.ends_of_act (Run.assign_of_holder? hholder w) (Plan.ends_ret.mpr rfl)
  | error u m' => rfl

/-- For an element, `filter` pushes it if what the callback returns is truthy. -/
theorem ends_each_filter (hT : T.combinator = .filter) :
  (Task.statements T.combinator.each (x :: T.scope)).Ends setting m
    (r.andThen fun w m' => .ok (T.gave w) (T.took v w m'))
  := by
  obtain ⟨K, home, array, callback, initial, start⟩ := T
  obtain rfl : K = .filter := hT
  let T : Traversal σ := ⟨.filter, home, array, callback, initial, start⟩
  apply Task.ends_statements_singleton.mpr
  apply Task.ends_statement_expr.mpr
  have hf : (Task.expr (.call ⟨29, 17⟩ (.name ⟨29, 13⟩ "keep") [.name ⟨29, 18⟩ "x"])
      (x :: T.scope)).Ends setting m r :=
    .call_expr (.name h.callback) (ends_all_element h _) hcall
  apply Task.ends_iff.mpr
  refine Plan.ends_call.mpr ⟨r, hf, ?_⟩
  cases r with
  | ok w m' =>
      change Plan.Ends setting (if w.truthy then _ else _) m' _
      unfold Outcome.andThen gave took
      dsimp only
      split
      · have hinside : ∀ name ∈ ["x", "push", "result"],
            m'.scopes.get? (x :: T.scope) name = m.scopes.get? (x :: T.scope) name :=
          (hspares w m' rfl).inside
        apply Task.ends_last.mpr
        apply Task.ends_iff.mpr
        refine Plan.ends_of_act rfl (Task.ends_last.mpr (ends_keep (T := T) ?_ ?_ ?_))
        · exact (hinside "push" (by decide)).trans (h.push (by simp))
        · exact (hinside "result" (by decide)).trans h.own
        · exact (hinside "x" (by decide)).trans h.element
      · exact Plan.ends_ret.mpr rfl
  | error u m' => rfl

/-- What the function comes to is made of what the callback comes to. -/
theorem ends_each :
  (Task.statements T.combinator.each (x :: T.scope)).Ends setting m
    (r.andThen fun w m' => .ok (T.gave w) (T.took v w m'))
  := by
  obtain hT | hT | hT : T.combinator = .map ∨ T.combinator = .filter ∨ T.combinator = .reduce := by
    cases T.combinator
    all_goals simp
  · exact ends_each_map h hcall hT
  · exact ends_each_filter h hcall hspares hT
  · exact ends_each_reduce h hcall hspares hT

end

end Traversal

end Scriptlet
