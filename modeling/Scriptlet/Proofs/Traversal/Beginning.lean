import Scriptlet.Proofs.Traversal.Loop

/-!
# How a traversal begins and ends

The body of a function that goes through an array binds its variable, calls `forEach`, and returns
the variable.  When the first element is come to, what the function works with stands as it should
and is out of reach (`Traversal.Begins.standing`, `Traversal.Begins.sheltered`), and what the
function comes to is what the loop comes to (`Traversal.ends_body`).
-/

namespace Scriptlet

variable {σ : Type}

namespace Traversal

variable {T : Traversal σ} {setting : Setting σ} {i : Nat} {pos : Position} {m m' : Machine σ}
  {done : List (Value × Value)}

/-- Whether the function can be called on a machine: the library is in its scope, there is room for
two calls, nothing leads to what is not there, and nothing is an error. -/
structure Begins (T : Traversal σ) (setting : Setting σ) (i : Nat) (pos : Position)
    (m : Machine σ) : Prop where
  installed : Library.Installed m T.home
  function : m.scopes.get? T.home T.combinator.name = some (.func i)
  room : m.control.depth + 1 < setting.options.maxDepth
  tick : Run.tick setting pos m = .ok () T.start
  closed : m.Closed
  given : ∀ v ∈ T.given, v.Seen (View.all m)
  clean : m.Clean
  values : ∀ v ∈ T.given, v.Clean

/-! ### The arguments -/

/-- The array is the first argument. -/
theorem array_mem_given (T : Traversal σ) :
  .array T.array ∈ T.given
  := by
  unfold given
  split
  all_goals exact List.mem_cons_self

/-- The callback is the second argument. -/
theorem callback_mem_given (T : Traversal σ) :
  T.callback ∈ T.given
  := by
  unfold given
  split
  all_goals exact List.mem_cons_of_mem _ List.mem_cons_self

/-- The value with which `reduce` starts is its third argument. -/
theorem initial_mem_given (hT : T.combinator = .reduce) :
  T.initial ∈ T.given
  := by
  simp [given, hT]

/-! ### The machines at the start -/

/-- The bindings at the start are those of the parameters and the variable. -/
theorem set_own (T : Traversal σ) :
  Bindings.set (.ofList (T.combinator.params.zip T.given)) T.combinator.own (T.own [])
    = T.bindings []
  := by
  unfold given own bindings
  cases T.combinator
  all_goals rfl

/-- The function has made no other one before the loop. -/
theorem closures_begun (T : Traversal σ) :
  T.begun.heap.closures = T.start.heap.closures
  := by
  unfold begun
  dsimp only
  split
  all_goals rfl

/-- The function makes no hashes. -/
theorem hashes_begun (T : Traversal σ) :
  T.begun.heap.hashes = T.start.heap.hashes
  := by
  unfold begun
  dsimp only
  split
  all_goals rfl

/-- Before the loop, `map` and `filter` make an empty array. -/
theorem arrays_begun (hT : T.combinator ≠ .reduce) :
  T.begun.heap.arrays = T.start.heap.arrays.push #[]
  := by
  unfold begun
  dsimp only
  split
  · rfl
  · rfl
  · exact absurd ‹_› hT

/-- The arrays that were there stay as they were. -/
theorem getElem?_arrays_begun {j : Nat} (hj : j < T.start.heap.arrays.size) :
  T.begun.heap.arrays[j]? = T.start.heap.arrays[j]?
  := by
  by_cases hT : T.combinator = .reduce
  · unfold begun
    simp only [hT]
    rfl
  · rw [arrays_begun hT, Array.getElem?_push_lt hj, Array.getElem?_eq_getElem hj]

/-- When the first element is come to, the names of the function are bound as at the start. -/
theorem bindings_opened (T : Traversal σ) :
  T.opened.scopes.tables[T.table]? = some (T.bindings [])
  := Scopes.getElem?_enclose_self T.start.scopes T.home (T.bindings [])

namespace Begins

variable (h : T.Begins setting i pos m)

include h

/-- The step of the call is all that has been counted when the body is begun. -/
theorem exists_start_eq :
  ∃ k, T.start = { m with control := { m.control with steps := k } }
  := Run.exists_eq_of_tick h.tick

/-- What the library has under its name is the function. -/
theorem closure_eq :
  m.heap.closures[i]? = some T.function
  := by
  obtain ⟨j, hj, hclosure⟩ := h.installed.exists_combinator T.combinator
  rw [h.function] at hj
  cases hj
  exact hclosure

/-- The scope of the library was there before that of the body. -/
theorem home_lt :
  ∀ j ∈ T.home, j < T.table
  := by
  obtain ⟨k, hk⟩ := h.exists_start_eq
  obtain ⟨f, hf, hhome⟩ := h.closed.closures i (Array.getElem?_eq_some_iff.mp h.closure_eq).1
  rw [h.closure_eq] at hf
  cases hf
  unfold table
  rw [hk]
  exact hhome

/-- When the loop is begun, the array is as it was at the call. -/
theorem array_opened :
  T.opened.heap.array T.array = m.heap.array T.array
  := by
  obtain ⟨k, hk⟩ := h.exists_start_eq
  have harray : T.array < T.start.heap.arrays.size := by
    rw [hk]
    exact h.given _ T.array_mem_given
  have hstart : T.start.heap.arrays[T.array]? = m.heap.arrays[T.array]? := by rw [hk]
  change T.begun.heap.arrays.getD T.array #[] = m.heap.arrays.getD T.array #[]
  rw [Array.getD_eq_getD_getElem?, Array.getD_eq_getD_getElem?, getElem?_arrays_begun harray,
    hstart]

/-- No value is an error when the body is begun. -/
theorem clean_start :
  T.start.Clean
  := by
  obtain ⟨k, hk⟩ := h.exists_start_eq
  rw [hk]
  exact ⟨h.clean.scopes, h.clean.arrays, h.clean.hashes, h.clean.frames⟩

/-- The elements that the array has at the start are no errors. -/
theorem clean_elements :
  ∀ v ∈ (m.heap.array T.array).toList, v.Clean
  := by
  have hsound : m.Sound (.anywhere ⟨[], ""⟩) := h.clean.sound
  exact fun v hv => hsound.heap.array T.array v (Array.mem_toList_iff.mp hv)

/-- The parameters and the variable start with no errors. -/
theorem clean_bindings :
  Bindings.Clean (T.bindings [])
  := by
  have hown : (T.own []).Clean := by
    unfold own
    split
    · trivial
    · trivial
    · exact h.values _ (initial_mem_given ‹_›)
  rw [← T.set_own]
  exact Bindings.forall_set (Bindings.forall_ofList_zip _ h.values) _ hown

/-- No value is an error when the loop is begun. -/
theorem clean_opened :
  T.opened.Clean
  := by
  have hstart := h.clean_start
  constructor
  · exact hstart.scopes.enclose T.home h.clean_bindings
  · change ∀ es ∈ T.begun.heap.arrays, ∀ v ∈ es, v.Clean
    unfold begun
    dsimp only
    split
    · exact Array.forall_mem_push.mpr ⟨Array.forall_mem_empty _, hstart.arrays⟩
    · exact Array.forall_mem_push.mpr ⟨Array.forall_mem_empty _, hstart.arrays⟩
    · exact hstart.arrays
  · change ∀ pairs ∈ T.begun.heap.hashes, pairs.Clean
    rw [T.hashes_begun]
    exact hstart.hashes
  · exact List.forall_mem_cons.mpr ⟨h.values, hstart.frames⟩

/-- When the loop is begun, the function has all that it works with. -/
theorem standing :
  T.Standing setting [] T.opened
  := by
  obtain ⟨k, hk⟩ := h.exists_start_eq
  have hbindings := T.bindings_opened
  have hinstalled : Library.Installed T.start T.home := by
    rw [hk]
    exact h.installed
  have heach : T.opened.heap.closures = T.start.heap.closures.push T.each := by
    rw [← T.closures_begun]
    rfl
  have hopened : Library.Installed T.opened T.home := by
    refine hinstalled.of_tables ?_ fun j hj => ?_
    · exact (Heap.Retains.of_eq T.closures_begun).trans (T.begun.heap.retains_newClosure T.each)
    · exact Scopes.getElem?_enclose (h.home_lt j hj) T.home _
  constructor
  · exact (Array.getElem?_eq_some_iff.mp hbindings).1
  · rw [get?_scope hbindings, T.get?_bindings_callback]
    rfl
  · rw [get?_scope hbindings, T.get?_bindings_own]
    rfl
  · intro _
    rw [get?_scope hbindings, (T.get?_bindings_native []).1, hopened.get?_push]
    rfl
  · intro hT
    have hcollected : T.collected [] = [] := by
      unfold collected
      split
      all_goals rfl
    change T.begun.heap.arrays[T.start.heap.arrays.size]? = _
    rw [arrays_begun hT, hcollected]
    exact Array.getElem?_push_size
  · rw [heach]
    exact Array.getElem?_push_size
  · exact hopened
  · rfl
  · change ((Bracket.body T.function T.given).opened T.start).control.depth < _
    rw [Bracket.depth_opened, hk]
    exact h.room
  · exact h.clean_opened

/-- When the loop is begun, nothing that was there before the call leads to what the function works
with. -/
theorem sheltered :
  T.Sheltered [] (m.heap.array T.array).toList T.opened
  := by
  obtain ⟨k, hk⟩ := h.exists_start_eq
  intro _
  -- The view is all that was there before the call: what the function makes is new.
  have hclosed : (View.all m).Closed T.start := by
    rw [hk]
    exact h.closed.of_eq rfl rfl h.closed.frames
  have harrays : T.start.heap.arrays.size = m.heap.arrays.size := by rw [hk]
  have hclosures : T.start.heap.closures.size = m.heap.closures.size := by rw [hk]
  have htables : T.start.scopes.tables.size = m.scopes.tables.size := by rw [hk]
  refine ⟨View.all m, ?_, T.bindings_opened, ?_, fun _ => ?_, ?_, fun hT => ?_, ?_⟩
  · refine hclosed.congr (fun j hj => ?_) (fun j _ => ?_) (fun j hj => ?_) (fun j hj => ?_) ?_
    · exact getElem?_arrays_begun (hj.trans_eq harrays.symm)
    · exact congrArg (·[j]?) T.hashes_begun
    · change (T.begun.heap.closures.push T.each)[j]? = _
      rw [T.closures_begun]
      have hj' : j < T.start.heap.closures.size := hj.trans_eq hclosures.symm
      rw [Array.getElem?_push_lt hj', Array.getElem?_eq_getElem hj']
    · exact Scopes.getElem?_enclose (hj.trans_eq htables.symm) T.home _
    · exact List.forall_mem_cons.mpr ⟨h.given, hclosed.frames⟩
  · exact fun hlt => (hlt.trans_eq htables.symm).false
  · exact fun hlt => (hlt.trans_eq harrays.symm).false
  · exact h.given _ T.callback_mem_given
  · exact h.given _ (initial_mem_given hT)
  · intro v hv
    exact h.closed.array (h.given _ T.array_mem_given) v (Array.mem_toList_iff.mp hv)

end Begins

/-! ### The body -/

/-- The machine on which the body is begun, with the parameters bound. -/
def framed (T : Traversal σ) : Machine σ :=
  (Bracket.body T.function T.given).opened
    { T.start with
      scopes := (T.start.scopes.enclose T.home (.ofList (T.combinator.params.zip T.given))).2 }

/-- What the variable starts with. -/
theorem ends_first (T : Traversal σ) (setting : Setting σ) :
  (Task.expr T.combinator.first T.scope).Ends setting T.framed
    (.ok (T.own []) { T.framed with heap := T.begun.heap })
  := by
  obtain ⟨K, home, array, callback, initial, start⟩ := T
  cases K
  case reduce =>
    let T : Traversal σ := ⟨.reduce, home, array, callback, initial, start⟩
    apply Task.Ends.name
    have htable : T.framed.scopes.tables[T.table]?
        = some [("xs", .array array), ("f", callback), ("initial", initial)] :=
      Scopes.getElem?_enclose_self start.scopes home _
    change T.framed.scopes.get? (T.table :: home) "initial" = some initial
    rw [Scopes.get?_cons, Scopes.bound?_of_getElem? htable]
    rfl
  all_goals
    apply Task.ends_iff.mpr
    exact Plan.ends_of_call (Task.ends_all_nil.mpr rfl)
      (Plan.ends_of_act rfl (Plan.ends_ret.mpr rfl))

/-- The variable is bound. -/
theorem ends_define (T : Traversal σ) (setting : Setting σ) (pos : Position) :
  (Task.statement (.define pos T.combinator.own T.combinator.first) T.scope).Ends setting T.framed
    (.ok .null T.begun)
  := by
  have hscopes : T.framed.scopes.define T.scope T.combinator.own (T.own []) = T.begun.scopes := by
    refine (Scopes.define_enclose T.start.scopes T.home _ _ _).trans ?_
    rw [T.set_own]
    rfl
  apply Task.ends_iff.mpr
  refine Plan.ends_of_call (T.ends_first setting) (Plan.ends_of_act rfl (Plan.ends_ret.mpr ?_))
  exact congrArg (fun s => EStateM.Result.ok Value.null { T.begun with scopes := s }) hscopes.symm

/-- The native `forEach` goes through the array. -/
theorem ends_forEach {r : Outcome σ Value} (hm : T.Standing setting done m)
    (hloop : (T.loop (m.heap.array T.array).toList 0).Ends setting m r) :
  (Task.native .forEach [.array T.array, .func T.inner] T.scope).Ends setting m r
  := by
  apply Task.ends_iff.mpr
  apply Task.ends_last.mpr
  apply Task.ends_iff.mpr
  refine Plan.ends_of_act (v := (m.heap.array T.array).toList) rfl ?_
  have heach : (Action.closure T.inner).run setting m = .ok T.each m :=
    congrArg (EStateM.Result.ok · m) (Heap.Retains.closure_eq (.refl _) hm.each)
  exact Plan.ends_of_act heach (Task.ends_last.mpr hloop)

/-- The call of `forEach` in the body comes to what calling the native function does. -/
theorem ends_forEach_expr {r : Outcome σ Value} (hm : T.Standing setting [] T.opened)
    (happly : (Task.apply (.native .forEach) [.array T.array, .func T.inner] T.scope
      T.combinator.site).Ends setting
      { T.begun with heap := (T.begun.heap.newClosure T.each).2 } r)
    (pos₁ pos₂ pos₃ : Position) :
  (Task.expr (.call T.combinator.site (.name pos₁ "forEach")
    [.name pos₂ "xs", .func pos₃ none ["x"] T.combinator.each]) T.scope).Ends setting T.begun r
  := by
  have hforEach : T.opened.scopes.get? T.scope "forEach" = some (.native .forEach) := by
    rw [get?_scope T.bindings_opened, (T.get?_bindings_native []).2]
    exact hm.installed.get?_forEach
  have hxs : T.opened.scopes.get? T.scope "xs" = some (.array T.array) := by
    rw [get?_scope T.bindings_opened]
    unfold bindings
    cases T.combinator
    all_goals rfl
  have hfunc : (Task.expr (.func pos₃ none ["x"] T.combinator.each) T.scope).Ends setting T.begun
      (.ok (.func T.inner) { T.begun with heap := (T.begun.heap.newClosure T.each).2 }) := by
    apply Task.ends_iff.mpr
    refine Plan.ends_of_act rfl (Plan.ends_ret.mpr ?_)
    rw [inner, ← T.closures_begun]
    rfl
  exact .call_expr (.name hforEach) (.all_cons (.name hxs) (.all_singleton hfunc)) happly

/-- What the body comes to, by what the call of `forEach` in it comes to. -/
theorem ends_body {r₁ r : Outcome σ Value} (hm : T.Standing setting [] T.opened)
    (happly : (Task.apply (.native .forEach) [.array T.array, .func T.inner] T.scope
      T.combinator.site).Ends setting
      { T.begun with heap := (T.begun.heap.newClosure T.each).2 } r₁)
    (hbehind : r₁.Follows
      (fun _ m' => ∀ pos pos', (Task.statement (.ret pos (some (.name pos' T.combinator.own)))
        T.scope).Ends setting m' r)
      fun u m' => r = .error u m') :
  (Task.statements T.combinator.body T.scope).Ends setting T.framed r
  := by
  refine (Task.ends_statements_cons (List.cons_ne_nil _ _)).mpr
    ⟨_, T.ends_define setting _, ?_⟩
  refine (Task.ends_statements_cons (List.cons_ne_nil _ _)).mpr
    ⟨r₁, Task.ends_statement_expr.mpr (ends_forEach_expr hm happly ..), ?_⟩
  cases r₁ with
  | ok v m' => exact Task.ends_statements_singleton.mpr (hbehind _ _)
  | error u m' => exact hbehind

/-- If the loop ends, the body returns the variable. -/
theorem Standing.ends_body {pairs : List (Value × Value)} (hm' : T.Standing setting pairs m')
    (hm : T.Standing setting [] T.opened)
    (hloop : (T.loop (T.opened.heap.array T.array).toList 0).Ends setting T.opened (.ok .null m')) :
  (Task.statements T.combinator.body T.scope).Ends setting T.framed
    (.error (.ret (T.own pairs)) ((Bracket.native T.combinator.site).closed T.begun m'))
  := by
  refine Traversal.ends_body hm ((ends_forEach hm hloop).apply_native rfl) fun pos pos' => ?_
  apply Task.ends_iff.mpr
  exact Plan.ends_of_call (.name hm'.own) (Plan.ends_leave.mpr rfl)

/-- If the loop ends with an error, the body stops with it. -/
theorem ends_body_of_error {e : Fault} (hm : T.Standing setting [] T.opened)
    (hloop : (T.loop (T.opened.heap.array T.array).toList 0).Ends setting T.opened
      (.ok (.error e) m')) :
  (Task.statements T.combinator.body T.scope).Ends setting T.framed
    (.error (.fault (e.located T.combinator.site))
      ((Bracket.native T.combinator.site).closed T.begun m'))
  := Traversal.ends_body hm (ends_forEach hm hloop).apply_native_error rfl

/-- A call of the function comes to what its body does. -/
theorem Begins.ends_of_body {r : Outcome σ Value} (h : T.Begins setting i pos m)
    (hbody : (Task.statements T.combinator.body T.scope).Ends setting T.framed r) (scope : Scope) :
  (Task.apply (.func i) T.given scope pos).Ends setting m
    ((Bracket.body T.function T.given).outcome T.start r)
  := by
  have hf : m.heap.closure i = T.function := Heap.Retains.closure_eq (.refl _) h.closure_eq
  have hargs : T.given.length = T.function.params.length := by
    unfold Traversal.given Traversal.function
    cases T.combinator
    all_goals rfl
  exact .of_body hf hargs (Nat.lt_of_succ_lt h.room) h.tick hbody

end Traversal

end Scriptlet
