import Scriptlet.Proofs.Traversal.Rounds

/-!
# Going on from element to element

Between two calls of the callback what the function works with can be read as it was left by the
last one (`Traversal.Standing`).  Either the callback is a native function that works on the scope
of its caller, and then it is asked that it leaves this alone, or it is out of all that the callback
can reach (`Traversal.Hidden`).  Both are kept from element to element, so `forEach` comes to what
the calls do (`Traversal.Calls.passes`).
-/

namespace Scriptlet

variable {σ : Type}

namespace Traversal

variable {T : Traversal σ} {setting : Setting σ} {done : List (Value × Value)} {rest : List Value}
  {m m₁ m₂ m' : Machine σ} {v w : Value}

/-- Whether what the function works with is on a machine as it is when the callback has been called
for the elements in `done`: its names can be read in its scope, and the array is there. -/
structure Standing (T : Traversal σ) (setting : Setting σ) (done : List (Value × Value))
    (m : Machine σ) : Prop where
  made : T.table < m.scopes.tables.size
  callback : m.scopes.get? T.scope T.combinator.callback = some T.callback
  own : m.scopes.get? T.scope T.combinator.own = some (T.own done)
  push : T.combinator ≠ .reduce → m.scopes.get? T.scope "push" = some (.native .push)
  array : T.combinator ≠ .reduce → m.heap.arrays[T.result]? = some (T.collected done).toArray
  each : m.heap.closures[T.inner]? = some T.each
  installed : Library.Installed m T.home
  site : m.control.site = T.combinator.site
  room : m.control.depth < setting.options.maxDepth
  clean : m.Clean

/-- Whether what the function works with is out of a closed view that has the callback and the
elements in `rest`. -/
structure Hidden (T : Traversal σ) (done : List (Value × Value)) (rest : List Value) (V : View)
    (m : Machine σ) : Prop where
  closed : V.Closed m
  bindings : m.scopes.tables[T.table]? = some (T.bindings done)
  names : ¬ V.table T.table
  array : T.combinator ≠ .reduce → ¬ V.array T.result
  callback : T.callback.Seen V
  latest : T.combinator = .reduce → (T.latest done).Seen V
  elements : ∀ v ∈ rest, v.Seen V

/-- Whether the callback cannot reach what the function works with, unless it works on the scope of
its caller. -/
def Sheltered (T : Traversal σ) (done : List (Value × Value)) (rest : List Value) (m : Machine σ) :
    Prop :=
  ¬ T.callback.EntersScope → ∃ V, T.Hidden done rest V m

/-! ### Reading the names of the function -/

/-- A name in the scope of the body is a variable of the function or a name of the library. -/
theorem get?_scope (h : m.scopes.tables[T.table]? = some (T.bindings done)) (name : String) :
  m.scopes.get? T.scope name = ((T.bindings done).get? name).or (m.scopes.get? T.home name)
  := by
  change m.scopes.get? (T.table :: T.home) name = _
  rw [Scopes.get?_cons, Scopes.bound?_of_getElem? h]

/-- The parameter for the callback is bound to it. -/
theorem get?_bindings_callback (T : Traversal σ) (done : List (Value × Value)) :
  (T.bindings done).get? T.combinator.callback = some T.callback
  := by
  unfold bindings Combinator.callback
  cases T.combinator
  all_goals rfl

/-- The variable is bound to what has been made so far. -/
theorem get?_bindings_own (T : Traversal σ) (done : List (Value × Value)) :
  (T.bindings done).get? T.combinator.own = some (T.own done)
  := by
  unfold bindings own Combinator.own
  cases T.combinator
  all_goals rfl

/-- The function has no variables with the names of the native functions that it uses. -/
theorem get?_bindings_native (T : Traversal σ) (done : List (Value × Value)) :
  (T.bindings done).get? "push" = none ∧ (T.bindings done).get? "forEach" = none
  := by
  unfold bindings
  cases T.combinator
  all_goals exact ⟨rfl, rfl⟩

/-- What is read again behind a call are variables of the function and `push`. -/
theorem isSome_of_mem_outside (done : List (Value × Value)) {name : String}
    (hname : name ∈ T.combinator.outside) :
  ((T.bindings done).get? name).isSome ∨ name = "push"
  := by
  revert hname
  unfold Combinator.outside bindings
  cases T.combinator
  all_goals
    intro hname
    simp only [List.mem_cons, List.not_mem_nil, or_false] at hname
  case reduce =>
    subst hname
    exact .inl rfl
  all_goals
    rcases hname with rfl | rfl | rfl
    · exact .inl rfl
    · exact .inr rfl
    · exact .inl rfl

/-- The callback is read again for every element. -/
theorem callback_mem_outside (K : Combinator) :
  K.callback ∈ K.outside
  := by
  cases K
  all_goals exact List.mem_cons_self

/-- For every element, `map` and `filter` read `push` and their variable again. -/
theorem push_own_mem_outside {K : Combinator} (hK : K ≠ .reduce) :
  "push" ∈ K.outside ∧ K.own ∈ K.outside
  := by
  cases K
  case reduce => exact absurd rfl hK
  all_goals decide

/-- What is read again where the callback was called is the element or is read again behind that,
too. -/
theorem eq_or_mem_outside_of_mem_inside {K : Combinator} {name : String} (hname : name ∈ K.inside) :
  name = "x" ∨ name ∈ K.outside
  := by
  cases K
  case filter =>
    rcases List.mem_cons.mp hname with rfl | hname
    · exact .inl rfl
    · exact .inr (List.mem_cons_of_mem _ hname)
  all_goals cases hname

/-- What the function works with is spared if its variables, the element and the array stay, and the
names of the library. -/
theorem Spares.of_tables {x : Nat} (hbindings : m.scopes.tables[T.table]? = some (T.bindings done))
    (helement : m.scopes.tables[x]? = some [("x", v)])
    (hbindings' : m'.scopes.tables[T.table]? = m.scopes.tables[T.table]?)
    (helement' : m'.scopes.tables[x]? = m.scopes.tables[x]?)
    (hinstalled : Library.Installed m T.home) (hinstalled' : Library.Installed m' T.home)
    (harray : T.combinator ≠ .reduce → m'.heap.arrays[T.result]? = m.heap.arrays[T.result]?) :
  T.Spares x m m'
  := by
  have houtside (name : String) (hname : name ∈ T.combinator.outside) :
      m'.scopes.get? T.scope name = m.scopes.get? T.scope name := by
    rw [get?_scope hbindings, get?_scope (hbindings'.trans hbindings)]
    rcases isSome_of_mem_outside done hname with hbound | rfl
    · obtain ⟨u, hu⟩ := Option.isSome_iff_exists.mp hbound
      rw [hu]
      rfl
    · rw [hinstalled.get?_push, hinstalled'.get?_push]
  refine ⟨fun name hname => ?_, houtside, fun hT => ?_, harray⟩
  · rw [Scopes.get?_cons, Scopes.get?_cons, Scopes.bound?_of_getElem? helement,
      Scopes.bound?_of_getElem? (helement'.trans helement)]
    rcases eq_or_mem_outside_of_mem_inside hname with rfl | hname
    · rfl
    · rw [houtside name hname]
  · apply Scopes.holder?_eq_some_iff.mpr
    refine ⟨⟨[x], T.home, rfl, List.forall_mem_singleton.mpr ?_⟩, ?_⟩
    · rw [Scopes.bound?_of_getElem? (helement'.trans helement)]
      rfl
    · rw [Scopes.bound?_of_getElem? (hbindings'.trans hbindings)]
      unfold bindings
      rw [hT]
      rfl

/-! ### What is made of a value that is returned -/

/-- The last value is the one that has been returned last. -/
theorem latest_append (v w : Value) :
  T.latest (done ++ [(v, w)]) = w
  := by
  simp [latest]

/-- What is made of a value changes no array but the one that is made. -/
theorem getElem?_took_array {i : Nat} (hi : T.combinator = .reduce ∨ i ≠ T.result) :
  (T.took v w m).heap.arrays[i]? = m.heap.arrays[i]?
  := by
  have hmodify (hne : i ≠ T.result) (e : Value) :
      (m.heap.modifyArray T.result (· ++ #[e])).arrays[i]? = m.heap.arrays[i]? := by
    unfold Heap.modifyArray
    rw [Array.getElem?_modify, if_neg hne.symm]
  unfold took
  split
  · rename_i hT
    exact hmodify (hi.resolve_left (by simp [hT])) w
  · rename_i hT
    split
    · exact hmodify (hi.resolve_left (by simp [hT])) v
    · rfl
  · rfl

/-- What is made of a value changes no bindings but those of the function. -/
theorem getElem?_took_table {i : Nat} (hi : i ≠ T.table) (hsize : i < m.scopes.tables.size) :
  (T.took v w m).scopes.tables[i]? = m.scopes.tables[i]?
  := by
  unfold took
  split
  · rfl
  · split
    · exact Scopes.getElem?_enclose hsize T.scope []
    · rfl
  · exact Scopes.getElem?_modify_of_ne hi.symm _

/-- What is made of a value changes no hashes. -/
theorem hashes_took :
  (T.took v w m).heap.hashes = m.heap.hashes
  := by
  unfold took
  split
  · rfl
  · split
    all_goals rfl
  · rfl

/-- What is made of a value makes no functions. -/
theorem closures_took :
  (T.took v w m).heap.closures = m.heap.closures
  := by
  unfold took
  split
  · rfl
  · split
    all_goals rfl
  · rfl

/-- What is made of a value is bound as that of one more element. -/
theorem bindings_took (h : m.scopes.tables[T.table]? = some (T.bindings done)) :
  (T.took v w m).scopes.tables[T.table]? = some (T.bindings (done ++ [(v, w)]))
  := by
  have hsize : T.table < m.scopes.tables.size := (Array.getElem?_eq_some_iff.mp h).1
  unfold took bindings at *
  split
  · rename_i hT
    simpa only [hT] using h
  · rename_i hT
    simp only [hT] at h ⊢
    split
    · exact (Scopes.getElem?_enclose hsize T.scope []).trans h
    · exact h
  · rename_i hT
    simp only [hT] at h ⊢
    rw [latest_append]
    exact Scopes.getElem?_modify h _

/-- What is made of a value is in the array as that of one more element. -/
theorem array_took (hT : T.combinator ≠ .reduce)
    (h : m.heap.arrays[T.result]? = some (T.collected done).toArray) :
  (T.took v w m).heap.arrays[T.result]? = some (T.collected (done ++ [(v, w)])).toArray
  := by
  have hmodify (e : Value) :
      (m.heap.modifyArray T.result (· ++ #[e])).arrays[T.result]?
        = some (T.collected done ++ [e]).toArray := by
    unfold Heap.modifyArray
    rw [Array.getElem?_modify, if_pos rfl, h]
    simp
  unfold took collected at *
  split
  · rename_i hT'
    simp only [hT'] at h hmodify ⊢
    rw [hmodify, List.map_append]
    rfl
  · rename_i hT'
    simp only [hT'] at h hmodify ⊢
    split
    · rename_i hw
      rw [hmodify]
      simp [hw]
    · rename_i hw
      rw [h]
      simp [hw]
  · rename_i hT'
    exact absurd hT' hT

/-- What is made of a value changes no variable but `acc`. -/
theorem get?_took (hmade : T.table < m.scopes.tables.size) {name : String}
    (hname : T.combinator = .reduce → name ≠ "acc") :
  (T.took v w m).scopes.get? T.scope name = m.scopes.get? T.scope name
  := by
  unfold took
  split
  · rfl
  · split
    · exact m.scopes.get?_enclose_nil T.scope T.scope name
    · rfl
  · rename_i hT
    have hrebinds := Scopes.rebinds_define hmade T.home "acc" w
    exact hrebinds.get?_of_not_sees fun h => hname hT h.1

/-- The variable then stands for what has been made of one more element. -/
theorem own_took (hmade : T.table < m.scopes.tables.size)
    (hown : T.combinator ≠ .reduce → m.scopes.get? T.scope T.combinator.own = some (T.own done)) :
  (T.took v w m).scopes.get? T.scope T.combinator.own = some (T.own (done ++ [(v, w)]))
  := by
  by_cases hT : T.combinator = .reduce
  · have hrebinds := Scopes.rebinds_define hmade T.home "acc" w
    unfold took own
    simp only [hT, latest_append]
    change (m.scopes.define (T.table :: T.home) "acc" w).get? (T.table :: T.home) "acc" = some w
    rw [Scopes.get?_cons, hrebinds.bound?]
    rfl
  · rw [get?_took hmade fun hT' => absurd hT' hT, hown hT]
    unfold own
    cases hK : T.combinator
    case reduce => exact absurd hK hT
    all_goals rfl

/-- What is made of a value leaves all bindings there. -/
theorem size_took :
  m.scopes.tables.size ≤ (T.took v w m).scopes.tables.size
  := by
  unfold took
  split
  · exact Nat.le_refl _
  · split
    · exact (m.scopes.growsIn_enclose (fun _ => True) T.scope []).size
    · exact Nat.le_refl _
  · exact Nat.le_of_eq Array.size_modify.symm

/-- What is made of a value that is no error has no errors. -/
theorem clean_took (hm : m.Clean) (hv : v.Clean) (hw : w.Clean) :
  (T.took v w m).Clean
  := by
  have hpush {e : Value} (he : e.Clean) :
      ∀ es ∈ (m.heap.modifyArray T.result (· ++ #[e])).arrays, ∀ v ∈ es, v.Clean := by
    refine forall_mem_modify (f := (· ++ #[e])) hm.arrays fun es hes => ?_
    exact Array.forall_mem_append.mpr ⟨hes, Array.forall_mem_singleton.mpr he⟩
  unfold took
  split
  · exact ⟨hm.scopes, hpush hw, hm.hashes, hm.frames⟩
  · split
    · exact ⟨hm.scopes.enclose T.scope (List.forall_mem_nil _), hpush hv, hm.hashes, hm.frames⟩
    · exact hm
  · refine ⟨?_, hm.arrays, hm.hashes, hm.frames⟩
    exact hm.scopes.modify _ fun _ hb => Bindings.forall_set hb _ hw

/-- A call for an element that is no error has no errors. -/
theorem clean_entered (hm : m.Clean) (hv : v.Clean) :
  (T.entered m v).Clean
  where
  scopes := hm.scopes.enclose T.scope (b := [("x", v)]) (List.forall_mem_singleton.mpr hv)
  arrays := hm.arrays
  hashes := hm.hashes
  frames := List.forall_mem_cons.mpr ⟨List.forall_mem_singleton.mpr hv, hm.frames⟩

/-! ### The call for one element -/

/-- A step that is counted changes nothing that the function works with. -/
theorem Standing.of_tick {pos : Position} (hm : T.Standing setting done m)
    (htick : Run.tick setting pos m = .ok () m₁) :
  T.Standing setting done m₁
  := by
  obtain ⟨k, rfl⟩ := Run.exists_eq_of_tick htick
  exact ⟨hm.made, hm.callback, hm.own, hm.push, hm.array, hm.each, hm.installed, hm.site, hm.room,
    ⟨hm.clean.scopes, hm.clean.arrays, hm.clean.hashes, hm.clean.frames⟩⟩

section

variable (hm : T.Standing setting done m) (hhome : ∀ j ∈ T.home, j < T.table)

include hm hhome

/-- The scope of the body is there. -/
theorem Standing.scope_lt :
  ∀ j ∈ T.scope, j < m.scopes.tables.size
  := List.forall_mem_cons.mpr ⟨hm.made, fun j hj => Nat.lt_trans (hhome j hj) hm.made⟩

/-- Where the callback is called, the scope of the body reads names as before. -/
theorem Standing.get?_entered (v : Value) (name : String) :
  (T.entered m v).scopes.get? T.scope name = m.scopes.get? T.scope name
  := Scopes.get?_enclose_of_lt (hm.scope_lt hhome) T.scope _ name

/-- Where the callback is called, the names of the library stand for what they stood for. -/
theorem Standing.installed_entered (v : Value) :
  Library.Installed (T.entered m v) T.home
  := by
  refine hm.installed.of_tables (.refl _) fun j hj => ?_
  exact Scopes.getElem?_enclose (Nat.lt_trans (hhome j hj) hm.made) T.scope _

/-- Where the callback is called, the function can read all its names. -/
theorem Standing.ready (v : Value) :
  T.Ready m.scopes.tables.size done v (T.entered m v)
  := by
  have hread (name : String) :
      (T.entered m v).scopes.get? (m.scopes.tables.size :: T.scope) name
        = if name = "x" then some v else m.scopes.get? T.scope name := by
    have htable : (T.entered m v).scopes.tables[m.scopes.tables.size]? = some [("x", v)] :=
      Scopes.getElem?_enclose_self m.scopes T.scope _
    rw [Scopes.get?_cons, Scopes.bound?_of_getElem? htable, Bindings.get?_cons,
      hm.get?_entered hhome]
    split
    all_goals rfl
  constructor
  · exact hread "x"
  · rw [hread, ← hm.callback, if_neg]
    cases T.combinator
    all_goals decide
  · rw [hread, ← hm.own, if_neg]
    cases T.combinator
    all_goals decide
  · exact fun hT => (hread "push").trans (hm.push hT)

/-- A call of the function for `v` comes to what is made of what the callback comes to, if that
leaves alone what the function works with. -/
theorem Standing.ends_call {r : Outcome σ Value}
    (htick : Run.tick setting T.combinator.site m = .ok () m₁)
    (hcall : (Task.apply T.callback (T.args done v) (m₁.scopes.tables.size :: T.scope)
      T.combinator.pos).Ends setting (T.entered m₁ v) r)
    (hspares : ∀ w m', r = .ok w m' → T.Spares m₁.scopes.tables.size (T.entered m₁ v) m') :
  (Task.call (.func T.inner) [v] T.scope).Ends setting m
    (Bracket.settled.outcome m ((Bracket.body T.each [v]).outcome m₁
      (r.andThen fun w m' => .ok (T.gave w) (T.took v w m'))))
  := by
  have heach : m.heap.closure T.inner = T.each := Heap.Retains.closure_eq (.refl _) hm.each
  have hbody := ends_each ((hm.of_tick htick).ready hhome v) hcall hspares
  have happly : (Task.apply (.func T.inner) [v] T.scope T.combinator.site).Ends setting m _ :=
    .of_body heach rfl hm.room htick hbody
  apply Task.ends_iff.mpr
  exact Plan.ends_of_act (congrArg (EStateM.Result.ok · m) hm.site)
    (Plan.ends_within_last happly)

end

/-- What the callback returns for a value that is no error is no error, and it leaves none. -/
theorem Standing.clean_call {r : Outcome σ Value} (hm : T.Standing setting done m) (hv : v.Clean)
    {scope : Scope}
    (hcall : (Task.apply T.callback (T.args done v) scope T.combinator.pos).Ends setting
      (T.entered m v) r) :
  Outcome.Clean r
  := by
  refine hcall.clean_apply (clean_entered hm.clean hv) ?_
  unfold args
  split
  · exact List.forall_mem_singleton.mpr hv
  · exact List.forall_mem_singleton.mpr hv
  · rename_i hT
    have hown : (T.own done).Clean := hm.clean.scopes.get? hm.own
    simp only [Traversal.own, hT] at hown
    exact List.forall_mem_cons.mpr ⟨hown, List.forall_mem_singleton.mpr hv⟩

/-! ### What the callback cannot reach -/

/-- A callback that cannot reach what the function works with leaves it alone and out of reach. -/
theorem Hidden.spares {V : View} (h : T.Hidden done (v :: rest) V m)
    (hm : T.Standing setting done m) (hhome : ∀ j ∈ T.home, j < T.table)
    (henters : ¬ T.callback.EntersScope)
    (hcall : (Task.apply T.callback (T.args done v) (m.scopes.tables.size :: T.scope)
      T.combinator.pos).Ends setting (T.entered m v) (.ok w m'))
    (hinstalled : Library.Installed m' T.home) :
  T.Spares m.scopes.tables.size (T.entered m v) m'
  ∧ ∃ V', V.Widens V' ∧ V'.Closed m' ∧ w.Seen V'
    ∧ m'.scopes.tables[T.table]? = some (T.bindings done) ∧ ¬ V'.table T.table
    ∧ (T.combinator ≠ .reduce → ¬ V'.array T.result)
  := by
  obtain ⟨hv, -⟩ := List.forall_mem_cons.mp h.elements
  have htable {i : Nat} (hi : V.table i) : i < m.scopes.tables.size := by
    obtain ⟨b, hb, -⟩ := h.closed.tables i hi
    exact (Array.getElem?_eq_some_iff.mp hb).1
  have hentered : V.Closed (T.entered m v) := by
    refine h.closed.congr (fun _ _ => rfl) (fun _ _ => rfl) (fun _ _ => rfl) ?_ ?_
    · exact fun i hi => Scopes.getElem?_enclose (htable hi) T.scope _
    · exact List.forall_mem_cons.mpr ⟨List.forall_mem_singleton.mpr hv, h.closed.frames⟩
  have hargs : ∀ a ∈ T.args done v, a.Seen V := by
    unfold args
    split
    · exact List.forall_mem_singleton.mpr hv
    · exact List.forall_mem_singleton.mpr hv
    · rename_i hT
      exact List.forall_mem_cons.mpr ⟨h.latest hT, List.forall_mem_singleton.mpr hv⟩
  have hview : (Task.apply T.callback (T.args done v) (m.scopes.tables.size :: T.scope)
      T.combinator.pos).InView V :=
    ⟨h.callback, hargs, fun henters' => absurd henters' henters⟩
  -- The variables, the element and the array are entries beside the view, and these stay.
  obtain ⟨V', hV', hw⟩ := hcall.isolates hentered hview
  have hbindings : (T.entered m v).scopes.tables[T.table]? = some (T.bindings done) :=
    (Scopes.getElem?_enclose hm.made T.scope [("x", v)]).trans h.bindings
  have helement := Scopes.getElem?_enclose_self m.scopes T.scope [("x", v)]
  have hnames := hV'.tables.getElem?_eq hbindings h.names
  have hx := hV'.tables.getElem?_eq helement fun hi => (htable hi).false
  have harray (hT : T.combinator ≠ .reduce) :=
    hV'.arrays.getElem?_eq (hm.array hT) (h.array hT)
  exact ⟨.of_tables hbindings helement hnames.1 hx.1 (hm.installed_entered hhome v) hinstalled
    fun hT => (harray hT).1, V', hV'.widens, hV'.closed, hw, hnames.1.trans hbindings, hnames.2,
    fun hT => (harray hT).2⟩

/-! ### From one element to the next -/

/-- A step that is counted leads to nothing that was out of reach. -/
theorem Hidden.of_tick {V : View} {pos : Position} (h : T.Hidden done rest V m)
    (htick : Run.tick setting pos m = .ok () m₁) :
  T.Hidden done rest V m₁
  := by
  obtain ⟨k, rfl⟩ := Run.exists_eq_of_tick htick
  exact ⟨h.closed.of_eq rfl rfl h.closed.frames, h.bindings, h.names, h.array, h.callback, h.latest,
    h.elements⟩

section

variable (hlevel : m.Level ((Bracket.body T.each [v]).closed m₁ (T.took v w m₂)))

include hlevel

/-- What is made of a value is out of reach, for nothing that the callback can reach leads to it. -/
theorem Hidden.took {V V' : View} (h : T.Hidden done (v :: rest) V m) (hV : V.Widens V')
    (hclosed : V'.Closed m₂) (hw : w.Seen V')
    (hbindings : m₂.scopes.tables[T.table]? = some (T.bindings done)) (hnames : ¬ V'.table T.table)
    (harray : T.combinator ≠ .reduce → ¬ V'.array T.result) :
  T.Hidden (done ++ [(v, w)]) rest V' ((Bracket.body T.each [v]).closed m₁ (T.took v w m₂))
  := by
  constructor
  · refine hclosed.congr (fun i hi => getElem?_took_array ?_) (fun i _ => ?_) (fun i _ => ?_)
      (fun i hi => ?_) ?_
    · refine Classical.or_iff_not_imp_left.mpr fun hT => ?_
      rintro rfl
      exact harray hT hi
    · exact congrArg (·[i]?) hashes_took
    · exact congrArg (·[i]?) closures_took
    · obtain ⟨b, hb, -⟩ := hclosed.tables i hi
      refine getElem?_took_table ?_ (Array.getElem?_eq_some_iff.mp hb).1
      rintro rfl
      exact hnames hi
    · rw [hlevel.control]
      exact fun frame hframe v hv => (h.closed.frames frame hframe v hv).mono hV
  · exact bindings_took hbindings
  · exact hnames
  · exact harray
  · exact h.callback.mono hV
  · rw [latest_append]
    exact fun _ => hw
  · exact fun e he => (h.elements e (List.mem_cons_of_mem v he)).mono hV

end

/-- Where the callback has been called for one more element and has left alone what the function
works with, this can be read as it is then. -/
theorem Standing.took (hm : T.Standing setting done m) (hm₁ : T.Standing setting done m₁)
    (hhome : ∀ j ∈ T.home, j < T.table)
    (hlevel : m.Level ((Bracket.body T.each [v]).closed m₁ (T.took v w m₂)))
    (hcall : (Task.apply T.callback (T.args done v) (m₁.scopes.tables.size :: T.scope)
      T.combinator.pos).Ends setting (T.entered m₁ v) (.ok w m₂))
    (hspares : T.Spares m₁.scopes.tables.size (T.entered m₁ v) m₂)
    (hinstalled : Library.Installed m₂ T.home) (hv : v.Clean) :
  T.Standing setting (done ++ [(v, w)]) ((Bracket.body T.each [v]).closed m₁ (T.took v w m₂))
  := by
  have hmade : T.table < m₂.scopes.tables.size := by
    have hsize : (T.entered m₁ v).scopes.tables.size = m₁.scopes.tables.size + 1 :=
      Array.size_push _
    exact Nat.lt_of_lt_of_le (hsize ▸ Nat.lt_succ_of_lt hm₁.made) hcall.size_le
  have hread (name : String) (hname : name ∈ T.combinator.outside) :
      m₂.scopes.get? T.scope name = m₁.scopes.get? T.scope name :=
    (hspares.outside name hname).trans (hm₁.get?_entered hhome v name)
  obtain ⟨hclean, hw⟩ := hm₁.clean_call hv hcall
  have htook : (T.took v w m₂).Clean := clean_took hclean hv hw
  constructor
  · exact Nat.lt_of_lt_of_le hmade size_took
  · refine (get?_took hmade fun hT => ?_).trans
      ((hread _ (callback_mem_outside _)).trans hm₁.callback)
    rw [hT]
    decide
  · exact own_took hmade fun hT => (hread _ (push_own_mem_outside hT).2).trans hm₁.own
  · intro hT
    refine (get?_took hmade fun hT' => absurd hT' hT).trans ?_
    exact (hread _ (push_own_mem_outside hT).1).trans (hm₁.push hT)
  · exact fun hT => array_took hT ((hspares.array hT).trans (hm₁.array hT))
  · exact (congrArg (·[T.inner]?) closures_took).trans (hcall.retains T.inner _ hm₁.each)
  · refine hinstalled.of_tables (.of_eq closures_took) fun j hj => ?_
    exact getElem?_took_table (hhome j hj).ne (Nat.lt_trans (hhome j hj) hmade)
  · rw [hlevel.control]
    exact hm.site
  · rw [hlevel.depth_eq]
    exact hm.room
  · exact ⟨htook.scopes, htook.arrays, htook.hashes,
      fun frame hframe => htook.frames frame (Bracket.mem_frames_closed hframe)⟩

/-- Where a round leads, the function has been called for the element, and the rest can be gone
on with. -/
theorem Round.passes (h : T.Round setting T.callback.EntersScope done m v w m')
    (hhome : ∀ j ∈ T.home, j < T.table) (hm : T.Standing setting done m) (hv : v.Clean)
    (hsheltered : T.Sheltered done (v :: rest) m) :
  (Task.call (.func T.inner) [v] T.scope).Ends setting m (.ok (T.gave w) m') ∧ (T.gave w).Clean
  ∧ T.Standing setting (done ++ [(v, w)]) m' ∧ T.Sheltered (done ++ [(v, w)]) rest m'
  := by
  obtain ⟨m₁, m₂, htick, hcall, hinstalled, hspare, rfl⟩ := h
  have hm₁ : T.Standing setting done m₁ := hm.of_tick htick
  have hspares : T.Spares m₁.scopes.tables.size (T.entered m₁ v) m₂ := by
    -- A callback that works on the scope of its caller is only asked to spare it.
    by_cases henters : T.callback.EntersScope
    · exact hspare henters
    · obtain ⟨V, hV⟩ := hsheltered henters
      exact ((hV.of_tick htick).spares hm₁ hhome henters hcall hinstalled).1
  have hends : (Task.call (.func T.inner) [v] T.scope).Ends setting m
      (.ok (T.gave w) ((Bracket.body T.each [v]).closed m₁ (T.took v w m₂))) := by
    refine hm.ends_call hhome htick hcall fun w' m' heq => ?_
    cases heq
    exact hspares
  refine ⟨hends, clean_gave (hm₁.clean_call hv hcall).result, ?_, fun henters => ?_⟩
  · exact hm.took hm₁ hhome hends.level hcall hspares hinstalled hv
  · obtain ⟨V, hV⟩ := hsheltered henters
    obtain ⟨-, V', hwidens, hclosed, hw, hbindings, hnames, harray⟩ :=
      (hV.of_tick htick).spares hm₁ hhome henters hcall hinstalled
    exact ⟨V', hV.took hends.level hwidens hclosed hw hbindings hnames harray⟩

/-! ### The loop -/

/-- What `forEach` does from the elements `es` on, the first of which has the index `i`. -/
def loop (T : Traversal σ) (es : List Value) (i : Nat) : Task .value :=
  .forEach (.func T.inner) 1 (.array T.array) es i T.scope

/-- Behind the elements for which the callback has been called it is as with the rest alone: by
induction on the calls. -/
theorem Calls.passes {pairs : List (Value × Value)}
    (h : T.Calls setting T.callback.EntersScope done m pairs m')
    (hhome : ∀ j ∈ T.home, j < T.table) (hm : T.Standing setting done m)
    (hclean : ∀ v ∈ pairs.map Prod.fst ++ rest, v.Clean)
    (hsheltered : T.Sheltered done (pairs.map Prod.fst ++ rest) m) :
  T.Standing setting (done ++ pairs) m'
  ∧ ∀ i r, (∀ k, (T.loop rest k).Ends setting m' r) →
    (T.loop (pairs.map Prod.fst ++ rest) i).Ends setting m r
  := by
  induction h with
  | nil =>
      rw [List.append_nil]
      exact ⟨hm, fun i r hrest => hrest i⟩
  | @cons done pairs m m₁ m' v w hround hcalls ih =>
      obtain ⟨hv, hclean⟩ := List.forall_mem_cons.mp hclean
      obtain ⟨hends, hgave, hm₁, hsheltered₁⟩ := hround.passes hhome hm hv hsheltered
      obtain ⟨hstanding, hloop⟩ := ih hm₁ hclean hsheltered₁
      rw [List.append_cons]
      refine ⟨hstanding, fun i r hrest => ?_⟩
      apply Task.ends_iff.mpr
      refine Plan.ends_of_call hends ?_
      have hgoes := Task.ends_last.mpr (hloop (i + 1) r hrest)
      generalize T.gave w = u at hgave ⊢
      cases u
      case error => exact hgave.elim
      all_goals exact hgoes

/-- Where the callback fails, `forEach` returns the error. -/
theorem Standing.ends_loop_of_fault (hm : T.Standing setting done m)
    (hhome : ∀ j ∈ T.home, j < T.table) (htick : Run.tick setting T.combinator.site m = .ok () m₁)
    {e : Fault}
    (hcall : (Task.apply T.callback (T.args done v) (m₁.scopes.tables.size :: T.scope)
      T.combinator.pos).Ends setting (T.entered m₁ v) (.error (.fault e) m₂)) (i : Nat) :
  (T.loop (v :: rest) i).Ends setting m
    (.ok (.error (e.inFile Library.name)) ((Bracket.body T.each [v]).closed m₁ m₂))
  := by
  have hends := hm.ends_call hhome htick hcall fun _ _ heq => by cases heq
  apply Task.ends_iff.mpr
  exact Plan.ends_of_call hends (Plan.ends_ret.mpr rfl)

end Traversal

end Scriptlet
