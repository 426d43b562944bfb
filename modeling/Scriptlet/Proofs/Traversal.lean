import Scriptlet.Proofs.Traversal.Beginning

/-!
# Functions that go through an array

`map`, `filter` and `reduce` of the standard library return what they are to if all calls of the
callback return, and stop with the first error (`Traversal.goes_through`).  The elements are those
that the array had when the function was called, whatever the callback does to the array.

The function keeps its own things in a scope and an array.  No function of the program can reach
them, but the native functions that work on the scope of their caller can
(`Traversal.not_goes_through`).
-/

namespace Scriptlet

variable {σ : Type}

namespace Traversal

variable {T : Traversal σ} {setting : Setting σ} {i : Nat} {pos : Position} {m m' : Machine σ}
  {pairs : List (Value × Value)}

/-- Whether the function that was called on `m` is to return `v` on `m'` if the callback has
returned the second of each of the pairs for the first: an array that was not there before, with
the values for `map` and the elements with a truthy value for `filter`, or the last value for
`reduce`. -/
def Makes (T : Traversal σ) (m : Machine σ) (pairs : List (Value × Value)) (v : Value)
    (m' : Machine σ) : Prop :=
  match T.combinator with
  | .map =>
    v = .array m.heap.arrays.size
    ∧ m'.heap.arrays[m.heap.arrays.size]? = some (pairs.map Prod.snd).toArray
  | .filter =>
    v = .array m.heap.arrays.size
    ∧ m'.heap.arrays[m.heap.arrays.size]?
      = some ((pairs.filter fun p => p.2.truthy).map Prod.fst).toArray
  | .reduce => v = (pairs.map Prod.snd).getLastD T.initial

/-- When the callback has been called for all elements, what the function is to return is there. -/
theorem Standing.makes (hm : T.Standing setting pairs m') (h : T.Begins setting i pos m) :
  T.Makes m pairs (T.own pairs) (T.closed m')
  := by
  obtain ⟨k, hk⟩ := h.exists_start_eq
  have hresult : T.result = m.heap.arrays.size := by rw [result, hk]
  have harray := hm.array
  unfold Makes Traversal.own
  unfold collected at harray
  rw [← hresult]
  split
  · rename_i hT
    simp only [hT] at harray ⊢
    exact ⟨trivial, harray (by simp)⟩
  · rename_i hT
    simp only [hT] at harray ⊢
    exact ⟨trivial, harray (by simp)⟩
  · rename_i hT
    simp only [hT] at harray ⊢
    rfl

/-- A file that an error is reported in stays the file, at whatever position it is reported. -/
theorem inFile_located_inFile (e : Fault) (file file' : String) (pos : Position) :
  ((e.inFile file).located pos).inFile file' = (e.inFile file).located pos
  := by
  obtain ⟨cause, line, column, e⟩ := e
  cases e
  all_goals
    cases line
    all_goals rfl

/-- If the calls of the callback with the elements that the array has at the start, in order,
return, the function returns the array of the values, the array of the elements with truthy values,
or the last value.  If one of them is the first to fail, the function fails with its error on the
machine that it leaves, so no further element is come to.  A native callback that works on the scope
of its caller may bind names there, as long as it leaves alone what the function works with. -/
theorem goes_through (h : T.Begins setting i pos m)
    (hcalls : T.Calls setting T.callback.EntersScope [] T.opened pairs m') (scope : Scope) :
  (pairs.map Prod.fst = (m.heap.array T.array).toList →
    (Task.apply (.func i) T.given scope pos).Ends setting m (.ok (T.own pairs) (T.closed m'))
    ∧ T.Makes m pairs (T.own pairs) (T.closed m'))
  ∧ ∀ v rest e m₁ m₂, pairs.map Prod.fst ++ v :: rest = (m.heap.array T.array).toList →
    Run.tick setting T.combinator.site m' = .ok () m₁ →
    (Task.apply T.callback (T.args pairs v) (m₁.scopes.tables.size :: T.scope)
      T.combinator.pos).Ends setting (T.entered m₁ v) (.error (.fault e) m₂) →
    (Task.apply (.func i) T.given scope pos).Ends setting m
      (.error (.fault ((e.inFile Library.name).located T.combinator.site))
        (T.closed ((Bracket.body T.each [v]).closed m₁ m₂)))
  := by
  constructor
  · intro helements
    have hsheltered : T.Sheltered [] (pairs.map Prod.fst ++ []) T.opened := by
      rw [List.append_nil, helements]
      exact h.sheltered
    have hclean : ∀ u ∈ pairs.map Prod.fst ++ [], u.Clean := by
      rw [List.append_nil, helements]
      exact h.clean_elements
    obtain ⟨hstanding, hloop⟩ := hcalls.passes h.home_lt h.standing hclean hsheltered
    have hends := hloop 0 (.ok .null m') fun k => Task.ends_iff.mpr (Plan.ends_ret.mpr rfl)
    rw [List.append_nil, helements, ← h.array_opened] at hends
    exact ⟨h.ends_of_body (hstanding.ends_body h.standing hends) scope, hstanding.makes h⟩
  · intro v rest e m₁ m₂ helements htick hfault
    have hsheltered : T.Sheltered [] (pairs.map Prod.fst ++ v :: rest) T.opened := by
      rw [helements]
      exact h.sheltered
    have hclean : ∀ u ∈ pairs.map Prod.fst ++ v :: rest, u.Clean := by
      rw [helements]
      exact h.clean_elements
    obtain ⟨hstanding, hloop⟩ := hcalls.passes h.home_lt h.standing hclean hsheltered
    have hends := hloop 0 _ (hstanding.ends_loop_of_fault h.home_lt htick hfault)
    rw [helements, ← h.array_opened] at hends
    -- Both functions are of the same file, so the outer one adds none to the error.
    rw [← inFile_located_inFile e Library.name Library.name T.combinator.site]
    exact h.ends_of_body (ends_body_of_error h.standing hends) scope

/-- A definition and the name that it binds come to the value, bound in the innermost scope. -/
theorem ends_define_name {now : Machine σ} {x : Nat} (hx : x < now.scopes.tables.size)
    (outer : Scope) (name : String) (b : Bool) (p q r s : Position) :
  (Task.statements [.define p name (.bool q b), .expr r (.name s name)] (x :: outer)).Ends setting
    now (.ok (.bool b) { now with scopes := now.scopes.define (x :: outer) name (.bool b) })
  := by
  have hrebinds := Scopes.rebinds_define hx outer name (.bool b)
  have hdefine : (Task.statement (.define p name (.bool q b)) (x :: outer)).Ends setting now
      (.ok .null { now with scopes := now.scopes.define (x :: outer) name (.bool b) }) := by
    apply Task.ends_iff.mpr
    refine Plan.ends_of_call (Task.ends_iff.mpr (Plan.ends_ret.mpr rfl)) ?_
    exact Plan.ends_of_act rfl (Plan.ends_ret.mpr rfl)
  refine (Task.ends_statements_cons (List.cons_ne_nil _ _)).mpr ⟨_, hdefine, ?_⟩
  apply Task.ends_statements_singleton.mpr
  apply Task.ends_statement_expr.mpr
  apply Task.Ends.name
  change (now.scopes.define (x :: outer) name _).get? (x :: outer) name = _
  rw [Scopes.get?_cons, hrebinds.bound?]
  rfl

/-- A call of `import` by the function that `map` hands to `forEach`, of a unit that binds a name
where it is imported. -/
theorem Standing.exists_round_import (hm : T.Standing setting done m)
    (hhome : ∀ j ∈ T.home, j < T.table) (hT : T.combinator = .map)
    (hcallback : T.callback = .native .importUnit) (hsteps : setting.options.maxSteps = none)
    {file : String} (hunit : setting.unit? "m" = some (file, "let y = true; y"))
    (hfile : file ∉ m.control.imports) (hroom : m.control.depth + 1 < setting.options.maxDepth) :
  ∃ m', T.Round setting T.callback.EntersScope done m (.str "m") (.bool true) m'
  := by
  let x := m.scopes.tables.size
  let inside := T.entered m (.str "m")
  let left : Machine σ :=
    { inside with scopes := inside.scopes.define (x :: T.scope) "y" (.bool true) }
  have hparse : Program.parse "let y = true; y" "m"
      = (⟨[.define ⟨1, 1⟩ "y" (.bool ⟨1, 9⟩ true), .expr ⟨1, 15⟩ (.name ⟨1, 15⟩ "y")], "m"⟩,
        []) := by
    cbv
  have hx : x < inside.scopes.tables.size :=
    (Array.getElem?_eq_some_iff.mp
      (Scopes.getElem?_enclose_self m.scopes T.scope [("x", .str "m")])).1
  have hdepth : ((Bracket.native T.combinator.pos).opened inside).control.depth
      < setting.options.maxDepth := by
    change ((Bracket.body T.each [.str "m"]).opened m).control.depth < _
    rwa [Bracket.depth_opened]
  have hbody (now : Machine σ) (hnow : x < now.scopes.tables.size) :
      (Task.statements (Program.parse "let y = true; y" "m").1.statements (x :: T.scope)).Ends
        setting now (.ok (.bool true)
          { now with scopes := now.scopes.define (x :: T.scope) "y" (.bool true) }) := by
    rw [hparse]
    exact ends_define_name hnow T.scope "y" true _ _ _ _
  have himport : (Task.unit "m" (x :: T.scope)).Ends setting
      ((Bracket.native T.combinator.pos).opened inside) _ :=
    Setting.ends_unit_of_program hunit (by rw [hparse]) hfile hdepth
      (Task.ends_program.mpr ⟨_, hbody _ hx, rfl⟩)
  have hcall : (Task.apply (.native .importUnit) [.str "m"] (x :: T.scope) T.combinator.pos).Ends
      setting inside (.ok (.bool true) left) := by
    have hnative : (Task.native .importUnit [.str "m"] (x :: T.scope)).Ends setting _ _ :=
      Task.ends_iff.mpr (Task.ends_last.mpr himport)
    exact hnative.apply_native rfl
  -- The name is bound in the table of the element, in front of those of the combinator.
  have houter (j : Nat) (hj : j < x) :
      left.scopes.tables[j]? = inside.scopes.tables[j]? :=
    Scopes.getElem?_modify_of_ne hj.ne' _
  refine ⟨_, m, left, ?_, ?_, ?_, fun _ => ⟨?_, ?_, ?_, fun _ => rfl⟩, rfl⟩
  · rw [Run.tick_apply, hsteps]
  · have hargs : T.args done (.str "m") = [.str "m"] := by
      unfold args
      rw [hT]
    rw [hcallback, hargs]
    exact hcall
  · refine (hm.installed_entered hhome _).of_tables (.refl _) fun j hj => houter j ?_
    exact Nat.lt_trans (hhome j hj) hm.made
  · rw [hT]
    exact List.forall_mem_nil _
  · exact fun name _ => Scopes.get?_of_tables (fun j hj => houter j (hm.scope_lt hhome j hj)) name
  · rw [hT]
    rintro ⟨⟩

/-- Such a unit can be imported for any number of elements: by induction on their number, for each
call leads to where the unit can be imported again. -/
theorem Standing.exists_calls_import (hm : T.Standing setting done m)
    (hhome : ∀ j ∈ T.home, j < T.table) (hT : T.combinator = .map)
    (hcallback : T.callback = .native .importUnit) (hsteps : setting.options.maxSteps = none)
    {file : String} (hunit : setting.unit? "m" = some (file, "let y = true; y"))
    (hfile : file ∉ m.control.imports) (hroom : m.control.depth + 1 < setting.options.maxDepth)
    (n : Nat) :
  ∃ m', T.Calls setting T.callback.EntersScope done m
    (List.replicate n (.str "m", .bool true)) m'
  := by
  induction n generalizing done m with
  | zero => exact ⟨m, .nil⟩
  | succ n ih =>
      obtain ⟨m₁, hround⟩ :=
        hm.exists_round_import hhome hT hcallback hsteps hunit hfile hroom
      have henters : T.callback.EntersScope := by
        rw [hcallback]
        trivial
      have hsheltered : T.Sheltered done [.str "m"] m := fun hnot => absurd henters hnot
      obtain ⟨hends, -, hstanding, -⟩ := hround.passes hhome hm trivial hsheltered
      have hlevel : m.Level m₁ := hends.level
      have hfile' : file ∉ m₁.control.imports := by
        rw [hlevel.control]
        exact hfile
      have hroom' : m₁.control.depth + 1 < setting.options.maxDepth := by
        rw [hlevel.depth_eq]
        exact hroom
      obtain ⟨m', hcalls⟩ := ih hstanding hfile' hroom'
      exact ⟨m', .cons hround hcalls⟩

/-- Modules that are imported for the elements of an array, and bind a name where they are, and an
array with an element that is the name of no module. -/
theorem goes_through_import :
  let disk : Disk := { Disk.empty with files := [(["m.tiny"], "let y = true; y".toUTF8)] }
  let setting : Setting := ⟨{ Options.standard with useLibrary := false }, Device.standard, disk⟩
  let pairs : List (Value × Value) := [(.str "m", .bool true), (.str "m", .bool true)]
  ∃ (m : Machine) (i : Nat),
    let T (array : Nat) : Traversal Streams := ⟨.map, [0], array, .native .importUnit, .null, m⟩
    (∀ array < 2, (T array).Begins setting i ⟨1, 4⟩ m)
    ∧ (∃ m', (T 0).Calls setting (T 0).callback.EntersScope [] (T 0).opened pairs m'
      ∧ pairs.map Prod.fst = (m.heap.array 0).toList
      ∧ (Task.apply (.func i) (T 0).given [0] ⟨1, 4⟩).Ends setting m
        (.ok (.array m.heap.arrays.size) ((T 0).closed m'))
      ∧ ((T 0).closed m').heap.arrays[m.heap.arrays.size]? = some #[.bool true, .bool true])
    ∧ ∃ f m', (Task.apply (.func i) (T 1).given [0] ⟨1, 4⟩).Ends setting m (.error (.fault f) m')
      ∧ f.cause = .importFailed "missing"
  := by
  intro disk setting pairs
  let m₀ : Machine :=
    { Machine.initial (.ofLines []) with
      heap := ⟨#[#[.str "m", .str "m"], #[.str "m", .str "missing"]], #[], #[]⟩
      scopes := ⟨#[[]]⟩ }
  have hm₀ : m₀.Closed := by
    apply Machine.closed_of_plain
    all_goals simp [m₀, Machine.initial, Control.initial, Bindings.Seen, Value.Seen]
  have hclean₀ : m₀.Clean := by
    constructor
    all_goals
      simp [m₀, Machine.initial, Control.initial, Scopes.Clean, Bindings.Clean, Value.IfError]
  have hunit : setting.unit? "m" = some ("/home/m.tiny", "let y = true; y") := by decide +kernel
  have hmissing : setting.unit? "missing" = none := by decide +kernel
  obtain ⟨m, himport, hinstalled, harrays, -, hcontrol⟩ := Library.exists_import setting 0 []
    (m := m₀) Nat.zero_lt_one (fun _ _ _ => rfl) List.not_mem_nil (by decide)
  obtain ⟨i, hi, -⟩ := hinstalled.exists_combinator .map
  have hm : m.Closed := himport.closed hm₀ (List.forall_mem_singleton.mpr Nat.zero_lt_one)
  have hclean : m.Clean := himport.clean_machine ⟨[], ""⟩ hclean₀ trivial
  let T (array : Nat) : Traversal Streams := ⟨.map, [0], array, .native .importUnit, .null, m⟩
  have hbegins (array : Nat) (harray : array < 2) : (T array).Begins setting i ⟨1, 4⟩ m := by
    refine ⟨hinstalled, hi, ?_, rfl, hm, ?_, hclean, ?_⟩
    · rw [hcontrol]
      decide
    · refine List.forall_mem_cons.mpr ⟨?_, List.forall_mem_singleton.mpr trivial⟩
      change array < m.heap.arrays.size
      rw [harrays]
      exact harray
    · exact List.forall_mem_cons.mpr ⟨trivial, List.forall_mem_singleton.mpr trivial⟩
  have hcalls (array : Nat) (harray : array < 2) (n : Nat) :
      ∃ m', (T array).Calls setting (T array).callback.EntersScope [] (T array).opened
        (List.replicate n (.str "m", .bool true)) m' := by
    have hopened : (T array).opened.control = (Bracket.native ⟨22, 12⟩).enter
        ((Bracket.body (T array).function (T array).given).enter m₀.control) := by
      rw [← hcontrol]
      rfl
    have himports : "/home/m.tiny" ∉ (T array).opened.control.imports := by
      rw [hopened]
      exact List.not_mem_nil
    have hdepth : (T array).opened.control.depth = 1 := by
      rw [hopened]
      rfl
    have hroom : (T array).opened.control.depth + 1 < setting.options.maxDepth := by
      rw [hdepth]
      decide
    exact (hbegins array harray).standing.exists_calls_import (hbegins array harray).home_lt rfl rfl
      rfl hunit himports hroom n
  have helements (array : Nat) : m.heap.array array = m₀.heap.array array := by
    unfold Heap.array
    rw [harrays]
  obtain ⟨m', hcalls₀⟩ := hcalls 0 (by decide) 2
  obtain ⟨m₁, hcalls₁⟩ := hcalls 1 (by decide) 1
  refine ⟨m, i, hbegins, ⟨m', hcalls₀, ?_, ?_⟩, ?_⟩
  · rw [helements]
    rfl
  · obtain ⟨hends, -, hmade⟩ :=
      (goes_through (hbegins 0 (by decide)) hcalls₀ [0]).1 (by rw [helements]; rfl)
    exact ⟨hends, hmade⟩
  · have hstops := (goes_through (hbegins 1 (by decide)) hcalls₁ [0]).2 (.str "missing") []
    have hfails (scope : Scope) (now : Machine) :
        (Task.native .importUnit [.str "missing"] scope).Ends setting now
          (.ok (.failure (.importFailed "missing")) now) := by
      have hunit : (Task.unit "missing" scope).plan setting
          = .ret (.failure (.importFailed "missing")) := by
        simp only [Task.plan, hmissing]
      refine Task.ends_iff.mpr (Task.ends_last.mpr (Task.ends_iff.mpr ?_))
      rw [hunit]
      exact Plan.ends_ret.mpr rfl
    exact ⟨_, _, hstops _ m₁ _ (by rw [helements]; rfl) rfl (hfails _ _).apply_native_error, rfl⟩

/-- A call of `update` that changes the variable `f` of `reduce` returns its value. -/
theorem exists_round_update (done : List (Value × Value)) {b : Bindings} {v : Value}
    (hcallback : T.callback = .native .update) (hT : T.combinator = .reduce)
    (hsteps : setting.options.maxSteps = none) (hhome : ∀ j ∈ T.home, j < T.table)
    (hargs : T.args done v = [.str "f", v]) (hv : v.isError = false)
    (hinstalled : Library.Installed m T.home) (hb : m.scopes.tables[T.table]? = some b)
    (hf : (b.get? "f").isSome) :
  ∃ m', T.Round setting False done m v v m' ∧ Library.Installed m' T.home
    ∧ ∃ b', m'.scopes.tables[T.table]? = some b' ∧ (b'.get? "f").isSome
  := by
  have hsize : T.table < m.scopes.tables.size := (Array.getElem?_eq_some_iff.mp hb).1
  let x := m.scopes.tables.size
  let inside := T.entered m v
  have hx : inside.scopes.tables[x]? = some [("x", v)] :=
    Scopes.getElem?_enclose_self m.scopes T.scope _
  have htable : inside.scopes.tables[T.table]? = some b :=
    (Scopes.getElem?_enclose hsize T.scope _).trans hb
  have hinside : Library.Installed inside T.home := by
    refine hinstalled.of_tables (.refl _) fun j hj => ?_
    exact Scopes.getElem?_enclose (Nat.lt_trans (hhome j hj) hsize) T.scope _
  -- The table of the element has no such name, so it is that of the combinator which changes.
  have hholder : inside.scopes.holder? (x :: T.scope) "f" = some T.table := by
    apply Scopes.holder?_eq_some_iff.mpr
    refine ⟨⟨[x], T.home, rfl, List.forall_mem_singleton.mpr ?_⟩, ?_⟩
    · rw [Scopes.bound?_of_getElem? hx]
      rfl
    · rwa [Scopes.bound?_of_getElem? htable]
  let m₂ : Machine σ := { inside with scopes := inside.scopes.modify T.table (·.set "f" v) }
  have hm₂ : m₂.scopes.tables[T.table]? = some (b.set "f" v) := Scopes.getElem?_modify htable _
  have hinstalled₂ : Library.Installed m₂ T.home := by
    have hrebinds :=
      Scopes.rebinds_define (Array.getElem?_eq_some_iff.mp htable).1 T.home "f" v
    exact hinside.of_rebinds (by decide +kernel) hrebinds (.refl _)
  let m' := (Bracket.body T.each [v]).closed m (T.took v v m₂)
  have hscopes : m'.scopes = m₂.scopes.modify T.table (·.set "acc" v) := by
    change (T.took v v m₂).scopes = _
    unfold took
    rw [hT]
  refine ⟨m', ⟨m, m₂, ?_, ?_, hinstalled₂, False.elim, rfl⟩, ?_,
    (b.set "f" v).set "acc" v, ?_, ?_⟩
  · rw [Run.tick_apply, hsteps]
  · rw [hcallback, hargs]
    exact Task.ends_update hholder hv _
  · have hrebinds := Scopes.rebinds_define (Array.getElem?_eq_some_iff.mp hm₂).1 T.home "acc" v
    change m₂.scopes.Rebinds (m₂.scopes.modify T.table _) _ _ _ at hrebinds
    rw [← hscopes] at hrebinds
    exact hinstalled₂.of_rebinds (by decide +kernel) hrebinds (.of_eq closures_took)
  · rw [hscopes]
    exact Scopes.getElem?_modify hm₂ _
  · rw [Bindings.get?_set, if_neg (by decide), Bindings.get?_set, if_pos rfl]
    rfl

/-- Called by `reduce`, `update` changes the variable `f` of `reduce`.  The calls return, and still
`reduce` fails when it calls what `f` has become. -/
theorem not_goes_through :
  let setting : Setting := ⟨{ Options.standard with useLibrary := false }, Device.standard, .empty⟩
  let pairs : List (Value × Value) := [(.str "f", .str "f"), (.bool true, .bool true)]
  ∃ (m : Machine) (i : Nat),
    let T : Traversal Streams := ⟨.reduce, [0], 0, .native .update, .str "f", m⟩
    T.Begins setting i ⟨1, 22⟩ m
    ∧ (∃ m', T.Calls setting False [] T.opened pairs m')
    ∧ pairs.map Prod.fst = (m.heap.array 0).toList
    ∧ (∃ f m', (Task.apply (.func i) T.given [0] ⟨1, 22⟩).Ends setting m (.error (.fault f) m'))
    ∧ ∀ v m', ¬ (Task.apply (.func i) T.given [0] ⟨1, 22⟩).Ends setting m (.ok v m')
  := by
  intro setting pairs
  let m₀ : Machine :=
    { Machine.initial (.ofLines []) with
      heap := ⟨#[#[.str "f", .bool true]], #[], #[]⟩
      scopes := ⟨#[[("f", .null)]]⟩
      control := { Control.initial with file := Library.name } }
  have hm₀ : m₀.Closed := by
    apply Machine.closed_of_plain
    all_goals simp [m₀, Machine.initial, Control.initial, Bindings.Seen, Value.Seen]
  have hclean₀ : m₀.Clean := by
    constructor
    all_goals
      simp [m₀, Control.initial, Scopes.Clean, Bindings.Clean, Value.IfError]
  have hnatives (n : String) (f : Native) (hf : Native.ofName? n = some f) :
      m₀.scopes.get? [0] n = none := by
    apply Scopes.get?_eq_none
    refine List.forall_mem_singleton.mpr ?_
    rw [Scopes.bound?_of_getElem? (b := [("f", .null)]) rfl, Bindings.get?_cons, if_neg]
    · rfl
    · intro hn
      have hnone : Native.ofName? "f" = none := by decide
      rw [hn, hnone] at hf
      cases hf
  let library : Task .value := .statements Library.statements [0]
  have hlibrary : Outcome.isError? (library.run setting 20 m₀) = some false := by decide +kernel
  obtain ⟨v, m₁, hrun, -⟩ := Outcome.exists_of_isError? hlibrary
  have hadds : Library.Adds 0 [] Library.statements m₀ m₁ :=
    Library.adds_of_run hrun Nat.zero_lt_one hnatives rfl
  have hends : library.Ends setting m₀ (.ok v m₁) := ⟨20, hrun, id⟩
  let m : Machine := { m₁ with control := .initial }
  have hinstalled : Library.Installed m [0] := hadds.installed
  have harrays : m.heap.arrays = #[#[.str "f", .bool true]] := hadds.arrays
  obtain ⟨i, hi, -⟩ := hinstalled.exists_combinator .reduce
  let T : Traversal Streams := ⟨.reduce, [0], 0, .native .update, .str "f", m⟩
  have hbegins : T.Begins setting i ⟨1, 22⟩ m := by
    have hm₁ : m₁.Closed := hends.closed hm₀ (List.forall_mem_singleton.mpr Nat.zero_lt_one)
    have hclean : m₁.Clean := hends.clean_machine ⟨[], ""⟩ hclean₀ fun _ _ => trivial
    have hroom : Control.initial.depth + 1 < setting.options.maxDepth := by decide
    refine ⟨hinstalled, hi, hroom, rfl, hm₁.of_eq rfl rfl (List.forall_mem_nil _), ?_,
      ⟨hclean.scopes, hclean.arrays, hclean.hashes, List.forall_mem_nil _⟩, ?_⟩
    · refine List.forall_mem_cons.mpr ⟨?_, List.forall_mem_cons.mpr
        ⟨trivial, List.forall_mem_singleton.mpr trivial⟩⟩
      change 0 < m.heap.arrays.size
      rw [harrays]
      decide
    · exact List.forall_mem_cons.mpr ⟨trivial, List.forall_mem_cons.mpr
        ⟨trivial, List.forall_mem_singleton.mpr trivial⟩⟩
  have hcalls : ∃ m', T.Calls setting False [] T.opened pairs m' := by
    have hsteps : setting.options.maxSteps = none := rfl
    have hstanding := hbegins.standing
    obtain ⟨m₂, hround, hinstalled₂, b, hb, hf⟩ := exists_round_update [] (T := T)
      (v := .str "f") rfl rfl hsteps hbegins.home_lt rfl rfl hstanding.installed
      T.bindings_opened rfl
    obtain ⟨m₃, hround₃, -⟩ := exists_round_update [(.str "f", .str "f")] (T := T)
      (v := .bool true) rfl rfl hsteps hbegins.home_lt rfl rfl hinstalled₂ hb hf
    exact ⟨m₃, .cons hround (.cons hround₃ .nil)⟩
  -- How `reduce` ends is evaluated, in one run with that of the library.
  let reduces : Run Value := do
    let _ ← library.run setting 20
    Run.modifyControl fun _ => .initial
    let f ← Run.lookUp "reduce" [0] ⟨1, 16⟩
    Run.apply setting 40 f [.array 0, .native .update, .str "f"] [0] ⟨1, 22⟩
  have hreduces : reduces m₀ = (Task.apply (.func i) T.given [0] ⟨1, 22⟩).run setting 40 m := by
    have hlookUp : Run.lookUp "reduce" [0] ⟨1, 16⟩ m = .ok (.func i) m := Run.lookUp_of_get? hi _
    change (library.run setting 20 >>= _) m₀ = _
    rw [Outcome.bind_apply, hrun]
    change (Run.lookUp "reduce" [0] ⟨1, 16⟩ >>= _) m = _
    rw [Outcome.bind_apply, hlookUp]
    rfl
  have hfault : Outcome.isFault (reduces m₀) = true := by decide +kernel
  obtain ⟨f, m', hf⟩ := Outcome.exists_of_isFault hfault
  have hends₁ : (Task.apply (.func i) T.given [0] ⟨1, 22⟩).Ends setting m (.error (.fault f) m') :=
    ⟨40, hreduces.symm.trans hf, id⟩
  refine ⟨m, i, hbegins, hcalls, ?_, ⟨f, m', hends₁⟩, fun v m'' hends₂ => ?_⟩
  · unfold Heap.array
    rw [harrays]
    rfl
  · cases hends₁.unique hends₂

end Traversal

end Scriptlet
