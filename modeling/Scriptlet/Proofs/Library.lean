import Scriptlet.Proofs.Importing
import Scriptlet.Proofs.Library.Text
import Scriptlet.Proofs.Running.Applying
import Scriptlet.Proofs.Running.Retention
import Scriptlet.Proofs.Scoping

/-!
# The standard library in a scope

Importing the standard library binds every name that it declares to the value that the declaration
gives it, and does nothing else (`Library.exists_import`).
-/

namespace Scriptlet

variable {σ : Type}

namespace Library

/-- Whether a value is what an expression of the library stands for in a scope. -/
def Stands (m : Machine σ) (home : Scope) : Expr → Value → Prop
  | .name _ n, v => ∃ f, Native.ofName? n = some f ∧ v = .native f
  | .func _ fname params body, v =>
    ∃ i, v = .func i ∧ m.heap.closures[i]? = some ⟨fname, params, body, home, name⟩
  | _, _ => False

/-- Whether every name that the library declares has in a scope the value that the declaration gives
it. -/
def Installed (m : Machine σ) (home : Scope) : Prop :=
  ∀ pos x e, .define pos x e ∈ statements → ∃ v, m.scopes.get? home x = some v ∧ Stands m home e v

section

variable {m m' : Machine σ} {home : Scope}

/-- What an expression of the library stands for it stands for later, as functions last. -/
theorem Stands.of_retains {e : Expr} {v : Value} (h : Stands m home e v)
    (hheap : m.heap.Retains m'.heap) :
  Stands m' home e v
  := by
  cases e
  case name => exact h
  case func =>
    obtain ⟨i, rfl, hi⟩ := h
    exact ⟨i, rfl, hheap i _ hi⟩
  all_goals exact h.elim

/-- The library stays as long as its names do. -/
theorem Installed.congr (h : Installed m home) (hheap : m.heap.Retains m'.heap)
    (hnames : ∀ pos x e, .define pos x e ∈ statements →
      m'.scopes.get? home x = m.scopes.get? home x) :
  Installed m' home
  := by
  intro pos x e hdefine
  obtain ⟨v, hv, hstands⟩ := h pos x e hdefine
  rw [hnames pos x e hdefine]
  exact ⟨v, hv, hstands.of_retains hheap⟩

/-- The library stays as long as the scopes do that have it. -/
theorem Installed.of_tables (h : Installed m home) (hheap : m.heap.Retains m'.heap)
    (htables : ∀ j ∈ home, m'.scopes.tables[j]? = m.scopes.tables[j]?) :
  Installed m' home
  := h.congr hheap fun _ x _ _ => Scopes.get?_of_tables htables x

/-- The library stays if the binding of a name changes that it does not declare. -/
theorem Installed.of_rebinds (h : Installed m home) {id : Nat} {x : String} {now : Option Value}
    (hx : x ∉ statements.filterMap Stmt.declaredName?)
    (hscopes : m.scopes.Rebinds m'.scopes id x now) (hheap : m.heap.Retains m'.heap) :
  Installed m' home
  := by
  refine h.congr hheap fun pos y e hdefine => hscopes.get?_of_not_sees ?_
  rintro ⟨rfl, -⟩
  exact hx (List.mem_filterMap.mpr ⟨_, hdefine, rfl⟩)

/-- A name that the library declares as a native function stands for that. -/
theorem Installed.get?_native (h : Installed m home) {pos pos' : Position} {x n : String}
    {f : Native} (hdefine : .define pos x (.name pos' n) ∈ statements)
    (hf : Native.ofName? n = some f) :
  m.scopes.get? home x = some (.native f)
  := by
  obtain ⟨v, hv, f', hf', rfl⟩ := h _ _ _ hdefine
  rw [hf] at hf'
  cases hf'
  exact hv

/-- The name `push` stands for the native function that pushes. -/
theorem Installed.get?_push (h : Installed m home) :
  m.scopes.get? home "push" = some (.native .push)
  := by
  have hdefine : .define ⟨7, 1⟩ "push" (.name ⟨7, 12⟩ "__builtin_push") ∈ statements := by
    simp [statements]
  exact h.get?_native hdefine rfl

/-- The name `forEach` stands for the native function that goes through an array. -/
theorem Installed.get?_forEach (h : Installed m home) :
  m.scopes.get? home "forEach" = some (.native .forEach)
  := by
  have hdefine : .define ⟨12, 1⟩ "forEach" (.name ⟨12, 15⟩ "__builtin_forEach") ∈ statements := by
    simp [statements]
  exact h.get?_native hdefine rfl

/-- What the name of a function that goes through an array has. -/
theorem Installed.exists_combinator (h : Installed m home) (K : Combinator) :
  ∃ i, m.scopes.get? home K.name = some (.func i)
    ∧ m.heap.closures[i]? = some ⟨some K.name, K.params, K.body, home, name⟩
  := by
  have hdeclared : K.declaration ∈ statements := by
    cases K
    all_goals simp [statements]
  obtain ⟨v, hv, i, rfl, hi⟩ := h _ _ _ hdeclared
  exact ⟨i, hv, hi⟩

end

/-! ### The import -/

/-- Whether a statement binds a name that no native function has to a function or to a native
function. -/
def binds : Stmt → Bool
  | .define _ x (.name _ n) => (Native.ofName? x).isNone && (Native.ofName? n).isSome
  | .define _ x (.func ..) => (Native.ofName? x).isNone
  | _ => false

/-- All statements of the library bind functions. -/
theorem binds_statements :
  ∀ s ∈ statements, binds s = true
  := by
  decide +kernel

/-- No name is declared twice by the library. -/
theorem nodup_statements :
  (statements.filterMap Stmt.declaredName?).Nodup
  := by
  decide +kernel

/-- A statement that binds a function declares a name that no native function has. -/
theorem exists_of_binds {s : Stmt} (hs : binds s = true) :
  ∃ x, s.declaredName? = some x ∧ Native.ofName? x = none
  := by
  cases s with
  | define pos x e =>
      refine ⟨x, rfl, ?_⟩
      cases e with
      | name => exact Option.isNone_iff_eq_none.mp (Bool.and_eq_true_iff.mp hs).1
      | func => exact Option.isNone_iff_eq_none.mp hs
      | _ => cases hs
  | _ => cases hs

/-- What statements that bind functions in table `id` come to. -/
structure Adds (id : Nat) (outer : Scope) (ss : List Stmt) (m m' : Machine σ) : Prop where
  bound : ∀ pos x e, .define pos x e ∈ ss →
    ∃ v, m'.scopes.bound? id x = some v ∧ Stands m' (id :: outer) e v
  other : ∀ j n, n ∉ ss.filterMap Stmt.declaredName? → m'.scopes.bound? j n = m.scopes.bound? j n
  size : m'.scopes.tables.size = m.scopes.tables.size
  arrays : m'.heap.arrays = m.heap.arrays
  retains : m.heap.Retains m'.heap
  control : m'.control = m.control

section

variable {setting : Setting σ} {id : Nat} {outer : Scope} {m m₁ m₂ : Machine σ}

/-- No statements add nothing. -/
theorem Adds.nil :
  Adds id outer [] m m
  := by
  refine ⟨?_, fun _ _ _ => rfl, rfl, rfl, .refl _, rfl⟩
  rintro pos x e ⟨⟩

/-- The names of the first statement are kept by the others, which have other names. -/
theorem Adds.cons {s : Stmt} {ss : List Stmt} (h : Adds id outer [s] m m₁)
    (hss : Adds id outer ss m₁ m₂)
    (hs : ∀ x ∈ s.declaredName?, x ∉ ss.filterMap Stmt.declaredName?) :
  Adds id outer (s :: ss) m m₂
  := by
  constructor
  · intro pos x e hdefine
    rcases List.mem_cons.mp hdefine with rfl | hdefine
    · obtain ⟨v, hv, hstands⟩ := h.bound pos x e (List.mem_singleton_self _)
      refine ⟨v, ?_, hstands.of_retains hss.retains⟩
      rw [hss.other id x (hs x rfl)]
      exact hv
    · exact hss.bound pos x e hdefine
  · intro j n hn
    rw [List.filterMap_cons] at hn
    rw [hss.other, h.other]
    · rw [List.filterMap_cons]
      cases hx : s.declaredName? with
      | none => exact List.not_mem_nil
      | some x =>
          rw [hx] at hn
          rw [List.filterMap_nil, List.mem_singleton]
          rintro rfl
          exact hn List.mem_cons_self
    · intro hmem
      apply hn
      cases s.declaredName? with
      | none => exact hmem
      | some x => exact List.mem_cons_of_mem x hmem
  · exact hss.size.trans h.size
  · exact hss.arrays.trans h.arrays
  · exact h.retains.trans hss.retains
  · exact hss.control.trans h.control

/-- Once all statements of the library have been run, it is installed. -/
theorem Adds.installed (h : Adds id outer statements m m₁) :
  Installed m₁ (id :: outer)
  := by
  intro pos x e hdefine
  obtain ⟨v, hv, hstands⟩ := h.bound pos x e hdefine
  refine ⟨v, ?_, hstands⟩
  rw [Scopes.get?_cons, hv, Option.some_or]

/-- A name that is bound to a value. -/
theorem adds_define (hid : id < m₁.scopes.tables.size) {pos : Position} {x : String} {e : Expr}
    {v : Value} (hv : Stands m₁ (id :: outer) e v) (hscopes : m₁.scopes = m.scopes)
    (harrays : m₁.heap.arrays = m.heap.arrays) (hretains : m.heap.Retains m₁.heap)
    (hcontrol : m₁.control = m.control) :
  Adds id outer [.define pos x e] m (m₁.define (id :: outer) x v)
  := by
  have hrebinds := Scopes.rebinds_define hid outer x v
  constructor
  · intro pos' x' e' hdefine
    cases List.mem_singleton.mp hdefine
    exact ⟨v, hrebinds.bound?, hv.of_retains (.refl _)⟩
  · intro j n hn
    rw [← hscopes]
    apply hrebinds.bound?_of_ne
    rintro ⟨-, rfl⟩
    exact hn List.mem_cons_self
  · rw [← hscopes]
    exact Array.size_modify ..
  · exact harrays
  · exact hretains
  · exact hcontrol

/-- A statement that binds a function comes to `null` and adds that function. -/
theorem exists_adds_statement (setting : Setting σ) (hid : id < m.scopes.tables.size)
    (hnatives : ∀ n f, Native.ofName? n = some f → m.scopes.get? (id :: outer) n = none)
    (hfile : m.control.file = name) {s : Stmt} (hs : binds s = true) :
  ∃ m', (Task.statement s (id :: outer)).Ends setting m (.ok .null m')
    ∧ Adds id outer [s] m m'
  := by
  have hdefine {pos : Position} {x : String} {e : Expr} {v : Value} {m₁ : Machine σ}
      (he : (Task.expr e (id :: outer)).Ends setting m (.ok v m₁)) :
      (Task.statement (.define pos x e) (id :: outer)).Ends setting m
        (.ok .null (m₁.define (id :: outer) x v)) :=
    Task.ends_iff.mpr (Plan.ends_of_call he (Plan.ends_of_act rfl (Plan.ends_ret.mpr rfl)))
  cases s with
  | define pos x e =>
      cases e with
      | name pos' n =>
          obtain ⟨-, hn⟩ := Bool.and_eq_true_iff.mp hs
          obtain ⟨f, hf⟩ := Option.isSome_iff_exists.mp hn
          have hlookUp := Run.lookUp_native (hnatives n f hf) hf pos'
          have he : (Task.expr (.name pos' n) (id :: outer)).Ends setting m
              (.ok (.native f) m) :=
            Task.ends_iff.mpr (Plan.ends_of_act hlookUp (Plan.ends_ret.mpr rfl))
          exact ⟨_, hdefine he, adds_define hid ⟨f, hf, rfl⟩ rfl rfl (.refl _) rfl⟩
      | func pos' fname params body =>
          let f : Closure := ⟨fname, params, body, id :: outer, m.control.file⟩
          have he : (Task.expr (.func pos' fname params body) (id :: outer)).Ends setting m
              (.ok (.func m.heap.closures.size) { m with heap := (m.heap.newClosure f).2 }) :=
            Task.ends_iff.mpr (Plan.ends_of_act rfl (Plan.ends_ret.mpr rfl))
          have hf : f = ⟨fname, params, body, id :: outer, name⟩ := by rw [← hfile]
          have hstands : Stands { m with heap := (m.heap.newClosure f).2 } (id :: outer)
              (.func pos' fname params body) (.func m.heap.closures.size) :=
            ⟨_, rfl, hf ▸ Array.getElem?_push_size⟩
          refine ⟨_, hdefine he, ?_⟩
          refine adds_define ?_ hstands rfl rfl (m.heap.retains_newClosure f) rfl
          exact hid
      | _ => cases hs
  | _ => cases hs

/-- Statements of functions and names are all run, and add what they bind: by induction on them. -/
theorem exists_adds (setting : Setting σ) (id : Nat) (outer : Scope) (ss : List Stmt)
    (hss : ∀ s ∈ ss, binds s = true)
    (hnodup : (ss.filterMap Stmt.declaredName?).Nodup) (hid : id < m.scopes.tables.size)
    (hnatives : ∀ n f, Native.ofName? n = some f → m.scopes.get? (id :: outer) n = none)
    (hfile : m.control.file = name) :
  ∃ m', (Task.statements ss (id :: outer)).Ends setting m (.ok .null m')
    ∧ Adds id outer ss m m'
  := by
  induction ss generalizing m with
  | nil => exact ⟨m, Task.ends_statements_nil.mpr rfl, .nil⟩
  | cons s rest ih =>
      obtain ⟨hs, hrest⟩ := List.forall_mem_cons.mp hss
      obtain ⟨m₁, hends, hadds⟩ := exists_adds_statement setting hid hnatives hfile hs
      obtain ⟨x, hx, hxfree⟩ := exists_of_binds hs
      rw [List.filterMap_cons, hx, List.nodup_cons] at hnodup
      have hid₁ : id < m₁.scopes.tables.size := by
        rw [hadds.size]
        exact hid
      have hnatives₁ (n : String) (f : Native) (hf : Native.ofName? n = some f) :
          m₁.scopes.get? (id :: outer) n = none := by
        rw [← hnatives n f hf]
        refine Scopes.get?_congr fun j _ => hadds.other j n ?_
        rw [List.filterMap_cons, hx, List.filterMap_nil, List.mem_singleton]
        rintro rfl
        rw [hxfree] at hf
        cases hf
      obtain ⟨m', hends', hadds'⟩ := ih hrest hnodup.2 hid₁ hnatives₁ (hadds.control ▸ hfile)
      refine ⟨m', ?_, hadds.cons hadds' fun x' hx' => ?_⟩
      · by_cases hnil : rest = []
        · subst hnil
          obtain ⟨-, rfl⟩ : Value.null = .null ∧ m' = m₁ := by
            simpa using Task.ends_statements_nil.mp hends'
          exact Task.ends_statements_singleton.mpr hends
        · exact (Task.ends_statements_cons hnil).mpr ⟨_, hends, hends'⟩
      · rw [hx] at hx'
        cases hx'
        exact hnodup.1

/-- What a run of the statements leads to. -/
theorem adds_of_run {n : Nat} {v : Value}
    (hrun : (Task.statements statements (id :: outer)).run setting n m = .ok v m₁)
    (hid : id < m.scopes.tables.size)
    (hnatives : ∀ n f, Native.ofName? n = some f → m.scopes.get? (id :: outer) n = none)
    (hfile : m.control.file = name) :
  Adds id outer statements m m₁
  := by
  obtain ⟨m', hends, hadds⟩ := exists_adds setting id outer statements binds_statements
    nodup_statements hid hnatives hfile
  cases hends.unique ⟨n, hrun, not_false⟩
  exact hadds

/-- Importing the library into a scope that has no names of native functions binds all that the
library declares. -/
theorem exists_import (setting : Setting σ) (id : Nat) (outer : Scope)
    (hid : id < m.scopes.tables.size)
    (hnatives : ∀ n f, Native.ofName? n = some f → m.scopes.get? (id :: outer) n = none)
    (himports : name ∉ m.control.imports) (hdepth : m.control.depth < setting.options.maxDepth) :
  ∃ m', (Task.unit name (id :: outer)).Ends setting m (.ok .null m')
    ∧ Installed m' (id :: outer) ∧ m'.heap.arrays = m.heap.arrays
    ∧ m.heap.Retains m'.heap ∧ m'.control = m.control
  := by
  let inside := (Bracket.program name).opened
    (Bracket.source.opened ((Bracket.unit name).opened m))
  obtain ⟨m₁, hends, hadds⟩ := exists_adds setting id outer statements (m := inside)
    binds_statements nodup_statements hid hnatives rfl
  have hprogram : (Task.program (Program.parse text name).1 (id :: outer)).Ends setting
      (Bracket.source.opened ((Bracket.unit name).opened m))
      (.ok .null ((Bracket.program name).closed
        (Bracket.source.opened ((Bracket.unit name).opened m)) m₁)) := by
    rw [parse_text]
    exact Task.ends_program.mpr ⟨_, hends, rfl⟩
  have hunit : setting.unit? name = some (name, text) := if_pos rfl
  refine ⟨_, Setting.ends_unit_of_program hunit (by rw [parse_text]) himports hdepth hprogram,
    hadds.installed, hadds.arrays, hadds.retains, ?_⟩
  unfold Bracket.closed
  rw [hadds.control]
  rfl

end

end Library

end Scriptlet
