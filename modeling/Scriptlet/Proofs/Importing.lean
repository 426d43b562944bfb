import Scriptlet.Proofs.Importing.Graph
import Scriptlet.Proofs.Reentry
import Scriptlet.Proofs.Running.Names
import Scriptlet.Proofs.Running.Reporting
import Scriptlet.Proofs.Sequence

/-!
# Imports of plain modules

What an import comes to if the modules it can reach only import each other and bind names to
literals: an error if it reaches a cycle, and otherwise a value, with all the names bound that the
modules it reaches declare.

An import runs the statements of its file while the file is being imported.  So by induction on the
number of files that are not being imported, it comes to an error exactly if it meets one that is.
-/

namespace Scriptlet

variable {σ : Type}

/-- Whether an outcome is an error value, if it is a value. -/
def Outcome.isError? : Outcome σ Value → Option Bool
  | .ok v _ => some v.isError
  | .error _ _ => none

/-- An outcome that is tested to be an error value, or to be none, is a value. -/
theorem Outcome.exists_of_isError? {r : Outcome σ Value} {b : Bool} (h : r.isError? = some b) :
  ∃ v m, r = .ok v m ∧ v.isError = b
  := by
  cases r with
  | ok v m => exact ⟨v, m, rfl, Option.some.inj h⟩
  | error u m => cases h

/-! ### Names that are kept -/

/-- Whether `m'` stands where `m` does, with no fewer names bound in table `id`. -/
structure Machine.Keeps (id : Nat) (m m' : Machine σ) : Prop where
  control : m'.control = m.control
  size : id < m.scopes.tables.size → id < m'.scopes.tables.size
  names : ∀ x, (m.scopes.bindings id).has x → (m'.scopes.bindings id).has x

namespace Machine

variable {id : Nat} {m m₁ m₂ : Machine σ}

/-- A machine binds the names that it binds. -/
theorem Keeps.refl (id : Nat) (m : Machine σ) :
  m.Keeps id m
  := ⟨rfl, fun h => h, fun _ h => h⟩

/-- Names that are kept twice are kept. -/
theorem Keeps.trans (h₁ : m.Keeps id m₁) (h₂ : m₁.Keeps id m₂) :
  m.Keeps id m₂
  := ⟨h₂.control.trans h₁.control, fun h => h₂.size (h₁.size h),
    fun x h => h₂.names x (h₁.names x h)⟩

/-- Names are kept while the heap grows. -/
theorem Extends.keeps (h : m.Extends m₁) :
  m.Keeps id m₁
  := by
  refine ⟨h.control, ?_, ?_⟩
  · rw [h.scopes]
    exact fun hid => hid
  · rw [h.scopes]
    exact fun _ hx => hx

/-- A declaration binds its name, and no other is bound or lost. -/
theorem has_define {outer : Scope} (hid : id < m.scopes.tables.size) (name : String) (v : Value)
    (x : String) :
  ((m.define (id :: outer) name v).scopes.bindings id).has x
    ↔ x = name ∨ (m.scopes.bindings id).has x
  := by
  have hbindings : (m.define (id :: outer) name v).scopes.bindings id
      = (m.scopes.bindings id).set name v := by
    simp [define, Scopes.define, Scopes.modify, Scopes.bindings, hid, Array.getElem_modify]
  rw [hbindings, Bindings.has_set_iff]

/-- A declaration keeps the names that are bound. -/
theorem keeps_define {outer : Scope} (hid : id < m.scopes.tables.size) (name : String)
    (v : Value) :
  m.Keeps id (m.define (id :: outer) name v)
  := by
  refine ⟨rfl, fun _ => ?_, fun x hx => (has_define hid name v x).mpr (.inr hx)⟩
  simpa [define, Scopes.define, Scopes.modify] using hid

end Machine

/-- Leaving a bracket undoes what entering it did, and binds and unbinds no names. -/
theorem Bracket.keeps_closed (b : Bracket) {id : Nat} {m m' : Machine σ}
    (h : (b.opened m).Keeps id m') :
  m.Keeps id (b.closed m m')
  := by
  refine ⟨?_, h.size, h.names⟩
  have hcontrol : m'.control = b.enter m.control := h.control
  unfold closed
  rw [hcontrol]
  cases b
  all_goals rfl

namespace Setting

/-! ### What imports come to -/

/-- What an import of a file comes to that starts from `m`. -/
structure Imported (setting : Setting σ) (names : List String) (id : Nat) (file : String)
    (m : Machine σ) (v : Value) (m' : Machine σ) : Prop where
  keeps : m.Keeps id m'
  /-- An import that meets a file which is being imported is an error. -/
  circular : setting.Meets m.control.imports file →
    ∃ f, v = .error f ∧ ∃ name ∈ names, f.cause = .circularImport name
  /-- Any other import binds what is declared in the files that are reached. -/
  bound : ¬ setting.Meets m.control.imports file →
    v.isError = false ∧ ∀ file' x, setting.Reaches file file' → setting.Declares file' x →
      (m'.scopes.bindings id).has x

/-- Whether a statement imports a file and meets one of `imports`. -/
def Stuck (setting : Setting σ) (imports : List String) : Stmt → Prop
  | .use _ name =>
    ∃ file text, setting.unit? name = some (file, text) ∧ setting.Meets imports file
  | _ => False

/-- Whether a statement binds a name, itself or by what it imports. -/
def Binds (setting : Setting σ) (x : String) : Stmt → Prop
  | .define _ name _ => x = name
  | .use _ name =>
    ∃ file text file', setting.unit? name = some (file, text) ∧ setting.Reaches file file'
      ∧ setting.Declares file' x
  | _ => False

/-- What statements come to that start from `m`. -/
structure Ran (setting : Setting σ) (names : List String) (id : Nat) (ss : List Stmt)
    (m : Machine σ) (r : Outcome σ Value) : Prop where
  keeps : m.Keeps id r.machine
  /-- A statement that meets a file which is being imported stops them. -/
  stuck : (∃ s ∈ ss, setting.Stuck m.control.imports s) →
    ∃ f m', r = .error (.fault f) m' ∧ ∃ name ∈ names, f.cause = .circularImport name
  /-- Otherwise all names are bound. -/
  bound : (∀ s ∈ ss, ¬ setting.Stuck m.control.imports s) →
    ∃ v m', r = .ok v m' ∧ v.isError = false
      ∧ ∀ s ∈ ss, ∀ x, setting.Binds x s → (m'.scopes.bindings id).has x

/-- Whether imports of units with a name in `names` come to what they should wherever a run stands
at `c`. -/
def Importable (setting : Setting σ) (names : List String) (id : Nat) (outer : Scope)
    (c : Control) : Prop :=
  ∀ name ∈ names, ∃ file text, setting.unit? name = some (file, text)
    ∧ ∀ m : Machine σ, m.control = c → id < m.scopes.tables.size →
      ∃ v m', (Task.unit name (id :: outer)).Ends setting m (.ok v m')
        ∧ setting.Imported names id file m v m'

section

variable {setting : Setting σ} {names : List String} {id : Nat} {outer : Scope} {m m₁ : Machine σ}
  {s : Stmt} {rest : List Stmt} {r : Outcome σ Value}

/-- No statements come to `null`, and nothing is met or bound. -/
theorem Ran.nil :
  setting.Ran names id [] m (.ok .null m)
  := by
  refine ⟨.refl id m, ?_, fun _ => ⟨.null, m, rfl, rfl, List.forall_mem_nil _⟩⟩
  rintro ⟨s, hs, -⟩
  cases hs

/-- Statements stop if the first of them does. -/
theorem Ran.stop {u : Unwind} (h : setting.Ran names id [s] m (.error u m₁)) :
  setting.Ran names id (s :: rest) m (.error u m₁)
  := by
  have hstuck : setting.Stuck m.control.imports s := by
    by_contra hs
    obtain ⟨v, m', hok, -⟩ := h.bound (List.forall_mem_singleton.mpr hs)
    cases hok
  refine ⟨h.keeps, fun _ => h.stuck ⟨s, List.mem_singleton_self s, hstuck⟩, fun hfree => ?_⟩
  exact absurd hstuck (hfree s List.mem_cons_self)

/-- Statements come to what the others do once the first one has come to a value. -/
theorem Ran.cons {v : Value} (h : setting.Ran names id [s] m (.ok v m₁))
    (hrest : setting.Ran names id rest m₁ r) :
  setting.Ran names id (s :: rest) m r
  := by
  have hfree : ¬ setting.Stuck m.control.imports s := by
    intro hs
    obtain ⟨f, m', herror, -⟩ := h.stuck ⟨s, List.mem_singleton_self s, hs⟩
    cases herror
  have hcontrol : m₁.control = m.control := h.keeps.control
  obtain ⟨v', m', hok, -, hbound⟩ := h.bound (List.forall_mem_singleton.mpr hfree)
  cases hok
  constructor
  · exact h.keeps.trans hrest.keeps
  · rintro ⟨s', hs', hstuck⟩
    apply hrest.stuck
    rw [hcontrol]
    rcases List.mem_cons.mp hs' with rfl | hs'
    · exact absurd hstuck hfree
    · exact ⟨s', hs', hstuck⟩
  · intro hall
    rw [← hcontrol] at hall
    obtain ⟨w, m₂, rfl, hw, hbound'⟩ := hrest.bound fun s' hs' =>
      hall s' (List.mem_cons_of_mem s hs')
    refine ⟨w, m₂, rfl, hw, List.forall_mem_cons.mpr ⟨fun x hx => ?_, hbound'⟩⟩
    exact hrest.keeps.names x (hbound s (List.mem_singleton_self s) x hx)

/-- A name that is declared as a literal is bound. -/
theorem exists_ran_define {pos : Position} {name : String} {value : Expr}
    (hvalue : value.isLiteral = true) (hid : id < m.scopes.tables.size) :
  ∃ r, (Task.statement (.define pos name value) (id :: outer)).Ends setting m r
    ∧ setting.Ran names id [.define pos name value] m r
  := by
  obtain ⟨v, m₁, hends, hextends, -⟩ := value.makes_literal hvalue (id :: outer) m
  have hkeeps : m.Keeps id m₁ := hextends.keeps
  have hid₁ := hkeeps.size hid
  refine ⟨.ok .null (m₁.define (id :: outer) name v), ?_, ?_⟩
  · exact Task.ends_iff.mpr
      (Plan.ends_of_call hends (Plan.ends_of_act rfl (Plan.ends_ret.mpr rfl)))
  · refine ⟨hkeeps.trans (Machine.keeps_define hid₁ name v), ?_, fun _ => ⟨.null, _, rfl, rfl, ?_⟩⟩
    · rintro ⟨s, hs, hstuck⟩
      rw [List.mem_singleton.mp hs] at hstuck
      exact hstuck.elim
    · refine List.forall_mem_singleton.mpr fun x hx => ?_
      exact (Machine.has_define hid₁ name v x).mpr (.inl hx)

/-- A `use` of a unit that can be imported comes to what the import does. -/
theorem exists_ran_use {pos : Position} {name : String}
    (himports : setting.Importable names id outer m.control) (hname : name ∈ names)
    (hid : id < m.scopes.tables.size) :
  ∃ r, (Task.statement (.use pos name) (id :: outer)).Ends setting m r
    ∧ setting.Ran names id [.use pos name] m r
  := by
  obtain ⟨file, text, hunit, himport⟩ := himports name hname
  obtain ⟨v, m', hends, himported⟩ := himport m rfl hid
  by_cases hmeets : setting.Meets m.control.imports file
  · obtain ⟨f, rfl, circle, hcircle, hcause⟩ := himported.circular hmeets
    refine ⟨.error (.fault (f.located pos)) m', ?_, himported.keeps, fun _ => ?_, fun hfree => ?_⟩
    · exact Task.ends_iff.mpr (Plan.ends_of_call hends (Plan.ends_stop.mpr rfl))
    · exact ⟨f.located pos, m', rfl, circle, hcircle, (f.cause_located pos).trans hcause⟩
    · exact absurd ⟨file, text, hunit, hmeets⟩ (hfree _ (List.mem_singleton_self _))
  · obtain ⟨hv, hbound⟩ := himported.bound hmeets
    refine ⟨.ok v m', ?_, himported.keeps, ?_, fun _ => ⟨v, m', rfl, hv, ?_⟩⟩
    · apply Task.ends_iff.mpr
      apply Plan.ends_of_call hends
      cases v
      case error => cases hv
      all_goals exact Plan.ends_ret.mpr rfl
    · rintro ⟨s, hs, hstuck⟩
      rw [List.mem_singleton.mp hs] at hstuck
      obtain ⟨file', text', hunit', hmeets'⟩ := hstuck
      rw [hunit] at hunit'
      cases hunit'
      exact absurd hmeets' hmeets
    · refine List.forall_mem_singleton.mpr fun x hx => ?_
      obtain ⟨file', text', file₁, hunit', hreaches, hdeclares⟩ := hx
      rw [hunit] at hunit'
      cases hunit'
      exact hbound file₁ x hreaches hdeclares

/-- Every plain statement comes to what it should. -/
theorem exists_ran_statement (himports : setting.Importable names id outer m.control)
    (hs : s.isPlain names = true) (hid : id < m.scopes.tables.size) :
  ∃ r, (Task.statement s (id :: outer)).Ends setting m r ∧ setting.Ran names id [s] m r
  := by
  cases s with
  | define pos name value => exact exists_ran_define hs hid
  | use pos name => exact exists_ran_use himports (List.contains_iff_mem.mp hs) hid
  | _ => cases hs

/-- Statements come to what they should if imports do. -/
theorem exists_ran (himports : setting.Importable names id outer m.control) (ss : List Stmt)
    (hss : ∀ s ∈ ss, s.isPlain names = true) (hid : id < m.scopes.tables.size) :
  ∃ r, (Task.statements ss (id :: outer)).Ends setting m r ∧ setting.Ran names id ss m r
  := by
  induction ss generalizing m with
  | nil => exact ⟨.ok .null m, Task.ends_statements_nil.mpr rfl, .nil⟩
  | cons s rest ih =>
      obtain ⟨hs, hrest⟩ := List.forall_mem_cons.mp hss
      obtain ⟨r₁, hends, hran⟩ := exists_ran_statement himports hs hid
      by_cases hnil : rest = []
      · rw [hnil]
        exact ⟨r₁, Task.ends_statements_singleton.mpr hends, hran⟩
      · cases r₁ with
        | ok v m₁ =>
            rw [← hran.keeps.control] at himports
            obtain ⟨r, hends', hran'⟩ := ih himports hrest (hran.keeps.size hid)
            refine ⟨r, ?_, hran.cons hran'⟩
            exact (Task.ends_statements_cons hnil).mpr ⟨_, hends, hends'⟩
        | error u m₁ =>
            refine ⟨.error u m₁, ?_, hran.stop⟩
            exact (Task.ends_statements_cons hnil).mpr ⟨_, hends, rfl⟩

/-! ### The text of a file -/

variable {name file text : String} {imports : List String}

/-- A file imports those that are named by a `use` in its text. -/
theorem uses_iff (hunit : setting.unit? name = some (file, text)) (child : String) :
  setting.Uses file child
    ↔ ∃ pos name' text', .use pos name' ∈ (Program.parse text name).1.statements
      ∧ setting.unit? name' = some (child, text')
  := by
  unfold Uses
  simp only [contains_iff hunit]

/-- Whether a statement of a file is stuck while the file is being imported tells whether an import
of the file meets one that is. -/
theorem exists_stuck_iff (hunit : setting.unit? name = some (file, text))
    (hfile : file ∉ imports) :
  (∃ s ∈ (Program.parse text name).1.statements, setting.Stuck (file :: imports) s)
    ↔ setting.Meets imports file
  := by
  rw [meets_iff hfile]
  constructor
  · rintro ⟨s, hs, hstuck⟩
    cases s with
    | use pos name' =>
        obtain ⟨child, text', hunit', hmeets⟩ := hstuck
        exact ⟨child, (uses_iff hunit child).mpr ⟨pos, name', text', hs, hunit'⟩, hmeets⟩
    | _ => exact hstuck.elim
  · rintro ⟨child, huses, hmeets⟩
    obtain ⟨pos, name', text', hs, hunit'⟩ := (uses_iff hunit child).mp huses
    exact ⟨.use pos name', hs, child, text', hunit', hmeets⟩

/-- What is declared in a file that is reached is bound by a statement of the first one. -/
theorem exists_binds (hunit : setting.unit? name = some (file, text)) {file' x : String}
    (hreaches : setting.Reaches file file') (hdeclares : setting.Declares file' x) :
  ∃ s ∈ (Program.parse text name).1.statements, setting.Binds x s
  := by
  rcases Relation.ReflTransGen.cases_head hreaches with rfl | ⟨child, huses, hchild⟩
  · obtain ⟨pos, value, hcontains⟩ := hdeclares
    exact ⟨.define pos x value, (contains_iff hunit _).mp hcontains, rfl⟩
  · obtain ⟨pos, name', text', hs, hunit'⟩ := (uses_iff hunit child).mp huses
    exact ⟨.use pos name', hs, child, text', file', hunit', hchild, hdeclares⟩

/-- An import of a unit comes to the value that the program in it does. -/
theorem ends_unit_of_program {scope : Scope} {v : Value}
    (hunit : setting.unit? name = some (file, text)) (herrors : (Program.parse text name).2 = [])
    (hfile : file ∉ m.control.imports) (hdepth : m.control.depth < setting.options.maxDepth)
    (hends : (Task.program (Program.parse text name).1 scope).Ends setting
      (Bracket.source.opened ((Bracket.unit file).opened m)) (.ok v m₁)) :
  (Task.unit name scope).Ends setting m
    (.ok v ((Bracket.unit file).closed m
      (Bracket.source.closed ((Bracket.unit file).opened m) m₁)))
  := by
  have htext : (Task.text text name scope).Ends setting ((Bracket.unit file).opened m)
      (.ok v (Bracket.source.closed ((Bracket.unit file).opened m) m₁)) := by
    have hparse : Program.parse text name = ((Program.parse text name).1, []) :=
      Prod.ext rfl herrors
    have hroom : ¬ setting.options.maxDepth ≤ ((Bracket.unit file).opened m).control.depth :=
      Nat.not_le_of_lt hdepth
    rw [Task.ends_iff]
    simp only [Task.plan]
    rw [Plan.ends_room, if_neg hroom, hparse]
    exact Plan.ends_of_within hends (Plan.ends_ret.mpr rfl)
  rw [Task.ends_iff]
  simp only [Task.plan, hunit]
  apply Plan.ends_of_act (Action.run_isImported setting file m)
  rw [decide_eq_false hfile]
  exact Plan.ends_of_within htext (Plan.ends_ret.mpr rfl)

/-- An import comes to what it should if the statements of the file do. -/
theorem Ran.exists_imported (hunit : setting.unit? name = some (file, text))
    (herrors : (Program.parse text name).2 = []) (hfile : file ∉ m.control.imports)
    (hdepth : m.control.depth < setting.options.maxDepth)
    (hends : (Task.statements (Program.parse text name).1.statements (id :: outer)).Ends setting
      ((Bracket.program name).opened (Bracket.source.opened ((Bracket.unit file).opened m))) r)
    (hran : setting.Ran names id (Program.parse text name).1.statements
      ((Bracket.program name).opened (Bracket.source.opened ((Bracket.unit file).opened m))) r) :
  ∃ v m', (Task.unit name (id :: outer)).Ends setting m (.ok v m')
    ∧ setting.Imported names id file m v m'
  := by
  have hkeeps := Bracket.keeps_closed _ (Bracket.keeps_closed _ (Bracket.keeps_closed _ hran.keeps))
  have himport {v : Value} {m' : Machine σ}
      (hconclude : .ok v m' = Program.conclude name
        (Bracket.source.opened ((Bracket.unit file).opened m)) r) :=
    ends_unit_of_program hunit herrors hfile hdepth (Task.ends_program.mpr ⟨r, hends, hconclude⟩)
  by_cases hmeets : setting.Meets m.control.imports file
  · obtain ⟨f, m', rfl, circle, hcircle, hcause⟩ :=
      hran.stuck ((exists_stuck_iff hunit hfile).mpr hmeets)
    refine ⟨.error (f.inFile name), _, himport rfl, hkeeps, fun _ => ?_, absurd hmeets⟩
    exact ⟨f.inFile name, rfl, circle, hcircle, (f.cause_inFile name).trans hcause⟩
  · have hfree := mt (exists_stuck_iff hunit hfile).mp hmeets
    simp only [not_exists, not_and] at hfree
    obtain ⟨v, m', rfl, hv, hbound⟩ := hran.bound hfree
    have hconclude : .ok v ((Bracket.program name).closed
        (Bracket.source.opened ((Bracket.unit file).opened m)) m')
        = Program.conclude name (Bracket.source.opened ((Bracket.unit file).opened m))
          (.ok v m') := by
      cases v
      case error => cases hv
      all_goals rfl
    refine ⟨v, _, himport hconclude, hkeeps, fun h => absurd h hmeets, fun _ => ⟨hv, ?_⟩⟩
    intro file' x hreaches hdeclares
    obtain ⟨s, hs, hbinds⟩ := exists_binds hunit hreaches hdeclares
    exact hbound s hs x hbinds

/-! ### All imports -/

/-- Wherever a run stands, imports come to what they should if there is room for the files that are
not being imported: by induction on their number, which is smaller in the text of a file. -/
theorem importable (hmodules : ∀ name ∈ names, setting.isModule names name = true) (id : Nat)
    (outer : Scope) (c : Control)
    (hroom : c.depth + (setting.files names \ c.imports.toFinset).card
      ≤ setting.options.maxDepth) :
  setting.Importable names id outer c
  := by
  induction hk : (setting.files names \ c.imports.toFinset).card using Nat.strong_induction_on
    generalizing c with
  | _ k ih =>
      intro name hname
      obtain ⟨file, text, hunit, herrors, hplain⟩ := exists_of_isModule (hmodules name hname)
      refine ⟨file, text, hunit, fun m hm hid => ?_⟩
      subst hm
      by_cases hfile : file ∈ m.control.imports
      · refine ⟨.failure (.circularImport name), m, Task.ends_circular hunit hfile,
          .refl id m, fun _ => ⟨_, rfl, name, hname, rfl⟩, fun hfree => ?_⟩
        exact absurd (meets_of_mem hfile) hfree
      · let inside := (Bracket.program name).opened
          (Bracket.source.opened ((Bracket.unit file).opened m))
        have hdepth : inside.control.depth = m.control.depth + 1 := rfl
        have hfewer : (setting.files names \ inside.control.imports.toFinset).card + 1
            = (setting.files names \ m.control.imports.toFinset).card := by
          have hmem : file ∈ setting.files names \ m.control.imports.toFinset := by
            rw [Finset.mem_sdiff, List.mem_toFinset]
            exact ⟨mem_files hname hunit, hfile⟩
          change (setting.files names \ (file :: m.control.imports).toFinset).card + 1 = _
          rw [List.toFinset_cons, Finset.sdiff_insert, Finset.card_erase_add_one hmem]
        have himports : setting.Importable names id outer inside.control :=
          ih _ (by omega) inside.control (by omega) rfl
        obtain ⟨r, hends, hran⟩ := exists_ran himports _ hplain hid
        exact hran.exists_imported hunit herrors hfile (by omega) hends

/-! ### Imports that start anywhere -/

/-- Whether an import of a file can start on a machine: the files that are being imported are among
those that lead to it, there is room for all others, and the scope is there. -/
structure Starts (setting : Setting σ) (names : List String) (scope : Scope) (file : String)
    (m : Machine σ) : Prop where
  leads : ∀ file' ∈ m.control.imports, Relation.TransGen setting.Uses file' file
  room : m.control.depth + (setting.files names \ m.control.imports.toFinset).card
    ≤ setting.options.maxDepth
  scope : ∃ id ∈ scope.head?, id < m.scopes.tables.size

/-- Whether an import of a unit comes to a value that is not an error. -/
def Finishes (setting : Setting σ) (name : String) (scope : Scope) (m : Machine σ) : Prop :=
  ∃ v m', (Task.unit name scope).Ends setting m (.ok v m') ∧ v.isError = false

/-- From a run that has imported nothing yet every import can start, if there is room for all
files. -/
theorem starts_initial (hfiles : (setting.files names).card ≤ setting.options.maxDepth)
    (hm : m.control = .initial) (hid : id < m.scopes.tables.size) :
  setting.Starts names (id :: outer) file m
  := by
  constructor
  · rw [hm]
    exact List.forall_mem_nil _
  · rw [hm]
    simpa [Control.depth, Control.initial] using hfiles
  · exact ⟨id, rfl, hid⟩

/-- An import meets a file that is being imported exactly if its file reaches a cycle, for those
that are being imported lead to it. -/
theorem Starts.meets_iff {scope : Scope} (h : setting.Starts names scope file m) :
  setting.Meets m.control.imports file ↔ setting.ReachesCycle file
  := by
  constructor
  · rintro ⟨file', hreaches, hmem | hloop⟩
    · exact ⟨file', hreaches, (h.leads file' hmem).trans_left hreaches⟩
    · exact ⟨file', hreaches, hloop⟩
  · rintro ⟨file', hreaches, hloop⟩
    exact ⟨file', hreaches, .inr hloop⟩

/-- Wherever the import of a module starts, it comes to what it should. -/
theorem Starts.exists_imported (hmodules : ∀ name ∈ names, setting.isModule names name = true)
    (hname : name ∈ names) (hunit : setting.unit? name = some (file, text))
    (h : setting.Starts names (id :: outer) file m) :
  ∃ v m', (Task.unit name (id :: outer)).Ends setting m (.ok v m')
    ∧ setting.Imported names id file m v m'
  := by
  obtain ⟨file', text', hunit', himport⟩ :=
    importable hmodules id outer m.control h.room name hname
  rw [hunit] at hunit'
  cases hunit'
  obtain ⟨_, ⟨⟩, hid⟩ := h.scope
  exact himport m rfl hid

/-- Wherever the import of a module starts, it finishes exactly if the module reaches no cycle. -/
theorem Starts.finishes_iff {scope : Scope}
    (hmodules : ∀ name ∈ names, setting.isModule names name = true) (hname : name ∈ names)
    (hunit : setting.unit? name = some (file, text)) (h : setting.Starts names scope file m) :
  setting.Finishes name scope m ↔ ¬ setting.ReachesCycle file
  := by
  rw [← h.meets_iff]
  cases scope with
  | nil =>
      obtain ⟨_, ⟨⟩, -⟩ := h.scope
  | cons id outer =>
      obtain ⟨v, m', hends, himported⟩ := h.exists_imported hmodules hname hunit
      constructor
      · rintro ⟨v', m₂, hends', hv⟩ hmeets
        cases hends'.unique hends
        obtain ⟨f, rfl, -⟩ := himported.circular hmeets
        cases hv
      · intro hfree
        exact ⟨v, m', hends, (himported.bound hfree).1⟩

/-- A module that has been imported can be imported again. -/
theorem Starts.finishes_again {scope₁ scope₂ : Scope} {m₁ m₂ : Machine σ}
    (hmodules : ∀ name ∈ names, setting.isModule names name = true) (hname : name ∈ names)
    (hunit : setting.unit? name = some (file, text)) (h₁ : setting.Starts names scope₁ file m₁)
    (hfinishes : setting.Finishes name scope₁ m₁) (h₂ : setting.Starts names scope₂ file m₂) :
  setting.Finishes name scope₂ m₂
  := by
  rw [h₁.finishes_iff hmodules hname hunit] at hfinishes
  apply (h₂.finishes_iff hmodules hname hunit).mpr hfinishes

/-- An import of a module on a machine on which nothing is being run comes to a value.  It is an
error, and says which import is circular, exactly if the module reaches a cycle of imports.
Otherwise all names that are declared in the modules it reaches are bound in the importing scope.
A module that has been imported can be imported again, wherever that is done. -/
theorem import_exact (hmodules : ∀ name ∈ names, setting.isModule names name = true)
    (hfiles : (setting.files names).card ≤ setting.options.maxDepth) (hname : name ∈ names)
    (hunit : setting.unit? name = some (file, text)) (hm : m.control = .initial)
    (hid : id < m.scopes.tables.size) (outer : Scope) :
  ∃ v m', (Task.unit name (id :: outer)).Ends setting m (.ok v m')
    ∧ (v.isError = true ↔ setting.ReachesCycle file)
    ∧ (∀ file', setting.Starts names (id :: outer) file' m')
    ∧ (∀ f, v = .error f → ∃ circle ∈ names, f.message = "Circular import of " ++ circle)
    ∧ (v.isError = false → ∀ file' x, setting.Reaches file file' → setting.Declares file' x →
      (m'.scopes.bindings id).has x)
    ∧ ∀ again ∈ names, ∀ file' text', setting.unit? again = some (file', text') →
      ∀ scope₁ scope₂ m₁ m₂, setting.Starts names scope₁ file' m₁ →
        setting.Finishes again scope₁ m₁ → setting.Starts names scope₂ file' m₂ →
        setting.Finishes again scope₂ m₂
  := by
  have hstarts : setting.Starts names (id :: outer) file m := starts_initial hfiles hm hid
  obtain ⟨v, m', hends, himported⟩ := hstarts.exists_imported hmodules hname hunit
  have hafter : ∀ file', setting.Starts names (id :: outer) file' m' := fun _ =>
    starts_initial hfiles (himported.keeps.control.trans hm) (himported.keeps.size hid)
  refine ⟨v, m', hends, ?_⟩
  by_cases hmeets : setting.Meets m.control.imports file
  · obtain ⟨f, rfl, circle, hcircle, hcause⟩ := himported.circular hmeets
    refine ⟨iff_of_true rfl (hstarts.meets_iff.mp hmeets), hafter, ?_, ?_, ?_⟩
    · rintro _ ⟨⟩
      exact ⟨circle, hcircle, congrArg Cause.message hcause⟩
    · rintro ⟨⟩
    · exact fun again hagain file' text' hunit' _ _ _ _ h₁ hfinishes h₂ =>
        h₁.finishes_again hmodules hagain hunit' hfinishes h₂
  · obtain ⟨hv, hbound⟩ := himported.bound hmeets
    refine ⟨iff_of_false ?_ (mt hstarts.meets_iff.mpr hmeets), hafter, ?_, fun _ => hbound, ?_⟩
    · rw [hv]
      exact Bool.false_ne_true
    · rintro f rfl
      cases hv
    · exact fun again hagain file' text' hunit' _ _ _ _ h₁ hfinishes h₂ =>
        h₁.finishes_again hmodules hagain hunit' hfinishes h₂

/-- Modules of which two are imported twice, one of them under two names, and two that import each
other. -/
theorem import_exact_diamond :
  let disk : Disk := { Disk.empty with files := [
    (["a.tiny"], "use b; use c; let x = \x7bk: [1, null]\x7d;".toUTF8),
    (["b.tiny"], "use c; let y = func(n) \x7b n \x7d; use \"./c\"".toUTF8),
    (["c.tiny"], "let z = \"end\"".toUTF8),
    (["d.tiny"], "use c; use e; let x = true".toUTF8), (["e.tiny"], "use \"./d\"".toUTF8)] }
  let setting : Setting := ⟨.standard, Device.standard, disk⟩
  let names := ["a", "b", "c", "./c", "d", "./d", "e"]
  let m : Machine := { Machine.initial (.ofLines []) with scopes := ⟨#[[]]⟩ }
  (∀ name ∈ names, setting.isModule names name = true)
  ∧ (setting.files names).card ≤ setting.options.maxDepth
  ∧ m.control = .initial ∧ 0 < m.scopes.tables.size
  ∧ (∃ v m', (Task.unit "a" [0]).Ends setting m (.ok v m') ∧ v.isError = false
    ∧ (∀ file' x, setting.Reaches "/home/a.tiny" file' → setting.Declares file' x →
      (m'.scopes.bindings 0).has x)
    ∧ setting.Finishes "a" [0] m')
  ∧ setting.ReachesCycle "/home/d.tiny"
  := by
  intro disk setting names m
  have hmodules : ∀ name ∈ names, setting.isModule names name = true := by decide +kernel
  have hfiles : (setting.files names).card ≤ setting.options.maxDepth := by decide +kernel
  have hid : 0 < m.scopes.tables.size := by decide
  have ha : (setting.unit? "a").map Prod.fst = some "/home/a.tiny" := by decide +kernel
  have hd : (setting.unit? "d").map Prod.fst = some "/home/d.tiny" := by decide +kernel
  have hrun : Outcome.isError? ((Task.unit "a" [0]).run setting 60 m) = some false := by
    decide +kernel
  have hrun' : Outcome.isError? ((Task.unit "d" [0]).run setting 60 m) = some true := by
    decide +kernel
  have hmem : "a" ∈ names ∧ "d" ∈ names := by decide
  have hm : m.control = .initial := rfl
  clear_value disk setting names m
  obtain ⟨⟨file, text⟩, hunit, rfl⟩ := Option.map_eq_some_iff.mp ha
  obtain ⟨⟨file', text'⟩, hunit', rfl⟩ := Option.map_eq_some_iff.mp hd
  obtain ⟨v, m', hrun, hv⟩ := Outcome.exists_of_isError? hrun
  obtain ⟨v', m₁, hrun', hv'⟩ := Outcome.exists_of_isError? hrun'
  obtain ⟨w, m₂, hends, -, hafter, -, hbound, hagain⟩ :=
    import_exact hmodules hfiles hmem.1 hunit hm hid []
  obtain ⟨w', m₃, hends', hcycle, -⟩ :=
    import_exact hmodules hfiles hmem.2 hunit' hm hid []
  cases hends.unique ⟨60, hrun, id⟩
  cases hends'.unique ⟨60, hrun', id⟩
  refine ⟨hmodules, hfiles, hm, hid, ⟨v, m', hends, hv, hbound hv, ?_⟩, hcycle.mp hv'⟩
  exact hagain "a" hmem.1 _ text hunit [0] [0] m m' (starts_initial hfiles hm hid)
    ⟨v, m', hends, hv⟩ (hafter _)

end

end Setting

end Scriptlet
