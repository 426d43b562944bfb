import Scriptlet.Proofs.Confinement
import Scriptlet.Proofs.Running.Applying
import Scriptlet.Proofs.Scoping

/-!
# Stacked decorators

Decorators may stand in front of each other.  Their callables come first, in the order in which they
are written, then the value of the declaration, and then the callables are applied, the innermost
one first: each to what the one before has made, to which the name is bound at that moment
(`Task.Wraps`).
-/

namespace Scriptlet

variable {σ : Type}

/-- `s.Stacks ds x value` if `s` declares `x` as `value` behind the decorators `ds`. -/
inductive Stmt.Stacks : Stmt → List Expr → String → Expr → Prop where
  | define {pos : Position} {x : String} {value : Expr} : Stacks (.define pos x value) [] x value
  | decorated {pos pos' : Position} {d : Expr} {s : Stmt} {ds : List Expr} {x : String}
      {value : Expr} :
      Stacks s ds x value → Stacks (.expr pos (.decorated pos' d s)) (d :: ds) x value

/-- What is declared behind decorators is the name of the innermost declaration. -/
theorem Stmt.Stacks.declaredName? {s : Stmt} {ds : List Expr} {x : String} {value : Expr}
    (h : s.Stacks ds x value) :
  s.declaredName? = some x
  := by
  induction h with
  | define => rfl
  | decorated _ ih => exact ih

/-- Whether a scope itself binds a name to a value. -/
def Machine.Binds (m : Machine σ) (scope : Scope) (x : String) (v : Value) : Prop :=
  ∃ id ∈ scope.head?, m.scopes.bound? id x = some v

/-- Whether there is a scope. -/
def Machine.HasScope (m : Machine σ) (scope : Scope) : Prop :=
  ∃ id ∈ scope.head?, id < m.scopes.tables.size

variable {setting : Setting σ} {scope : Scope} {x : String} {v : Value} {m m' : Machine σ}

/-- A scope that is there binds a name that is declared in it. -/
theorem Machine.HasScope.binds_define (h : m.HasScope scope) :
  (m.define scope x v).Binds scope x v
  := by
  cases scope with
  | nil =>
      obtain ⟨id, ⟨⟩, -⟩ := h
  | cons id outer =>
      obtain ⟨_, ⟨⟩, hid⟩ := h
      exact ⟨id, rfl, (Scopes.rebinds_define hid outer x v).bound?⟩

/-- What a scope itself binds is what is read in it. -/
theorem Machine.Binds.get? (h : m.Binds scope x v) :
  m.scopes.get? scope x = some v
  := by
  cases scope with
  | nil =>
      obtain ⟨id, ⟨⟩, -⟩ := h
  | cons id outer =>
      obtain ⟨_, ⟨⟩, hid⟩ := h
      rw [Scopes.get?_cons, hid, Option.some_or]

/-- A scope that is there stays there when a name is declared. -/
theorem Machine.HasScope.define (h : m.HasScope scope) :
  (m.define scope x v).HasScope scope
  := by
  obtain ⟨id, hhead, hid⟩ := h
  refine ⟨id, hhead, Nat.lt_of_lt_of_le hid ?_⟩
  exact (Scopes.growsIn_define m.scopes scope x v).size

namespace Task

variable {y : Yield} {r : Outcome σ Value}

/-- A scope stays. -/
theorem Ends.hasScope {t : Task y} {r : Outcome σ y.Of} (ht : t.Ends setting m r)
    (h : m.HasScope scope) :
  r.machine.HasScope scope
  := by
  obtain ⟨n, rfl, -⟩ := ht
  obtain ⟨id, hhead, hid⟩ := h
  exact ⟨id, hhead, Nat.lt_of_lt_of_le hid (t.confines_run setting n m).size⟩

/-- Whether applying callables, of which the last one is the innermost, to the value `v` of `x`
comes to an outcome.  Each is applied to one value, which is the one that `x` has, and then `x` has
the value of that call. -/
def Wraps (setting : Setting σ) (scope : Scope) (x : String) (v : Value) (m : Machine σ) :
    List (Value × Position) → Outcome σ Value → Prop
  | [], r => r = .ok v m
  | (f, pos) :: inner, r =>
    Outcome.Then (Wraps setting scope x v m inner)
      (fun w m₁ r =>
        m₁.Binds scope x w
        ∧ Outcome.Then ((apply f [w] scope pos).Ends setting m₁)
          (fun w' m₂ r => r = .ok w' (m₂.define scope x w')) r)
      r

/-- What decorators are applied to is bound to the name, and so is what becomes of it. -/
theorem Wraps.binds {inner : List (Value × Position)} (h : Wraps setting scope x v m inner r)
    (hm : m.Binds scope x v) (hscope : m.HasScope scope) {w : Value} (hr : r = .ok w m') :
  m'.Binds scope x w ∧ m'.HasScope scope
  := by
  induction inner generalizing r w m' with
  | nil =>
      cases (show r = .ok v m from h).symm.trans hr
      exact ⟨hm, hscope⟩
  | cons f inner ih =>
      obtain ⟨_ | _, hinner, hfollows⟩ := h
      · rename_i w₁ m₁
        obtain ⟨_, r₂, happly, hend⟩ := hfollows
        have hscope₁ := (ih hinner rfl).2
        cases r₂ with
        | ok w₂ m₂ =>
            cases (show r = .ok w₂ (m₂.define scope x w₂) from hend).symm.trans hr
            have hscope₂ : m₂.HasScope scope := happly.hasScope hscope₁
            exact ⟨hscope₂.binds_define, hscope₂.define⟩
        | error u m₂ => cases hend.symm.trans hr
      · cases hfollows.symm.trans hr

/-- What the declaration of a value behind decorators comes to. -/
def Decorates (setting : Setting σ) (ds : List Expr) (x : String) (value : Expr) (scope : Scope)
    (m : Machine σ) : Outcome σ Value → Prop :=
  Outcome.Then ((Task.all ds scope).Ends setting m) fun fs m₁ =>
    Outcome.Then ((expr value scope).Ends setting m₁) fun v m₂ =>
      Wraps setting scope x v (m₂.define scope x v) (fs.zip (ds.map Expr.pos))

/-- Behind a decorated declaration the scope binds the name to its value. -/
theorem Decorates.binds {ds : List Expr} {value : Expr} {w : Value}
    (h : Decorates setting ds x value scope m (.ok w m')) (hscope : m.HasScope scope) :
  m'.Binds scope x w
  := by
  obtain ⟨_ | _, hds, hvalue⟩ := h
  · obtain ⟨_ | _, hvalue, hwraps⟩ := hvalue
    · have hscope₂ := hvalue.hasScope (hds.hasScope hscope)
      exact (hwraps.binds hscope₂.binds_define hscope₂.define rfl).1
    · cases hwraps
  · cases hvalue

/-- A decorated declaration comes to the callable, to the declaration and to the call, and binds the
name to the value of the call. -/
theorem ends_decorated {d : Expr} {s : Stmt} (hname : s.declaredName? = some x) :
  (decorated d s scope).Ends setting m r
    ↔ Outcome.Then ((expr d scope).Ends setting m)
      (fun f m₀ => Outcome.Then ((declared s x scope).Ends setting m₀)
        fun v m₁ => Outcome.Then ((apply f [v] scope d.pos).Ends setting m₁)
          fun w m₂ r => r = .ok w (m₂.define scope x w)) r
  := by
  refine ends_iff.trans (Plan.ends_call.trans ?_)
  rw [hname]
  refine Outcome.then_congr fun f m₀ _ => Plan.ends_call.trans ?_
  refine Outcome.then_congr fun v m₁ _ => Plan.ends_call.trans ?_
  exact Outcome.then_congr fun w m₂ _ => Plan.ends_act.trans Plan.ends_ret

/-- A declaration without decorators. -/
theorem ends_declared_define {pos : Position} {value : Expr} (hscope : m.HasScope scope) :
  (declared (.define pos x value) x scope).Ends setting m r
    ↔ Decorates setting [] x value scope m r
  := by
  have hall : Decorates setting [] x value scope m r
      ↔ Outcome.Then ((expr value scope).Ends setting m)
        (fun v m₁ r => r = .ok v (m₁.define scope x v)) r :=
    (Outcome.then_congr_left fun _ => ends_all_nil).trans Outcome.then_ok
  have hstatement (r : Outcome σ Value) :
      (statement (.define pos x value) scope).Ends setting m r
        ↔ Outcome.Then ((expr value scope).Ends setting m)
          (fun v m₁ r => r = .ok .null (m₁.define scope x v)) r := by
    refine ends_iff.trans (Plan.ends_call.trans ?_)
    exact Outcome.then_congr fun v m₁ _ => Plan.ends_act.trans Plan.ends_ret
  rw [hall]
  refine ends_iff.trans (Plan.ends_call.trans ?_)
  refine (Outcome.then_congr_left hstatement).trans (Outcome.then_assoc.trans ?_)
  refine Outcome.then_congr fun v m₁ hvalue => Outcome.then_ok.trans ?_
  refine Plan.ends_act.trans (Plan.ends_ret.trans ?_)
  have hbinds : (m₁.define scope x v).Binds scope x v :=
    Machine.HasScope.binds_define (hvalue.hasScope hscope)
  rw [hbinds.get?]
  rfl

/-- A declaration behind decorators does what `Decorates` says: by induction on the decorators, the
outermost of which is evaluated before and applied after all that the others do. -/
theorem ends_declared_stack {s : Stmt} {ds : List Expr} {value : Expr} (h : s.Stacks ds x value)
    (hscope : m.HasScope scope) :
  (declared s x scope).Ends setting m r ↔ Decorates setting ds x value scope m r
  := by
  induction h generalizing m r with
  | define => exact ends_declared_define hscope
  | @decorated pos pos' d s ds x value hs ih =>
      have hinner (r : Outcome σ Value) :
          Decorates setting (d :: ds) x value scope m r
            ↔ Outcome.Then ((expr d scope).Ends setting m)
              (fun f m₀ => Outcome.Then (Decorates setting ds x value scope m₀)
                fun w m₁ r => m₁.Binds scope x w
                  ∧ Outcome.Then ((apply f [w] scope d.pos).Ends setting m₁)
                    (fun w' m₂ r => r = .ok w' (m₂.define scope x w')) r) r := by
        refine (Outcome.then_congr_left fun _ => ends_all_cons).trans (Outcome.then_assoc.trans ?_)
        refine Outcome.then_congr fun f m₀ _ => Outcome.then_assoc.trans ?_
        refine Iff.trans ?_ Outcome.then_assoc.symm
        refine Outcome.then_congr fun fs m₁ _ => Outcome.then_ok.trans ?_
        exact Outcome.then_assoc.symm
      rw [hinner]
      refine ends_iff.trans (ends_last.trans (ends_iff.trans (ends_last.trans ?_)))
      refine (ends_decorated hs.declaredName?).trans ?_
      refine Outcome.then_congr fun f m₀ hf => ?_
      have hscope₀ : m₀.HasScope scope := hf.hasScope hscope
      refine (Outcome.then_congr_left fun _ => ih hscope₀).trans ?_
      exact Outcome.then_congr fun w m₁ hw => (and_iff_right (hw.binds hscope₀)).symm

end Task

/-- A declaration behind decorators evaluates their callables in the order in which they are written
and then the declared value, and applies the callables, the innermost one first, each to one value:
the declared one or what the callable before it has made, which is what the name is bound to at that
moment.  The last value is the value of the whole, and the name is bound to it.  If anything of this
fails, the whole fails likewise, and nothing else of it is done. -/
theorem Stmt.Stacks.composes {s : Stmt} {ds : List Expr} {x : String} {value : Expr}
    (h : s.Stacks ds x value) {scope : Scope} {m : Machine σ} (hscope : m.HasScope scope)
    (setting : Setting σ) (pos : Position) (d : Expr) :
  (∀ r, (Task.expr (.decorated pos d s) scope).Ends setting m r
    ↔ Outcome.Then ((Task.all (d :: ds) scope).Ends setting m)
      (fun fs m₁ => Outcome.Then ((Task.expr value scope).Ends setting m₁)
        fun v m₂ => Task.Wraps setting scope x v (m₂.define scope x v)
          (fs.zip ((d :: ds).map Expr.pos))) r)
  ∧ ∀ w m', (Task.expr (.decorated pos d s) scope).Ends setting m (.ok w m')
    → m'.Binds scope x w
  := by
  have hiff (r : Outcome σ Value) :
      (Task.expr (.decorated pos d s) scope).Ends setting m r
        ↔ Task.Decorates setting (d :: ds) x value scope m r := by
    have hdeclared : (Task.declared (.expr pos (.decorated pos d s)) x scope).Ends setting m r
        ↔ (Task.expr (.decorated pos d s) scope).Ends setting m r :=
      Task.ends_iff.trans Task.ends_last
    have hstacks : Stacks (.expr pos (.decorated pos d s)) (d :: ds) x value := .decorated h
    rw [← hdeclared]
    exact Task.ends_declared_stack hstacks hscope
  exact ⟨hiff, fun w m' hends => ((hiff _).mp hends).binds hscope⟩

/-- The last element of the first element of an array. -/
theorem Stmt.Stacks.composes_natives :
  let setting : Setting := ⟨{ Options.standard with useLibrary := false }, Device.standard, .empty⟩
  let m : Machine := { Machine.initial (.ofLines []) with scopes := ⟨#[[]]⟩ }
  let pop : Expr := .name ⟨1, 2⟩ "__builtin_pop"
  let shift : Expr := .name ⟨1, 17⟩ "__builtin_shift"
  let value : Expr := .array ⟨1, 42⟩ [.array ⟨1, 43⟩ [.null ⟨1, 44⟩, .bool ⟨1, 50⟩ true]]
  let s : Stmt := .expr ⟨1, 16⟩ (.decorated ⟨1, 16⟩ shift (.define ⟨1, 34⟩ "x" value))
  s.Stacks [shift] "x" value ∧ m.HasScope [0]
  ∧ ∃ m', (Task.expr (.decorated ⟨1, 1⟩ pop s) [0]).Ends setting m (.ok (.bool true) m')
    ∧ Outcome.Then ((Task.all [pop, shift] [0]).Ends setting m)
      (fun fs m₁ => Outcome.Then ((Task.expr value [0]).Ends setting m₁)
        fun v m₂ => Task.Wraps setting [0] "x" v (m₂.define [0] "x" v)
          (fs.zip [⟨1, 2⟩, ⟨1, 17⟩])) (.ok (.bool true) m')
    ∧ m'.Binds [0] "x" (.bool true)
  := by
  intro setting m pop shift value s
  have hs : s.Stacks [shift] "x" value := .decorated .define
  have hscope : m.HasScope [0] := ⟨0, rfl, Nat.zero_lt_one⟩
  have htrue : Outcome.isTrue
      ((Task.expr (.decorated ⟨1, 1⟩ pop s) [0]).run setting 20 m) = true := by
    decide +kernel
  obtain ⟨m', hrun⟩ := Outcome.exists_of_isTrue htrue
  have hends : (Task.expr (.decorated ⟨1, 1⟩ pop s) [0]).Ends setting m (.ok (.bool true) m') :=
    ⟨20, hrun, id⟩
  obtain ⟨hiff, hbinds⟩ := Stmt.Stacks.composes hs hscope setting ⟨1, 1⟩ pop
  exact ⟨hs, hscope, m', hends, (hiff _).mp hends, hbinds _ _ hends⟩

end Scriptlet
