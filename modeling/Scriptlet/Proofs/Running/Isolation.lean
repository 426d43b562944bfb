import Scriptlet.Proofs.Balance
import Scriptlet.Proofs.Running.Discreet
import Scriptlet.Proofs.Running.Ending

/-!
# Isolation

A task that is given only what is in a closed view leaves everything else alone, however it ends,
and what it makes is in view or new (`Task.Ends.isolates`).  So an array that only a running
function has, or a name in a scope that is around no function in view, is safe from any function
that is called.

The native functions that bind names or run code in the scope of their caller are the exception:
they reach whatever that scope has.
-/

namespace Scriptlet

variable {σ : Type}

/-! ### Plans and tasks -/

/-- Whether what a task makes is in view. -/
def Yield.Seen (V : View) : (y : Yield) → y.Of → Prop
  | .value, v => v.Seen V
  | .values, vs => ∀ v ∈ vs, v.Seen V
  | .pairs, found => Pairs.Seen V found

/-- Whether a task is given only what is in view. -/
def Task.InView (V : View) {y : Yield} : Task y → Prop
  | statements _ scope | statement _ scope | block _ scope | expr _ scope | unary _ _ _ scope
  | binary _ _ _ _ scope | all _ scope | decorated _ _ scope | declared _ _ scope
  | text _ _ scope | unit _ scope | program _ scope => scope.Seen V
  | loop _ _ _ last scope => last.Seen V ∧ scope.Seen V
  | entries _ pairs scope => pairs.Seen V ∧ scope.Seen V
  | apply callee args scope _ | call callee args scope =>
    callee.Seen V ∧ (∀ v ∈ args, v.Seen V) ∧ (callee.EntersScope → scope.Seen V)
  | closure id args _ => V.closure id ∧ ∀ v ∈ args, v.Seen V
  | native f args scope => (∀ v ∈ args, v.Seen V) ∧ (f.EntersScope → scope.Seen V)
  | overElements args scope => (∀ v ∈ args, v.Seen V) ∧ scope.Seen V
  | forEach callback _ array es _ scope =>
    callback.Seen V ∧ array.Seen V ∧ (∀ v ∈ es, v.Seen V) ∧ scope.Seen V

/-- The arguments that are put into a frame. -/
def Bracket.framed : Bracket → List Value
  | body _ args => args
  | _ => []

/-- Whether a plan hands on only what is in view, as long as all that it is handed is, and makes
something that fulfils `Q` in the view that there is then. -/
def Plan.Discreet {α : Type} (Q : View → α → Prop) : View → Plan α → Prop
  | V, ret a => Q V a
  | V, leave v => v.Seen V
  | _, stop _ => True
  | V, act a next => a.InView V ∧ ∀ V' v, V.Widens V' → a.Shows V' v → (next v).Discreet Q V'
  | V, tick _ next => next.Discreet Q V
  | V, room full next => (∀ limit, (full limit).Discreet Q V) ∧ next.Discreet Q V
  | V, call (y := y) t next =>
    t.InView V ∧ ∀ V' v, V.Widens V' → y.Seen V' v → (next v).Discreet Q V'
  | V, within b t next =>
    (∀ v ∈ b.framed, v.Seen V) ∧ t.InView V
    ∧ ∀ V' v, V.Widens V' → Value.Seen V' v → (next v).Discreet Q V'

namespace Task

open Plan

variable {V : View} {setting : Setting σ} {scope : Scope}

/-- A statement hands on its scope and what has been made of its parts. -/
theorem discreet_statement {s : Stmt} (h : scope.Seen V) :
  (plan setting (statement s scope)).Discreet Value.Seen V
  := by
  rcases s with _ | ⟨_, _ | _⟩ | _ | _ | _
  case define =>
    exact ⟨h, fun _ _ hV hv => ⟨⟨h.mono hV, hv⟩, fun _ _ _ _ => trivial⟩⟩
  case ret.none => trivial
  case ret.some | expr | block => exact ⟨h, fun _ _ _ hv => hv⟩
  case use =>
    refine ⟨h, fun V' v _ hv => ?_⟩
    cases v
    case error => trivial
    all_goals exact hv

/-- An expression hands on its scope and what has been made of its parts. -/
theorem discreet_expr {e : Expr} (h : scope.Seen V) :
  (plan setting (expr e scope)).Discreet Value.Seen V
  := by
  cases e
  case name | func => exact ⟨h, fun _ _ _ hv => hv⟩
  case num | str | bool | null => trivial
  case unary | binary | decorated => exact ⟨h, fun _ _ _ hv => hv⟩
  case loop => exact ⟨⟨trivial, h⟩, fun _ _ _ hv => hv⟩
  case cond pos test yes no =>
    refine ⟨h, fun V' v hV _ => ?_⟩
    dsimp only
    split
    · exact ⟨h.mono hV, fun _ _ _ hv => hv⟩
    · cases no with
      | none => trivial
      | some no => exact ⟨h.mono hV, fun _ _ _ hv => hv⟩
  case call =>
    refine ⟨h, fun V₁ f hV₁ hf => ⟨h.mono hV₁, fun V₂ args hV₂ hargs => ?_⟩⟩
    exact ⟨⟨hf.mono hV₂, hargs, fun _ => (h.mono hV₁).mono hV₂⟩, fun _ _ _ hv => hv⟩
  case array =>
    exact ⟨h, fun _ vs _ hvs => ⟨fun v hv => hvs v (List.mem_toArray.mp hv), fun _ _ _ hv => hv⟩⟩
  case hash =>
    exact ⟨⟨Array.forall_mem_empty _, h⟩, fun _ _ _ hfound => ⟨hfound, fun _ _ _ hv => hv⟩⟩
  case index =>
    exact ⟨h, fun _ _ hV hc => ⟨h.mono hV, fun _ _ hV' _ => ⟨hc.mono hV', fun _ _ _ hv => hv⟩⟩⟩
  case assign =>
    refine ⟨h, fun _ v hV hv => ⟨⟨h.mono hV, hv⟩, fun _ found hV' _ => ?_⟩⟩
    cases found
    · trivial
    · exact hv.mono hV'

/-- A unary operator works on what its operand has come to. -/
theorem discreet_unary {pos : Position} {op : UnaryOp} {operand : Expr} (h : scope.Seen V) :
  (plan setting (unary pos op operand scope)).Discreet Value.Seen V
  := by
  cases op
  case delete =>
    cases operand
    case name => exact ⟨h, fun _ _ _ _ => trivial⟩
    all_goals trivial
  case negate | throw => exact ⟨h, fun _ _ _ _ => ⟨trivial, fun _ _ _ hv => hv⟩⟩
  case not | typeOf => exact ⟨h, fun _ _ _ _ => trivial⟩

/-- A binary operator works on what its operands have come to. -/
theorem discreet_binary {pos : Position} {op : BinaryOp} {left right : Expr} (h : scope.Seen V) :
  (plan setting (binary pos op left right scope)).Discreet Value.Seen V
  := by
  refine ⟨h, fun V₁ a hV₁ ha => ?_⟩
  dsimp only
  split
  · trivial
  · split
    · trivial
    · refine ⟨h.mono hV₁, fun V₂ b hV₂ hb => ?_⟩
      dsimp only
      split
      · trivial
      · exact ⟨⟨ha.mono hV₂, hb⟩, fun _ _ _ hv => hv⟩

/-- A loop runs its body in a new scope inside its own. -/
theorem discreet_loop {pos : Position} {test : Expr} {body : List Stmt} {last : Value}
    (hlast : last.Seen V) (h : scope.Seen V) :
  (plan setting (loop pos test body last scope)).Discreet Value.Seen V
  := by
  refine ⟨h, fun V₁ v hV₁ _ => ?_⟩
  dsimp only
  split
  · refine ⟨List.forall_mem_nil _, h.mono hV₁, fun V₂ v hV₂ hv => ?_⟩
    exact ⟨⟨hv, (h.mono hV₁).mono hV₂⟩, fun _ _ _ hv => hv⟩
  · exact hlast.mono hV₁

/-- A decorated declaration hands on its scope, and the callable that its decorator has come to. -/
theorem discreet_decorated {decorator : Expr} {declaration : Stmt} (h : scope.Seen V) :
  (plan setting (decorated decorator declaration scope)).Discreet Value.Seen V
  := by
  refine ⟨h, fun V₁ f hV₁ hf => ?_⟩
  dsimp only
  cases declaration.declaredName? with
  | none => trivial
  | some name =>
      have h₁ := h.mono hV₁
      refine ⟨h₁, fun V₂ v hV₂ hv => ?_⟩
      have h₂ := h₁.mono hV₂
      refine ⟨⟨hf.mono hV₂, List.forall_mem_singleton.mpr hv, fun _ => h₂⟩, ?_⟩
      intro V₃ wrapped hV₃ hwrapped
      exact ⟨⟨h₂.mono hV₃, hwrapped⟩, fun _ _ hV₄ _ => hwrapped.mono hV₄⟩

/-- A declaration behind a decorator hands on its scope. -/
theorem discreet_declared {declaration : Stmt} {name : String} (h : scope.Seen V) :
  (plan setting (declared declaration name scope)).Discreet Value.Seen V
  := by
  cases declaration
  case define => exact ⟨h, fun _ _ hV _ => ⟨h.mono hV, fun _ _ _ hv => hv⟩⟩
  case expr => exact ⟨h, fun _ _ _ hv => hv⟩
  all_goals trivial

/-- A call hands its arguments on to what is called, and its scope only to a native function that
works on it. -/
theorem discreet_apply {callee : Value} {args : List Value} {pos : Position}
    (h : (apply callee args scope pos).InView V) :
  (plan setting (apply callee args scope pos)).Discreet Value.Seen V
  := by
  obtain ⟨hcallee, hargs, hscope⟩ := h
  cases callee
  case native =>
    refine ⟨List.forall_mem_nil _, ⟨hargs, hscope⟩, fun V' v _ hv => ?_⟩
    cases v
    case error => trivial
    all_goals exact hv
  case func => exact ⟨⟨hcallee, hargs⟩, fun _ _ _ hv => hv⟩
  all_goals trivial

/-- A function is run in the scope it was written in, not in that of its caller. -/
theorem discreet_closure {i : Nat} {args : List Value} {pos : Position}
    (h : (closure i args pos).InView V) :
  (plan setting (closure i args pos)).Discreet Value.Seen V
  := by
  obtain ⟨hi, hargs⟩ := h
  refine ⟨hi, fun V₁ f hV₁ hf => ?_⟩
  have hargs₁ : ∀ v ∈ args, v.Seen V₁ := fun v hv => (hargs v hv).mono hV₁
  dsimp only
  split
  · trivial
  · refine ⟨fun _ => trivial, ⟨hf, Bindings.forall_ofList_zip f.params hargs₁⟩, ?_⟩
    intro V₂ inner hV₂ hinner
    exact ⟨fun v hv => (hargs₁ v hv).mono hV₂, hinner, fun _ _ _ hv => hv⟩

/-- A native function works on its arguments, and on the scope of its caller only if it is one of
those that do. -/
theorem discreet_native {f : Native} {args : List Value}
    (h : (native f args scope).InView V) :
  (plan setting (native f args scope)).Discreet Value.Seen V
  := by
  obtain ⟨hargs, hscope⟩ := h
  rcases nativePlan_cases setting f args scope with ⟨name, rest, rfl, rfl, hplan⟩
    | ⟨code, rest, rfl, rfl, -, hplan⟩ | ⟨rfl, hplan⟩ | hplan | ⟨v, rfl | rfl, hplan⟩
  all_goals simp only [plan, hplan]
  · exact ⟨hscope trivial, fun _ _ _ hv => hv⟩
  · exact ⟨hscope trivial, fun _ _ _ hv => hv⟩
  · exact ⟨⟨hargs, hscope trivial⟩, fun _ _ _ hv => hv⟩
  · exact ⟨⟨hargs, hscope⟩, fun _ _ _ hv => hv⟩
  · trivial
  · trivial

/-- What goes through an array in view hands on its elements. -/
theorem discreet_overElements {args : List Value} (hargs : ∀ v ∈ args, v.Seen V)
    (h : scope.Seen V) :
  (plan setting (overElements args scope)).Discreet Value.Seen V
  := by
  rcases args with _ | ⟨_ | _ | _ | _ | id | _ | _ | _ | _, _ | ⟨callback, args⟩⟩
  case cons.array.cons =>
    obtain ⟨hid, hrest⟩ := List.forall_mem_cons.mp hargs
    obtain ⟨hcallback, -⟩ := List.forall_mem_cons.mp hrest
    refine ⟨hid, fun V₁ es hV₁ hes => ?_⟩
    have hid₁ : Value.Seen V₁ (.array id) := hid.mono hV₁
    cases callback
    case func =>
      refine ⟨hcallback.mono hV₁, fun V₂ _ hV₂ _ => ?_⟩
      exact ⟨⟨(hcallback.mono hV₁).mono hV₂, hid₁.mono hV₂, fun v hv => (hes v hv).mono hV₂,
        (h.mono hV₁).mono hV₂⟩, fun _ _ _ hv => hv⟩
    case native => exact ⟨⟨trivial, hid₁, hes, h.mono hV₁⟩, fun _ _ _ hv => hv⟩
    all_goals trivial
  all_goals trivial

/-- Each round over an array hands on an element in view, and its number and the array if the
callback takes them. -/
theorem discreet_forEach {callback : Value} {arity : Nat} {array : Value} {es : List Value}
    {i : Nat} (h : (forEach callback arity array es i scope).InView V) :
  (plan setting (forEach callback arity array es i scope)).Discreet Value.Seen V
  := by
  obtain ⟨hcallback, harray, hes, hscope⟩ := h
  cases es with
  | nil => trivial
  | cons element rest =>
      obtain ⟨helement, hrest⟩ := List.forall_mem_cons.mp hes
      have hargs : ∀ v ∈ [element, Value.num (Float.ofNat i), array].take arity, v.Seen V := by
        intro v hv
        have hmem := List.mem_of_mem_take hv
        simp only [List.mem_cons, List.not_mem_nil, or_false] at hmem
        rcases hmem with rfl | rfl | rfl
        · exact helement
        · trivial
        · exact harray
      refine ⟨⟨hcallback, hargs, fun _ => hscope⟩, fun V' v hV hv => ?_⟩
      cases v
      case error => trivial
      all_goals
        exact ⟨⟨hcallback.mono hV, harray.mono hV, fun v hv => (hrest v hv).mono hV,
          hscope.mono hV⟩, fun _ _ _ hv => hv⟩

/-- A text is run in the scope of its caller. -/
theorem discreet_text {code file : String} (h : scope.Seen V) :
  (plan setting (text code file scope)).Discreet Value.Seen V
  := by
  refine ⟨fun _ => trivial, ?_⟩
  rcases Program.parse code file with ⟨p, _ | ⟨e, rest⟩⟩
  · exact ⟨List.forall_mem_nil _, h, fun _ _ _ hv => hv⟩
  · trivial

/-- A unit is run in the scope of its importer. -/
theorem discreet_unit {name : String} (h : scope.Seen V) :
  (plan setting (unit name scope)).Discreet Value.Seen V
  := by
  simp only [plan]
  rcases setting.unit? name with _ | ⟨key, code⟩
  · trivial
  · refine ⟨trivial, fun V' imported hV _ => ?_⟩
    dsimp only
    split
    · trivial
    · exact ⟨List.forall_mem_nil _, h.mono hV, fun _ _ _ hv => hv⟩

/-- The plan of a task that is given only what is in view is discreet. -/
theorem discreet {y : Yield} {t : Task y} (h : t.InView V) :
  (t.plan setting).Discreet (fun V' => y.Seen V') V
  := by
  cases t with
  | statements ss scope =>
      rcases ss with _ | ⟨s, _ | ⟨s', rest⟩⟩
      · trivial
      · exact ⟨h, fun _ _ _ hv => hv⟩
      · exact ⟨h, fun _ _ hV _ => ⟨h.mono hV, fun _ _ _ hv => hv⟩⟩
  | statement s scope => exact discreet_statement h
  | block body scope =>
      exact ⟨⟨h, List.forall_mem_nil _⟩, fun _ _ _ hinner => ⟨hinner, fun _ _ _ hv => hv⟩⟩
  | expr e scope => exact discreet_expr h
  | unary pos op operand scope => exact discreet_unary h
  | binary pos op left right scope => exact discreet_binary h
  | loop pos test body last scope => exact discreet_loop h.1 h.2
  | all es scope =>
      cases es with
      | nil => exact List.forall_mem_nil _
      | cons e rest =>
          refine ⟨h, fun V₁ v hV₁ hv => ⟨h.mono hV₁, fun V₂ vs hV₂ hvs => ?_⟩⟩
          exact List.forall_mem_cons.mpr ⟨hv.mono hV₂, hvs⟩
  | entries es pairs scope =>
      obtain ⟨hpairs, h⟩ := h
      rcases es with _ | ⟨⟨key, value⟩, rest⟩
      · exact hpairs
      · refine ⟨h, fun V₁ k hV₁ hk => ⟨h.mono hV₁, fun V₂ v hV₂ hv => ?_⟩⟩
        refine ⟨⟨(hpairs.mono hV₁).mono hV₂, hk.mono hV₂, hv⟩, fun V₃ found hV₃ hfound => ?_⟩
        exact ⟨⟨hfound, ((h.mono hV₁).mono hV₂).mono hV₃⟩, fun _ _ _ h => h⟩
  | decorated decorator declaration scope => exact discreet_decorated h
  | declared declaration name scope => exact discreet_declared h
  | apply callee args scope pos => exact discreet_apply h
  | closure id args pos => exact discreet_closure h
  | native f args scope => exact discreet_native h
  | overElements args scope => exact discreet_overElements h.1 h.2
  | forEach callback arity array es i scope => exact discreet_forEach h
  | call callee args scope =>
      refine ⟨trivial, fun V' site hV _ => ⟨List.forall_mem_nil _, ?_, fun _ _ _ hv => hv⟩⟩
      obtain ⟨hcallee, hargs, hscope⟩ := h
      exact ⟨hcallee.mono hV, fun v hv => (hargs v hv).mono hV, fun hf => (hscope hf).mono hV⟩
  | text code file scope => exact discreet_text h
  | unit name scope => exact discreet_unit h
  | program p scope =>
      refine ⟨List.forall_mem_nil _, h, fun V' v _ hv => ?_⟩
      cases v
      case error => trivial
      all_goals exact hv

end Task

/-! ### Runs of discreet plans -/

section

variable {V : View} {m : Machine σ} {setting : Setting σ}

/-- Entering a bracket with arguments in view keeps the view closed. -/
theorem Bracket.closed_opened (hm : V.Closed m) {b : Bracket} (hb : ∀ v ∈ b.framed, v.Seen V) :
  V.Closed (b.opened m)
  := by
  refine hm.of_eq rfl rfl ?_
  cases b
  case body => exact List.forall_mem_cons.mpr ⟨hb, hm.frames⟩
  all_goals exact hm.frames

/-- Leaving a bracket adds no frame. -/
theorem Bracket.mem_frames_closed {b : Bracket} {now : Machine σ} {frame : Frame}
    (hframe : frame ∈ (b.closed m now).control.frames) :
  frame ∈ now.control.frames
  := by
  cases b
  case body => exact List.mem_of_mem_tail hframe
  all_goals exact hframe

/-- What has been discreet inside a bracket is discreet around it. -/
theorem Bracket.discreet_outcome {b : Bracket} {r : Outcome σ Value}
    (hr : r.Discreet V (b.opened m) Value.Seen) :
  (b.outcome m r).Discreet V m Value.Seen
  := by
  obtain ⟨V', hV', hresult⟩ := hr
  refine ⟨V', ?_, ?_⟩
  · rw [b.machine_outcome]
    have houtside : V.Isolates m V' r.machine := hV'.of_eq_left rfl rfl
    refine houtside.of_eq rfl rfl fun frame hframe => ?_
    exact hV'.closed.frames frame (b.mem_frames_closed hframe)
  · rcases r with ⟨v, m'⟩ | ⟨u, m'⟩
    · exact hresult
    · cases u
      case ret =>
        cases b
        all_goals exact hresult
      all_goals
        cases b
        all_goals trivial

/-- Counting a step changes nothing but its count. -/
theorem Run.discreet_tick (hm : V.Closed m) (pos : Position) :
  Outcome.Discreet V m (fun V' _ => V' = V) (Run.tick setting pos m)
  := by
  rw [Run.tick_apply]
  split
  · exact ⟨V, .refl hm, rfl⟩
  · have hcounted (k : Nat) :
        V.Isolates m V { m with control := { m.control with steps := k } } :=
      (View.Isolates.refl hm).of_eq rfl rfl hm.frames
    dsimp only
    split
    · exact ⟨V, hcounted _, trivial⟩
    · exact ⟨V, hcounted _, rfl⟩

/-- The run of a discreet plan is discreet if those of its tasks are. -/
theorem Plan.Discreet.run {n : Nat}
    (hn : ∀ {y : Yield} (t : Task y) (V : View) (m : Machine σ), V.Closed m → t.InView V →
      Outcome.Discreet V m (fun V' => y.Seen V') (t.run setting n m))
    {α : Type} {Q : View → α → Prop} {p : Plan α} (hp : p.Discreet Q V) (hm : V.Closed m) :
  Outcome.Discreet V m Q (p.run setting (Task.run setting n) m)
  := by
  induction p generalizing V m with
  | ret a => exact ⟨V, .refl hm, hp⟩
  | leave v => exact ⟨V, .refl hm, hp⟩
  | stop f => exact ⟨V, .refl hm, trivial⟩
  | act a next ih =>
      rw [Plan.run_act]
      exact (a.discreet_run setting hp.1 m hm).andThen fun V' v m' hV hm' hv =>
        ih v (hp.2 V' v hV hv) hm'
  | tick pos next ih =>
      rw [Plan.run_tick]
      refine (Run.discreet_tick hm pos).andThen fun V' _ m' _ hm' heq => ?_
      subst heq
      exact ih hp hm'
  | room full next ihfull ih =>
      rw [Plan.run_room]
      split
      · exact ihfull _ (hp.1 _) hm
      · exact ih hp.2 hm
  | call t next ih =>
      rw [Plan.run_call]
      exact (hn t V m hm hp.1).andThen fun V' v m' hV hm' hv => ih v (hp.2 V' v hV hv) hm'
  | within b t next ih =>
      obtain ⟨hframed, ht, hnext⟩ := hp
      rw [Plan.run_within]
      have hrun := hn t V _ (Bracket.closed_opened hm hframed) ht
      exact (Bracket.discreet_outcome hrun).andThen fun V' v m' hV hm' hv =>
        ih v (hnext V' v hV hv) hm'

/-- The run of a task that is given only what is in a closed view leaves everything else alone, and
what it makes is in view afterwards. -/
theorem Task.discreet_run (n : Nat) {y : Yield} (t : Task y) (V : View) (m : Machine σ)
    (hm : V.Closed m) (ht : t.InView V) :
  Outcome.Discreet V m (fun V' => y.Seen V') (t.run setting n m)
  := by
  induction n generalizing y V m with
  | zero =>
      rw [run_zero]
      exact ⟨V, .refl hm, trivial⟩
  | succ n ih =>
      rw [run_succ]
      exact (discreet ht).run ih hm

/-- However a task ends that is given only what is in a closed view, everything else is left alone,
and what the task makes is in view. -/
theorem Task.Ends.isolates {y : Yield} {t : Task y} {r : Outcome σ y.Of} (ht : t.Ends setting m r)
    (hm : V.Closed m) (hview : t.InView V) :
  Outcome.Discreet V m (fun V' => y.Seen V') r
  := by
  obtain ⟨n, rfl, -⟩ := ht
  exact t.discreet_run n V m hm hview

/-- However a task ends that is given only what is there, what anything leads to is there
afterwards. -/
theorem Task.Ends.closed {y : Yield} {t : Task y} {r : Outcome σ y.Of} (ht : t.Ends setting m r)
    (hm : m.Closed) (hview : t.InView (View.all m)) :
  r.machine.Closed
  := by
  obtain ⟨V', hV', -⟩ := ht.isolates hm hview
  have hclosed := hV'.closed
  rwa [hV'.eq_all] at hclosed

end

end Scriptlet
