import Scriptlet.Proofs.Running.Steady

/-!
# Names in scopes

Which names runs add to the scopes there are.  Declaring a name adds it to one scope; a name that
is assigned to is there already, taking a name away adds none, and a new scope leaves the others as
they are.  No other action has to do with names.
-/

namespace Scriptlet

variable {σ : Type}

/-! ### Bindings -/

namespace Bindings

variable {b : Bindings} {name n : String} {v : Value}

/-- Bindings have a name if one of them is of it. -/
theorem has_iff :
  b.has n ↔ ∃ p ∈ b, n = p.1
  := by
  unfold has get?
  simp only [List.lookup_isSome_iff, beq_iff_eq]

/-- After a name has been set, each binding is of that name or was there before. -/
theorem mem_set {p : String × Value} (hp : p ∈ b.set name v) :
  p.1 = name ∨ p ∈ b
  := by
  induction b with
  | nil => exact .inl (congrArg Prod.fst (List.mem_singleton.mp hp))
  | cons q rest ih =>
      unfold set at hp
      split at hp
      · rename_i heq
        rcases List.mem_cons.mp hp with rfl | hp
        · exact .inl heq.symm
        · exact .inr (List.mem_cons_of_mem _ hp)
      · rcases List.mem_cons.mp hp with rfl | hp
        · exact .inr List.mem_cons_self
        · exact (ih hp).imp_right (List.mem_cons_of_mem _)

/-- After a name has been set, no other one has come in. -/
theorem has_set (h : (b.set name v).has n) :
  n = name ∨ b.has n
  := by
  obtain ⟨p, hp, rfl⟩ := has_iff.mp h
  exact (mem_set hp).imp_right fun hp => has_iff.mpr ⟨p, hp, rfl⟩

/-- After a name has been set, it is there and the other names are as before. -/
theorem has_set_iff :
  (b.set name v).has n ↔ n = name ∨ b.has n
  := by
  refine ⟨has_set, ?_⟩
  induction b with
  | nil => simp [set, has_iff]
  | cons p rest ih =>
      obtain ⟨k, w⟩ := p
      unfold set
      split
      · rename_i heq
        subst heq
        simp [has_iff]
      · simp only [has_iff, List.mem_cons, exists_eq_or_imp] at ih ⊢
        rintro (h | h | h)
        · exact .inr (ih (.inl h))
        · exact .inl h
        · exact .inr (ih (.inr h))

/-- Taking a name away brings none in. -/
theorem has_erase (h : (b.erase name).has n) :
  b.has n
  := by
  obtain ⟨p, hp, rfl⟩ := has_iff.mp h
  exact has_iff.mpr ⟨p, (List.mem_filter.mp hp).1, rfl⟩

/-- A value that is found stands in one of the bindings. -/
theorem mem_of_get? (h : b.get? name = some v) :
  ∃ p ∈ b, p.2 = v
  := by
  obtain ⟨l₁, l₂, rfl, -⟩ := List.lookup_eq_some_iff.mp h
  exact ⟨_, List.mem_append_right _ List.mem_cons_self, rfl⟩

section

variable {P : Value → Prop}

/-- What all values fulfil, they fulfil when one more that does is set. -/
theorem forall_set (hb : ∀ p ∈ b, P p.2) (name : String) (hv : P v) :
  ∀ p ∈ b.set name v, P p.2
  := by
  induction b with
  | nil => exact List.forall_mem_singleton.mpr hv
  | cons p rest ih =>
      obtain ⟨hp, hrest⟩ := List.forall_mem_cons.mp hb
      unfold set
      split
      · exact List.forall_mem_cons.mpr ⟨hv, hrest⟩
      · exact List.forall_mem_cons.mpr ⟨hp, ih hrest⟩

/-- What all values fulfil, those that are left fulfil. -/
theorem forall_erase (hb : ∀ p ∈ b, P p.2) (name : String) :
  ∀ p ∈ b.erase name, P p.2
  := fun p hp => hb p (List.mem_filter.mp hp).1

/-- Parameters that are bound to arguments. -/
theorem forall_ofList_zip (names : List String) {args : List Value} (hargs : ∀ v ∈ args, P v) :
  ∀ p ∈ ofList (names.zip args), P p.2
  := by
  have hfold (pairs : List (String × Value)) (hpairs : ∀ p ∈ pairs, P p.2) (b : Bindings)
      (hb : ∀ p ∈ b, P p.2) : ∀ p ∈ pairs.foldl (fun b p => b.set p.1 p.2) b, P p.2 := by
    induction pairs generalizing b with
    | nil => exact hb
    | cons p rest ih =>
        obtain ⟨hp, hrest⟩ := List.forall_mem_cons.mp hpairs
        exact ih hrest _ (forall_set hb p.1 hp)
  exact hfold _ (fun _ hp => hargs _ (List.of_mem_zip hp).2) [] (List.forall_mem_nil _)

end

end Bindings

/-! ### Scopes -/

namespace Scopes

/-- Whether no scope of `s` but those of which the numbers fulfil `A` has more names in `s'`. -/
structure GrowsIn (A : Nat → Prop) (s s' : Scopes) : Prop where
  size : s.tables.size ≤ s'.tables.size
  names : ∀ id < s.tables.size, ¬ A id → ∀ name, (s'.bindings id).has name →
    (s.bindings id).has name

variable {A B : Nat → Prop} {s s' s'' : Scopes}

/-- No scope has more names than itself. -/
theorem GrowsIn.refl (A : Nat → Prop) (s : Scopes) :
  s.GrowsIn A s
  := ⟨Nat.le_refl _, fun _ _ _ _ h => h⟩

/-- Scopes that are the same have no more names. -/
theorem GrowsIn.of_eq (heq : s' = s) :
  s.GrowsIn A s'
  := by
  rw [heq]
  exact .refl A s

/-- Names that are added to scopes that are new since `s` do not count. -/
theorem GrowsIn.extend (h : s.GrowsIn A s') (h' : s'.GrowsIn B s'')
    (hB : ∀ id, B id → A id ∨ s.tables.size ≤ id) :
  s.GrowsIn A s''
  := by
  refine ⟨Nat.le_trans h.size h'.size, fun id hid hA name hname => ?_⟩
  have hBid : ¬ B id := fun hid' => (hB id hid').elim hA (Nat.not_le_of_lt hid)
  exact h.names id hid hA name (h'.names id (Nat.lt_of_lt_of_le hid h.size) hBid name hname)

/-- If names are added twice to scopes that `A` picks, then they are added to these alone. -/
theorem GrowsIn.trans (h : s.GrowsIn A s') (h' : s'.GrowsIn A s'') :
  s.GrowsIn A s''
  := h.extend h' fun _ => .inl

/-- A change of one scope changes none of the others. -/
theorem bindings_modify (s : Scopes) (i j : Nat) (f : Bindings → Bindings) :
  (s.modify i f).bindings j = s.bindings j
    ∨ j = i ∧ (s.modify i f).bindings j = f (s.bindings j)
  := by
  unfold bindings Scopes.modify
  simp only [Array.getD_eq_getD_getElem?, Array.getElem?_modify]
  split
  · rename_i hij
    subst hij
    cases s.tables[i]? with
    | none => exact .inl rfl
    | some b => exact .inr ⟨rfl, rfl⟩
  · exact .inl rfl

/-- A change of a scope that `A` does not pick must not add a name. -/
theorem growsIn_modify (s : Scopes) (i : Nat) {f : Bindings → Bindings}
    (hf : ¬ A i → ∀ name, (f (s.bindings i)).has name → (s.bindings i).has name) :
  s.GrowsIn A (s.modify i f)
  := by
  refine ⟨Nat.le_of_eq (Array.size_modify ..).symm, fun id _ hA name hname => ?_⟩
  rcases s.bindings_modify i id f with heq | ⟨rfl, heq⟩
  · rwa [heq] at hname
  · rw [heq] at hname
    exact hf hA name hname

/-- Declaring adds a name to the innermost scope at most. -/
theorem growsIn_define (s : Scopes) (scope : Scope) (name : String) (v : Value) :
  s.GrowsIn (· ∈ scope.head?) (s.define scope name v)
  := by
  cases scope with
  | nil => exact .refl _ s
  | cons i outer => exact s.growsIn_modify i fun hi => absurd rfl hi

/-- Assigning adds no name. -/
theorem growsIn_update (A : Nat → Prop) (s : Scopes) (scope : Scope) (name : String) (v : Value) :
  s.GrowsIn A (s.update scope name v)
  := by
  unfold update
  split
  · rename_i i hi
    refine s.growsIn_modify i fun _ n hn => ?_
    rcases Bindings.has_set hn with rfl | hn
    · simpa using List.find?_some hi
    · exact hn
  · exact .refl A s

/-- Taking a name away adds none. -/
theorem growsIn_erase (A : Nat → Prop) (s : Scopes) (scope : Scope) (name : String) :
  s.GrowsIn A (s.erase scope name)
  := by
  unfold erase
  split
  · exact s.growsIn_modify _ fun _ _ => Bindings.has_erase
  · exact .refl A s

/-- A new scope adds no name to those that are there. -/
theorem growsIn_enclose (A : Nat → Prop) (s : Scopes) (outer : Scope) (b : Bindings) :
  s.GrowsIn A (s.enclose outer b).2
  := by
  unfold enclose
  constructor
  · rw [Array.size_push]
    exact Nat.le_succ _
  · intro id hid _ name hname
    have heq : Scopes.bindings ⟨s.tables.push b⟩ id = s.bindings id := by
      unfold bindings
      simp only [Array.getD_eq_getD_getElem?]
      rw [Array.getElem?_push_lt hid, Array.getElem?_eq_getElem hid]
    rwa [heq] at hname

end Scopes

/-- The machine with a name bound in a scope. -/
def Machine.define (m : Machine σ) (scope : Scope) (name : String) (v : Value) : Machine σ :=
  { m with scopes := m.scopes.define scope name v }

/-! ### Runs -/

/-- Whether a run adds names only to those scopes of which the numbers fulfil `A`. -/
def Confines (A : Nat → Prop) {α : Type} (r : RunOn σ α) : Prop :=
  ∀ m : Machine σ, m.scopes.GrowsIn A (Outcome.machine (r m)).scopes

namespace Confines

variable {A B : Nat → Prop} {α β : Type}

/-- A run that adds names only to the scopes that `A` picks adds them only to those that `B` picks,
if `B` picks these too. -/
theorem mono {r : RunOn σ α} (hr : Confines A r) (hAB : ∀ id, A id → B id) :
  Confines B r
  := fun m => (Scopes.GrowsIn.refl B _).extend (hr m) fun id hid => .inl (hAB id hid)

/-- What operations are made of adds names to no scope, and parts that do not add up to a run that
does not. -/
theorem compositional (setting : Setting σ) (A : Nat → Prop) :
  Compositional setting setting.terminal fun r _ => Confines A r
  := .of_preorder (R := fun m m' => m.scopes.GrowsIn A m'.scopes) (fun _ _ _ => .trans)
    (fun _ _ hscopes _ => .of_eq hscopes) fun _ _ => .refl A _

/-- Assigning adds a name to no scope. -/
theorem assign (A : Nat → Prop) (name : String) (v : Value) (scope : Scope) :
  Confines (σ := σ) A (Run.assign name v scope)
  := by
  intro m
  change m.scopes.GrowsIn A
    (Outcome.machine ((if m.scopes.has scope name then _ else _ : RunOn σ Bool) m)).scopes
  split
  · exact m.scopes.growsIn_update A scope name v
  · exact .refl A _

end Confines

/-- The scope in which an action may add a name. -/
def Action.home : Action → Option Nat
  | define scope .. => scope.head?
  | _ => none

/-- An action adds names only to its own scope. -/
theorem Action.confines_run (setting : Setting σ) (a : Action) :
  Confines (· ∈ a.home) (a.run setting)
  := by
  apply (Confines.compositional setting (· ∈ a.home)).action
  · rintro scope name v rfl
    exact fun m => m.scopes.growsIn_define scope name v
  · exact .assign _
  · exact fun scope name _ m => m.scopes.growsIn_erase _ scope name
  · exact fun outer b _ m => m.scopes.growsIn_enclose _ outer b

end Scriptlet
