import Scriptlet.Proofs.Running.Names

/-!
# Views

A view is a part of a machine: some of its arrays, hashes, functions and scopes.  It is closed if
nothing in it leads out of it.  What is done with things in a closed view changes nothing outside of
it and finds nothing outside of it; what is made new comes into view.
-/

namespace Scriptlet

variable {σ : Type}

/-! ### Parts of stores -/

section Stores

variable {α : Type}

/-- Whether the entries of `a` that `I` picks are there and fulfil `P`. -/
def HoldsAt (I : Nat → Prop) (P : α → Prop) (a : Array α) : Prop :=
  ∀ i, I i → ∃ x, a[i]? = some x ∧ P x

/-- Whether the entries of `a'` that `I'` does not pick are the entries of `a` that `I` does not
pick. -/
def SameBeside (I : Nat → Prop) (a : Array α) (I' : Nat → Prop) (a' : Array α) : Prop :=
  ∀ i x, a'[i]? = some x ∧ ¬ I' i ↔ a[i]? = some x ∧ ¬ I i

variable {I I' I'' : Nat → Prop} {P Q : α → Prop} {a a' a'' : Array α} {x : α} {i : Nat}

/-- What all entries fulfil, those that are there fulfil. -/
theorem holdsAt_lt_size (ha : ∀ x ∈ a, P x) :
  HoldsAt (· < a.size) P a
  := fun i hi => ⟨a[i], Array.getElem?_eq_getElem hi, ha _ (Array.getElem_mem hi)⟩

/-- What the picked entries fulfil can be weakened. -/
theorem HoldsAt.mono (ha : HoldsAt I P a) (hPQ : ∀ x, P x → Q x) :
  HoldsAt I Q a
  := by
  intro i hi
  obtain ⟨x, hx, hP⟩ := ha i hi
  exact ⟨x, hx, hPQ x hP⟩

/-- A picked entry is there, so it is what is read. -/
theorem HoldsAt.getD (ha : HoldsAt I P a) (hi : I i) (x : α) :
  P (a.getD i x)
  := by
  obtain ⟨y, hy, hP⟩ := ha i hi
  rw [Array.getD_eq_getD_getElem?, hy]
  exact hP

/-- An entry that is put behind the others can be picked in addition. -/
theorem HoldsAt.push (ha : HoldsAt I P a) (hx : P x) :
  HoldsAt (fun i => I i ∨ i = a.size) P (a.push x)
  := by
  rintro i (hi | rfl)
  · obtain ⟨y, hy, hP⟩ := ha i hi
    obtain ⟨hlt, rfl⟩ := Array.getElem?_eq_some_iff.mp hy
    exact ⟨a[i], Array.getElem?_push_lt hlt, hP⟩
  · exact ⟨x, Array.getElem?_push_size, hx⟩

/-- A change of one entry that keeps what is fulfilled keeps it for all that are picked. -/
theorem HoldsAt.modify (ha : HoldsAt I P a) (j : Nat) {f : α → α} (hf : ∀ x, P x → P (f x)) :
  HoldsAt I P (a.modify j f)
  := by
  intro i hi
  obtain ⟨x, hx, hP⟩ := ha i hi
  rw [Array.getElem?_modify]
  split
  · exact ⟨f x, by rw [hx]; rfl, hf x hP⟩
  · exact ⟨x, hx, hP⟩

/-- What is picked is all that counts. -/
theorem HoldsAt.congr (ha : HoldsAt I P a) (heq : ∀ i, I i → a'[i]? = a[i]?) :
  HoldsAt I P a'
  := by
  intro i hi
  rw [heq i hi]
  exact ha i hi

/-- What is not picked is the same in the same array. -/
theorem SameBeside.refl (I : Nat → Prop) (a : Array α) :
  SameBeside I a I a
  := fun _ _ => Iff.rfl

/-- What is not picked stays the same over two changes. -/
theorem SameBeside.trans (h₁ : SameBeside I a I' a') (h₂ : SameBeside I' a' I'' a'') :
  SameBeside I a I'' a''
  := fun i x => (h₂ i x).trans (h₁ i x)

/-- If the entry behind the others is picked too, then what is not picked stays the same. -/
theorem sameBeside_push (I : Nat → Prop) (a : Array α) (x : α) :
  SameBeside I a (fun i => I i ∨ i = a.size) (a.push x)
  := by
  intro i y
  rw [not_or, Array.getElem?_push]
  split
  · rename_i heq
    subst heq
    simp
  · rename_i hne
    simp [hne]

/-- A change of a picked entry leaves alone what is not picked. -/
theorem sameBeside_modify (hi : I i) (a : Array α) (f : α → α) :
  SameBeside I a I (a.modify i f)
  := by
  intro j y
  apply and_congr_left
  intro hj
  rw [Array.getElem?_modify, if_neg]
  rintro rfl
  exact hj hi

/-- An entry beside stays beside, and stays the same. -/
theorem SameBeside.getElem?_eq (h : SameBeside I a I' a') (hx : a[i]? = some x) (hi : ¬ I i) :
  a'[i]? = a[i]? ∧ ¬ I' i
  := by
  rw [hx]
  exact (h i x).mpr ⟨hx, hi⟩

/-- If nothing of the first store was beside, nothing of the second one is. -/
theorem HoldsAt.eq_lt_size (ha' : HoldsAt I' P a') (h : SameBeside (· < a.size) a I' a') :
  I' = (· < a'.size)
  := by
  funext i
  apply propext
  constructor
  · intro hi
    obtain ⟨x, hx, -⟩ := ha' i hi
    exact (Array.getElem?_eq_some_iff.mp hx).1
  · intro hi
    refine Classical.byContradiction fun hbeside => ?_
    obtain ⟨hx, hlt⟩ := (h i a'[i]).mp ⟨Array.getElem?_eq_getElem hi, hbeside⟩
    exact hlt (Array.getElem?_eq_some_iff.mp hx).1

end Stores

/-! ### Views -/

/-- Some of the arrays, hashes, functions and scopes of a machine, by their numbers. -/
structure View where
  /-- Which arrays are in view. -/
  array : Nat → Prop
  /-- Which hashes are. -/
  hash : Nat → Prop
  /-- Which functions are. -/
  closure : Nat → Prop
  /-- Which bindings of scopes are. -/
  table : Nat → Prop

/-- Whether all that `V` has in view is in the view `V'`. -/
structure View.Widens (V V' : View) : Prop where
  array {i : Nat} : V.array i → V'.array i
  hash {i : Nat} : V.hash i → V'.hash i
  closure {i : Nat} : V.closure i → V'.closure i
  table {i : Nat} : V.table i → V'.table i

/-- Every view has what it has. -/
theorem View.Widens.refl (V : View) :
  V.Widens V
  := ⟨id, id, id, id⟩

/-- A view that widens a wider one widens the narrow one. -/
theorem View.Widens.trans {V V' V'' : View} (h₁ : V.Widens V') (h₂ : V'.Widens V'') :
  V.Widens V''
  := ⟨h₂.array ∘ h₁.array, h₂.hash ∘ h₁.hash, h₂.closure ∘ h₁.closure, h₂.table ∘ h₁.table⟩

section Seen

variable (V : View)

/-- Whether a value is in view. -/
def Value.Seen : Value → Prop
  | array i => V.array i
  | hash i => V.hash i
  | func i => V.closure i
  | _ => True

/-- Whether all the bindings that are found in a scope are in view. -/
def Scope.Seen (scope : Scope) : Prop :=
  ∀ i ∈ scope, V.table i

/-- Whether names are bound only to values in view. -/
def Bindings.Seen (b : Bindings) : Prop :=
  ∀ p ∈ b, p.2.Seen V

/-- Whether all keys and values are in view. -/
def Pairs.Seen (pairs : Pairs) : Prop :=
  ∀ p ∈ pairs, p.1.Seen V ∧ p.2.Seen V

/-- Whether a run that is unwound hands on only what is in view. -/
def Unwind.Seen : Unwind → Prop
  | ret v => v.Seen V
  | _ => True

end Seen

section

variable {V V' : View}

/-- What is in view is in every wider view. -/
theorem Value.Seen.mono {v : Value} (hv : v.Seen V) (hV : V.Widens V') :
  v.Seen V'
  := by
  cases v
  case array => exact hV.array hv
  case hash => exact hV.hash hv
  case func => exact hV.closure hv
  all_goals trivial

/-- A scope in view is in every wider view. -/
theorem Scope.Seen.mono {scope : Scope} (hscope : scope.Seen V) (hV : V.Widens V') :
  scope.Seen V'
  := fun i hi => hV.table (hscope i hi)

/-- Bindings to what is in view are bindings to what is in every wider view. -/
theorem Bindings.Seen.mono {b : Bindings} (hb : b.Seen V) (hV : V.Widens V') :
  b.Seen V'
  := fun p hp => (hb p hp).mono hV

/-- Entries in view are in every wider view. -/
theorem Pairs.Seen.mono {pairs : Pairs} (hpairs : pairs.Seen V) (hV : V.Widens V') :
  pairs.Seen V'
  := fun p hp => ⟨(hpairs p hp).1.mono hV, (hpairs p hp).2.mono hV⟩

/-- Nothing where something might be found is `null`, which leads nowhere. -/
theorem Value.seen_getD {v : Option Value} (hv : ∀ w ∈ v, w.Seen V) :
  (v.getD .null).Seen V
  := by
  cases v
  · trivial
  · exact hv _ rfl

end

/-! ### Closed views -/

namespace View

/-- Whether all that a view has is there in a machine and leads only to what is in view, and the
calls that are running have arguments in view. -/
structure Closed (V : View) (m : Machine σ) : Prop where
  arrays : HoldsAt V.array (fun es => ∀ v ∈ es, v.Seen V) m.heap.arrays
  hashes : HoldsAt V.hash (Pairs.Seen V) m.heap.hashes
  closures : HoldsAt V.closure (fun f => f.scope.Seen V) m.heap.closures
  tables : HoldsAt V.table (Bindings.Seen V) m.scopes.tables
  frames : ∀ frame ∈ m.control.frames, ∀ v ∈ frame.args, v.Seen V

/-- Whether the machine `m'` with the view `V'` is as `m` with the view `V` except for what is in
view, and all that is new is in view. -/
structure Isolates (V : View) (m : Machine σ) (V' : View) (m' : Machine σ) : Prop where
  widens : V.Widens V'
  closed : V'.Closed m'
  arrays : SameBeside V.array m.heap.arrays V'.array m'.heap.arrays
  hashes : SameBeside V.hash m.heap.hashes V'.hash m'.heap.hashes
  closures : SameBeside V.closure m.heap.closures V'.closure m'.heap.closures
  tables : SameBeside V.table m.scopes.tables V'.table m'.scopes.tables

variable {V V' V'' : View} {m m' m'' : Machine σ}

/-- A closed view isolates a machine from itself, as nothing has changed. -/
theorem Isolates.refl (hm : V.Closed m) :
  V.Isolates m V m
  := ⟨.refl V, hm, .refl _ _, .refl _ _, .refl _ _, .refl _ _⟩

/-- What two runs one after the other leave alone is left alone by both together. -/
theorem Isolates.trans (h₁ : V.Isolates m V' m') (h₂ : V'.Isolates m' V'' m'') :
  V.Isolates m V'' m''
  := by
  constructor
  · exact h₁.widens.trans h₂.widens
  · exact h₂.closed
  · exact h₁.arrays.trans h₂.arrays
  · exact h₁.hashes.trans h₂.hashes
  · exact h₁.closures.trans h₂.closures
  · exact h₁.tables.trans h₂.tables

/-- Only what is in view and the arguments of the calls count. -/
theorem Closed.congr (hm : V.Closed m)
    (harrays : ∀ i, V.array i → m'.heap.arrays[i]? = m.heap.arrays[i]?)
    (hhashes : ∀ i, V.hash i → m'.heap.hashes[i]? = m.heap.hashes[i]?)
    (hclosures : ∀ i, V.closure i → m'.heap.closures[i]? = m.heap.closures[i]?)
    (htables : ∀ i, V.table i → m'.scopes.tables[i]? = m.scopes.tables[i]?)
    (hframes : ∀ frame ∈ m'.control.frames, ∀ v ∈ frame.args, v.Seen V) :
  V.Closed m'
  := by
  constructor
  · exact hm.arrays.congr harrays
  · exact hm.hashes.congr hhashes
  · exact hm.closures.congr hclosures
  · exact hm.tables.congr htables
  · exact hframes

/-- Whether a view is closed does not depend on the streams and on the counts of a machine. -/
theorem Closed.of_eq (hm : V.Closed m) (hheap : m'.heap = m.heap) (hscopes : m'.scopes = m.scopes)
    (hframes : ∀ frame ∈ m'.control.frames, ∀ v ∈ frame.args, v.Seen V) :
  V.Closed m'
  := by
  refine hm.congr ?_ ?_ ?_ ?_ hframes
  · rw [hheap]
    exact fun _ _ => rfl
  · rw [hheap]
    exact fun _ _ => rfl
  · rw [hheap]
    exact fun _ _ => rfl
  · rw [hscopes]
    exact fun _ _ => rfl

/-- What a run leaves alone does not depend on the streams and the counts that it ends with. -/
theorem Isolates.of_eq (hm : V.Isolates m V' m') (hheap : m''.heap = m'.heap)
    (hscopes : m''.scopes = m'.scopes)
    (hframes : ∀ frame ∈ m''.control.frames, ∀ v ∈ frame.args, v.Seen V') :
  V.Isolates m V' m''
  := by
  refine ⟨hm.widens, hm.closed.of_eq hheap hscopes hframes, ?_, ?_, ?_, ?_⟩
  · rw [hheap]
    exact hm.arrays
  · rw [hheap]
    exact hm.hashes
  · rw [hheap]
    exact hm.closures
  · rw [hscopes]
    exact hm.tables

/-- What a run leaves alone does not depend on the streams and the counts that it starts with. -/
theorem Isolates.of_eq_left (hm : V.Isolates m' V' m'') (hheap : m'.heap = m.heap)
    (hscopes : m'.scopes = m.scopes) :
  V.Isolates m V' m''
  := by
  refine ⟨hm.widens, hm.closed, ?_, ?_, ?_, ?_⟩
  · rw [← hheap]
    exact hm.arrays
  · rw [← hheap]
    exact hm.hashes
  · rw [← hheap]
    exact hm.closures
  · rw [← hscopes]
    exact hm.tables

/-! ### What is found in a closed view -/

section

variable (hm : V.Closed m)

include hm

/-- The elements of an array in view are in view. -/
theorem Closed.array {i : Nat} (hi : V.array i) :
  ∀ v ∈ m.heap.array i, v.Seen V
  := hm.arrays.getD hi _

/-- The keys and the values of a hash in view are in view. -/
theorem Closed.hash {i : Nat} (hi : V.hash i) :
  Pairs.Seen V (m.heap.hash i)
  := hm.hashes.getD hi _

/-- The scope of a function in view is in view. -/
theorem Closed.closure {i : Nat} (hi : V.closure i) :
  (m.heap.closure i).scope.Seen V
  := hm.closures.getD hi _

/-- The names of a scope in view are bound to what is in view. -/
theorem Closed.bindings {i : Nat} (hi : V.table i) :
  (m.scopes.bindings i).Seen V
  := hm.tables.getD hi _

/-- A name that is read in a scope in view stands for something in view. -/
theorem Closed.get? {scope : Scope} (hscope : scope.Seen V) {name : String} {v : Value}
    (hv : m.scopes.get? scope name = some v) :
  v.Seen V
  := by
  obtain ⟨i, hi, hv⟩ := List.exists_of_findSome?_eq_some hv
  obtain ⟨p, hp, rfl⟩ := Bindings.mem_of_get? hv
  exact hm.bindings (hscope i hi) p hp

end

/-! ### Changes in a closed view -/

/-- The view with one more array. -/
def withArray (V : View) (i : Nat) : View :=
  { V with array := fun j => V.array j ∨ j = i }

/-- The view with one more hash. -/
def withHash (V : View) (i : Nat) : View :=
  { V with hash := fun j => V.hash j ∨ j = i }

/-- The view with one more function. -/
def withClosure (V : View) (i : Nat) : View :=
  { V with closure := fun j => V.closure j ∨ j = i }

/-- The view with one more scope. -/
def withTable (V : View) (i : Nat) : View :=
  { V with table := fun j => V.table j ∨ j = i }

/-- What is in a closed view is in each wider one. -/
theorem Closed.widen (hm : V.Closed m) (hV : V.Widens V') :
  HoldsAt V.array (fun es => ∀ v ∈ es, v.Seen V') m.heap.arrays
  ∧ HoldsAt V.hash (Pairs.Seen V') m.heap.hashes
  ∧ HoldsAt V.closure (fun f => f.scope.Seen V') m.heap.closures
  ∧ HoldsAt V.table (Bindings.Seen V') m.scopes.tables
  ∧ ∀ frame ∈ m.control.frames, ∀ v ∈ frame.args, v.Seen V'
  := by
  refine ⟨?_, ?_, ?_, ?_, fun frame hframe v hv => (hm.frames frame hframe v hv).mono hV⟩
  · exact hm.arrays.mono fun _ hes v hv => (hes v hv).mono hV
  · exact hm.hashes.mono fun _ hpairs => hpairs.mono hV
  · exact hm.closures.mono fun _ hf => hf.mono hV
  · exact hm.tables.mono fun _ hb => hb.mono hV

/-- A new array of what is in view comes into view, and nothing else changes. -/
theorem isolates_newArray (hm : V.Closed m) {es : Array Value} (hes : ∀ v ∈ es, v.Seen V) :
  V.Isolates m (V.withArray m.heap.arrays.size) { m with heap := (m.heap.newArray es).2 }
  := by
  have hV : V.Widens (V.withArray m.heap.arrays.size) := ⟨.inl, id, id, id⟩
  obtain ⟨harrays, hhashes, hclosures, htables, hframes⟩ := hm.widen hV
  refine ⟨hV, ⟨?_, hhashes, hclosures, htables, hframes⟩, ?_, .refl _ _, .refl _ _, .refl _ _⟩
  · exact harrays.push fun v hv => (hes v hv).mono hV
  · exact sameBeside_push _ _ _

/-- A new hash of what is in view comes into view, and nothing else changes. -/
theorem isolates_newHash (hm : V.Closed m) {pairs : Pairs} (hpairs : pairs.Seen V) :
  V.Isolates m (V.withHash m.heap.hashes.size) { m with heap := (m.heap.newHash pairs).2 }
  := by
  have hV : V.Widens (V.withHash m.heap.hashes.size) := ⟨id, .inl, id, id⟩
  obtain ⟨harrays, hhashes, hclosures, htables, hframes⟩ := hm.widen hV
  refine ⟨hV, ⟨harrays, ?_, hclosures, htables, hframes⟩, .refl _ _, ?_, .refl _ _, .refl _ _⟩
  · exact hhashes.push (hpairs.mono hV)
  · exact sameBeside_push _ _ _

/-- A new function in a scope in view comes into view, and nothing else changes. -/
theorem isolates_newClosure (hm : V.Closed m) {f : Closure} (hf : f.scope.Seen V) :
  V.Isolates m (V.withClosure m.heap.closures.size) { m with heap := (m.heap.newClosure f).2 }
  := by
  have hV : V.Widens (V.withClosure m.heap.closures.size) := ⟨id, id, .inl, id⟩
  obtain ⟨harrays, hhashes, hclosures, htables, hframes⟩ := hm.widen hV
  refine ⟨hV, ⟨harrays, hhashes, ?_, htables, hframes⟩, .refl _ _, .refl _ _, ?_, .refl _ _⟩
  · exact hclosures.push (hf.mono hV)
  · exact sameBeside_push _ _ _

/-- A new scope with bindings to what is in view comes into view, and nothing else changes. -/
theorem isolates_enclose (hm : V.Closed m) (outer : Scope) {b : Bindings} (hb : b.Seen V) :
  V.Isolates m (V.withTable m.scopes.tables.size)
    { m with scopes := (m.scopes.enclose outer b).2 }
  := by
  have hV : V.Widens (V.withTable m.scopes.tables.size) := ⟨id, id, id, .inl⟩
  obtain ⟨harrays, hhashes, hclosures, htables, hframes⟩ := hm.widen hV
  refine ⟨hV, ⟨harrays, hhashes, hclosures, ?_, hframes⟩, .refl _ _, .refl _ _, .refl _ _, ?_⟩
  · exact htables.push (hb.mono hV)
  · exact sameBeside_push _ _ _

/-- An array in view can be changed, as long as what it holds stays in view. -/
theorem isolates_modifyArray (hm : V.Closed m) {i : Nat} (hi : V.array i)
    {f : Array Value → Array Value}
    (hf : ∀ es : Array Value, (∀ v ∈ es, v.Seen V) → ∀ v ∈ f es, v.Seen V) :
  V.Isolates m V { m with heap := m.heap.modifyArray i f }
  := by
  obtain ⟨harrays, hhashes, hclosures, htables, hframes⟩ := hm
  refine ⟨.refl V, ⟨?_, hhashes, hclosures, htables, hframes⟩, ?_, .refl _ _, .refl _ _,
    .refl _ _⟩
  · exact harrays.modify i hf
  · exact sameBeside_modify hi _ f

/-- A scope in view can be changed, as long as what it binds names to stays in view. -/
theorem isolates_modify (hm : V.Closed m) {i : Nat} (hi : V.table i) {f : Bindings → Bindings}
    (hf : ∀ b : Bindings, b.Seen V → (f b).Seen V) :
  V.Isolates m V { m with scopes := m.scopes.modify i f }
  := by
  obtain ⟨harrays, hhashes, hclosures, htables, hframes⟩ := hm
  refine ⟨.refl V, ⟨harrays, hhashes, hclosures, ?_, hframes⟩, .refl _ _, .refl _ _, .refl _ _,
    ?_⟩
  · exact htables.modify i hf
  · exact sameBeside_modify hi _ f

section

variable (hm : V.Closed m) {scope : Scope} (hscope : scope.Seen V) (name : String)

include hm hscope

/-- Declaring in a scope in view changes something in view. -/
theorem isolates_define {v : Value} (hv : v.Seen V) :
  V.Isolates m V { m with scopes := m.scopes.define scope name v }
  := by
  cases scope with
  | nil => exact .refl hm
  | cons i outer => exact isolates_modify hm (hscope i List.mem_cons_self) fun _ hb =>
      Bindings.forall_set hb name hv

/-- Assigning in a scope in view changes something in view. -/
theorem isolates_update {v : Value} (hv : v.Seen V) :
  V.Isolates m V { m with scopes := m.scopes.update scope name v }
  := by
  unfold Scopes.update
  split
  · have hi := hscope _ (List.mem_of_find?_eq_some ‹_›)
    exact isolates_modify hm hi fun _ hb =>
      Bindings.forall_set hb name hv
  · exact .refl hm

/-- Taking a name away in a scope in view changes something in view. -/
theorem isolates_erase :
  V.Isolates m V { m with scopes := m.scopes.erase scope name }
  := by
  unfold Scopes.erase
  split
  · have hi := hscope _ (List.mem_of_find?_eq_some ‹_›)
    exact isolates_modify hm hi fun _ hb => Bindings.forall_erase hb name
  · exact .refl hm

end

/-- All that is there in a machine. -/
def all (m : Machine σ) : View where
  array i := i < m.heap.arrays.size
  hash i := i < m.heap.hashes.size
  closure i := i < m.heap.closures.size
  table i := i < m.scopes.tables.size

/-- If all was in view, all is. -/
theorem Isolates.eq_all (h : (all m).Isolates m V' m') :
  V' = all m'
  := by
  obtain ⟨array, hash, closure, table⟩ := V'
  have harrays : array = _ := h.closed.arrays.eq_lt_size h.arrays
  have hhashes : hash = _ := h.closed.hashes.eq_lt_size h.hashes
  have hclosures : closure = _ := h.closed.closures.eq_lt_size h.closures
  have htables : table = _ := h.closed.tables.eq_lt_size h.tables
  subst harrays hhashes hclosures htables
  rfl

end View

/-- Whether everything that anything in a machine leads to is there. -/
def Machine.Closed (m : Machine σ) : Prop :=
  (View.all m).Closed m

/-- Nothing leads anywhere in a machine whose arrays and bindings have only values without parts, if
it has no hashes and functions and no calls are running. -/
theorem Machine.closed_of_plain {m : Machine σ}
    (harrays : ∀ es ∈ m.heap.arrays, ∀ v ∈ es, v.Seen (View.all m))
    (htables : ∀ b ∈ m.scopes.tables, Bindings.Seen (View.all m) b)
    (hhashes : m.heap.hashes = #[]) (hclosures : m.heap.closures = #[])
    (hframes : m.control.frames = []) :
  m.Closed
  := by
  refine ⟨holdsAt_lt_size harrays, holdsAt_lt_size ?_, holdsAt_lt_size ?_, holdsAt_lt_size htables,
    ?_⟩
  · rw [hhashes]
    exact Array.forall_mem_empty _
  · rw [hclosures]
    exact Array.forall_mem_empty _
  · rw [hframes]
    exact List.forall_mem_nil _

end Scriptlet
