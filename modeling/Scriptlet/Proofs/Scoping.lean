import Scriptlet.Scope

/-!
# Trees of scopes

What the operations on scopes do to all the scopes of a tree, whatever has been done to it before.
A scope reads a name where the innermost bindings around it that have the name bind it.  Assigning
and taking away change that one binding, and declaring a name changes one of the scope itself.  So
a change is seen from a scope if and only if it lies on its way outwards and no bindings inside it
have the name (`Scopes.Sees`).
-/

namespace Scriptlet

namespace Bindings

variable {b : Bindings} {name n : String} {v : Value}

/-- Bindings are searched one after the other. -/
theorem get?_cons (p : String × Value) (b : Bindings) :
  Bindings.get? (p :: b) n = if n = p.1 then some p.2 else b.get? n
  := by
  unfold get?
  rw [List.lookup_cons]
  split
  · rename_i heq
    rw [if_pos (by simpa using heq)]
  · rename_i heq
    rw [if_neg (by simpa using heq)]

/-- A name that is set is bound to its value, and the others are as before. -/
theorem get?_set :
  (b.set name v).get? n = if n = name then some v else b.get? n
  := by
  induction b with
  | nil => exact get?_cons (name, v) []
  | cons p rest ih =>
      obtain ⟨k, w⟩ := p
      unfold set
      split
      · rename_i heq
        subst heq
        rw [get?_cons, get?_cons]
        grind
      · rw [get?_cons, get?_cons, ih]
        grind

/-- A name that is taken away is not bound, and the others are as before. -/
theorem get?_erase :
  (b.erase name).get? n = if n = name then none else b.get? n
  := by
  induction b with
  | nil => simp [erase, get?]
  | cons p rest ih =>
      obtain ⟨k, w⟩ := p
      unfold erase at ih ⊢
      by_cases hk : k = name
      · rw [List.filter_cons_of_neg (by simpa using hk), ih, get?_cons]
        grind
      · rw [List.filter_cons_of_pos (by simpa using hk), get?_cons, ih, get?_cons]
        grind

end Bindings

/-! ### One binding -/

namespace Scopes

/-- The value of a name in the bindings of number `id`. -/
def bound? (s : Scopes) (id : Nat) (name : String) : Option Value :=
  (s.bindings id).get? name

/-- Whether a scope reaches the bindings of number `id` if it looks for a name that no bindings
inside them have. -/
def Sees (s : Scopes) (scope : Scope) (name : String) (id : Nat) : Prop :=
  ∃ inner outer, scope = inner ++ id :: outer ∧ ∀ j ∈ inner, s.bound? j name = none

/-- Whether the bindings of number `id` are the innermost ones of a scope that have a name. -/
def Nearest (s : Scopes) (scope : Scope) (name : String) (id : Nat) : Prop :=
  s.Sees scope name id ∧ (s.bound? id name).isSome

/-- Whether `s'` is `s` but for the binding of a name in the bindings of number `id`, which is
`now`. -/
def Rebinds (s s' : Scopes) (id : Nat) (name : String) (now : Option Value) : Prop :=
  ∀ j n, s'.bound? j n = if j = id ∧ n = name then now else s.bound? j n

variable {s s' : Scopes} {scope outer : Scope} {name n : String} {id j : Nat} {v : Value}
  {now : Option Value}

/-- A scope reads a name in its own bindings, and if they do not have it, in the scope around it. -/
theorem get?_cons :
  s.get? (id :: outer) name = (s.bound? id name).or (s.get? outer name)
  := by
  unfold get? bound?
  rw [List.findSome?_cons]
  cases (s.bindings id).get? name with
  | none => rfl
  | some v => rfl

/-- A scope reads a name alike where it is bound alike. -/
theorem get?_congr (h : ∀ j ∈ scope, s'.bound? j name = s.bound? j name) :
  s'.get? scope name = s.get? scope name
  := by
  induction scope with
  | nil => rfl
  | cons j outer ih =>
      obtain ⟨hj, houter⟩ := List.forall_mem_cons.mp h
      rw [get?_cons, get?_cons, hj, ih houter]

/-- A scope reaches its own bindings, and those that the scope around it reaches if its own do not
have the name. -/
theorem sees_cons :
  s.Sees (j :: outer) name id ↔ j = id ∨ s.bound? j name = none ∧ s.Sees outer name id
  := by
  constructor
  · rintro ⟨inner, rest, hscope, hinner⟩
    cases inner with
    | nil =>
        cases hscope
        exact .inl rfl
    | cons i inner =>
        obtain ⟨rfl, rfl⟩ := List.cons.inj hscope
        obtain ⟨hi, hinner⟩ := List.forall_mem_cons.mp hinner
        exact .inr ⟨hi, inner, rest, rfl, hinner⟩
  · rintro (rfl | ⟨hj, inner, rest, rfl, hinner⟩)
    · exact ⟨[], outer, rfl, List.forall_mem_nil _⟩
    · exact ⟨j :: inner, rest, rfl, List.forall_mem_cons.mpr ⟨hj, hinner⟩⟩

/-- The bindings that are found to hold a name are the innermost ones that have it. -/
theorem holder?_eq_some_iff :
  s.holder? scope name = some id ↔ s.Nearest scope name id
  := by
  unfold holder? Nearest Sees Bindings.has bound?
  rw [List.find?_eq_some_iff_append]
  constructor
  · rintro ⟨hid, inner, outer, rfl, hinner⟩
    exact ⟨⟨inner, outer, rfl, fun j hj => by simpa using hinner j hj⟩, hid⟩
  · rintro ⟨⟨inner, outer, rfl, hinner⟩, hid⟩
    exact ⟨hid, inner, outer, rfl, fun j hj => by simpa using hinner j hj⟩

/-- No bindings are found to hold a name if none of the scope have it. -/
theorem holder?_eq_none_iff :
  s.holder? scope name = none ↔ ∀ id ∈ scope, s.bound? id name = none
  := by
  simp [holder?, Bindings.has, bound?]

/-- A scope reads a name where it is bound next. -/
theorem Nearest.get? (h : s.Nearest scope name id) :
  s.get? scope name = s.bound? id name
  := by
  obtain ⟨⟨inner, outer, rfl, hinner⟩, hid⟩ := h
  induction inner with
  | nil =>
      obtain ⟨v, hv⟩ := Option.isSome_iff_exists.mp hid
      rw [List.nil_append, get?_cons, hv]
      rfl
  | cons j inner ih =>
      obtain ⟨hj, hinner⟩ := List.forall_mem_cons.mp hinner
      rw [List.cons_append, get?_cons, hj, Option.none_or, ih hinner]

/-- A name that no bindings of a scope have is not found. -/
theorem get?_eq_none (h : ∀ id ∈ scope, s.bound? id name = none) :
  s.get? scope name = none
  := by
  unfold get?
  rwa [List.findSome?_eq_none_iff]

/-- The binding that is changed is the new one. -/
theorem Rebinds.bound? (h : s.Rebinds s' id name now) :
  s'.bound? id name = now
  := by
  rw [h, if_pos ⟨rfl, rfl⟩]

/-- The bindings that are not changed are as before. -/
theorem Rebinds.bound?_of_ne (h : s.Rebinds s' id name now) (hne : ¬ (j = id ∧ n = name)) :
  s'.bound? j n = s.bound? j n
  := by
  rw [h, if_neg hne]

/-- Nothing changes where a change is not seen. -/
theorem Rebinds.get?_of_not_sees (h : s.Rebinds s' id name now)
    (hsees : ¬ (n = name ∧ s.Sees scope name id)) :
  s'.get? scope n = s.get? scope n
  := by
  induction scope with
  | nil => rfl
  | cons j outer ih =>
      rw [sees_cons] at hsees
      have hj : s'.bound? j n = s.bound? j n :=
        h.bound?_of_ne fun ⟨hid, hn⟩ => hsees ⟨hn, .inl hid⟩
      rw [get?_cons, get?_cons, hj]
      cases hbound : s.bound? j n with
      | some w => rfl
      | none =>
          rw [ih]
          rintro ⟨rfl, houter⟩
          exact hsees ⟨rfl, .inr ⟨hbound, houter⟩⟩

/-- Where a change is seen, it is what is read, or what is read behind it if it is that the binding
is gone. -/
theorem Rebinds.get?_append (h : s.Rebinds s' id name now) {inner outer : Scope}
    (hinner : ∀ j ∈ inner, j ≠ id ∧ s.bound? j name = none) (hid : id ∉ outer) :
  s'.get? (inner ++ id :: outer) name = now.or (s.get? outer name)
  := by
  induction inner with
  | nil =>
      have houter : s'.get? outer name = s.get? outer name := by
        apply h.get?_of_not_sees
        rintro ⟨-, inner, rest, rfl, -⟩
        exact hid (List.mem_append_right _ List.mem_cons_self)
      rw [List.nil_append, get?_cons, h.bound?, houter]
  | cons j inner ih =>
      obtain ⟨⟨hj, hbound⟩, hinner⟩ := List.forall_mem_cons.mp hinner
      rw [List.cons_append, get?_cons, h.bound?_of_ne (fun h => hj h.1), hbound, Option.none_or,
        ih hinner]

/-- A name has a next binding, or no bindings have it. -/
theorem exists_nearest_or (s : Scopes) (scope : Scope) (name : String) :
  (∃ id, s.Nearest scope name id ∧ s.has scope name = true)
    ∨ (∀ id ∈ scope, s.bound? id name = none) ∧ s.holder? scope name = none
  := by
  cases h : s.holder? scope name with
  | none => exact .inr ⟨holder?_eq_none_iff.mp h, rfl⟩
  | some id => exact .inl ⟨id, holder?_eq_some_iff.mp h, by rw [has, h]; rfl⟩

/-- Where a binding has the name, it is the next one of the scopes that see it. -/
theorem Nearest.sees_iff (h : s.Nearest scope name id) (scope' : Scope) :
  s.Nearest scope' name id ↔ s.Sees scope' name id
  := and_iff_left h.2

/-- A new scope without names changes no bindings. -/
theorem bindings_enclose (s : Scopes) (outer : Scope) :
  (s.enclose outer []).2.bindings = s.bindings
  := by
  funext j
  unfold enclose bindings
  simp only [Array.getD_eq_getD_getElem?, Array.getElem?_push]
  split
  · rename_i hj
    subst hj
    simp
  · rfl

/-- A new scope without bindings makes no difference to any other. -/
theorem get?_enclose_nil (s : Scopes) (outer scope : Scope) (name : String) :
  (s.enclose outer []).2.get? scope name = s.get? scope name
  := by
  unfold get?
  rw [bindings_enclose]

/-- A new scope without bindings reads names as the scope around it does. -/
theorem get?_enclose (s : Scopes) (outer : Scope) (name : String) :
  (s.enclose outer []).2.get? (s.tables.size :: outer) name = s.get? outer name
  := by
  have hnew : s.bindings s.tables.size = [] := by simp [bindings]
  unfold get?
  rw [bindings_enclose, List.findSome?_cons, hnew]
  rfl

section

variable {b : Bindings}

/-- What is bound in a table that is there is what the table says. -/
theorem bound?_of_getElem? (h : s.tables[id]? = some b) :
  s.bound? id name = b.get? name
  := by
  unfold bound? bindings
  rw [Array.getD_eq_getD_getElem?, h]
  rfl

/-- A scope reads a name alike where the bindings are alike. -/
theorem get?_of_tables {s' : Scopes} (h : ∀ j ∈ scope, s'.tables[j]? = s.tables[j]?)
    (name : String) :
  s'.get? scope name = s.get? scope name
  := by
  refine get?_congr fun j hj => ?_
  unfold bound? bindings
  rw [Array.getD_eq_getD_getElem?, Array.getD_eq_getD_getElem?, h j hj]

/-- A new scope leaves the tables that are there as they are. -/
theorem getElem?_enclose {id : Nat} (hid : id < s.tables.size) (outer : Scope) (b : Bindings) :
  (s.enclose outer b).2.tables[id]? = s.tables[id]?
  := by
  change (s.tables.push b)[id]? = s.tables[id]?
  rw [Array.getElem?_push_lt hid, Array.getElem?_eq_getElem hid]

/-- A scope that is there already reads names as before, whatever a new one binds. -/
theorem get?_enclose_of_lt (h : ∀ j ∈ scope, j < s.tables.size) (outer : Scope) (b : Bindings)
    (name : String) :
  (s.enclose outer b).2.get? scope name = s.get? scope name
  := get?_of_tables (fun j hj => getElem?_enclose (h j hj) outer b) name

/-- A new scope has the bindings that it is made with. -/
theorem getElem?_enclose_self (s : Scopes) (outer : Scope) (b : Bindings) :
  (s.enclose outer b).2.tables[s.tables.size]? = some b
  := Array.getElem?_push_size

/-- The table that is changed is the new one. -/
theorem getElem?_modify (h : s.tables[id]? = some b) (f : Bindings → Bindings) :
  (s.modify id f).tables[id]? = some (f b)
  := by
  change (s.tables.modify id f)[id]? = some (f b)
  rw [Array.getElem?_modify, if_pos rfl, h]
  rfl

/-- The tables that are not changed are as before. -/
theorem getElem?_modify_of_ne {j : Nat} (hne : id ≠ j) (f : Bindings → Bindings) :
  (s.modify id f).tables[j]? = s.tables[j]?
  := by
  change (s.tables.modify id f)[j]? = s.tables[j]?
  rw [Array.getElem?_modify, if_neg hne]

end

/-- A name that is bound in a scope that has just been made. -/
theorem define_enclose (s : Scopes) (outer : Scope) (b : Bindings) (name : String) (v : Value) :
  (s.enclose outer b).2.define (s.tables.size :: outer) name v = (s.enclose outer (b.set name v)).2
  := by
  apply congrArg Scopes.mk
  apply Array.ext_getElem?
  intro i
  change ((s.tables.push b).modify s.tables.size (·.set name v))[i]? = (s.tables.push _)[i]?
  rw [Array.getElem?_modify, Array.getElem?_push, Array.getElem?_push]
  split
  · rename_i heq
    rw [if_pos heq.symm, if_pos heq.symm]
    rfl
  · rename_i hne
    rw [if_neg (Ne.symm hne), if_neg (Ne.symm hne)]

/-- A table that has a name is there. -/
theorem lt_size (h : (s.bound? id name).isSome) :
  id < s.tables.size
  := by
  apply Nat.lt_of_not_le
  intro hid
  have hbindings : s.bindings id = [] := by
    simp [bindings, hid]
  rw [bound?, hbindings] at h
  cases h

/-- A change of a table that changes one name changes that one binding. -/
theorem rebinds_modify (hid : id < s.tables.size) {f : Bindings → Bindings}
    (hf : ∀ b : Bindings, ∀ n, (f b).get? n = if n = name then now else b.get? n) :
  s.Rebinds (s.modify id f) id name now
  := by
  intro j n
  unfold bound? bindings modify
  simp only [Array.getD_eq_getD_getElem?, Array.getElem?_modify]
  by_cases hj : id = j
  · subst hj
    simp only [hid, Array.getElem?_eq_getElem, ↓reduceIte, Option.map_some, Option.getD_some, hf,
      true_and]
  · simp only [hj, Ne.symm hj, ↓reduceIte, false_and]

/-- Declaring changes one binding of the scope itself. -/
theorem rebinds_define (hid : id < s.tables.size) (outer : Scope) (name : String) (v : Value) :
  s.Rebinds (s.define (id :: outer) name v) id name (some v)
  := rebinds_modify hid fun _ _ => Bindings.get?_set

/-- Assigning changes the innermost binding of the name. -/
theorem rebinds_update (h : s.Nearest scope name id) (v : Value) :
  s.Rebinds (s.update scope name v) id name (some v)
  := by
  rw [update, holder?_eq_some_iff.mpr h]
  exact rebinds_modify (lt_size h.2) fun _ _ => Bindings.get?_set

/-- Taking a name away removes its innermost binding. -/
theorem rebinds_erase (h : s.Nearest scope name id) :
  s.Rebinds (s.erase scope name) id name none
  := by
  rw [erase, holder?_eq_some_iff.mpr h]
  exact rebinds_modify (lt_size h.2) fun _ _ => Bindings.get?_erase

end Scopes

/-! ### Trees of scopes -/

/-- What is asked of a tree of scopes. -/
inductive ScopeRequest where
  /-- A new scope that lies inside no other. -/
  | root
  /-- A new scope inside `outer`. -/
  | enclosed (outer : Scope)
  /-- The declaration of a name. -/
  | define (scope : Scope) (name : String) (value : Value)
  /-- The value of a name. -/
  | get (scope : Scope) (name : String)
  /-- The assignment of a value to a name. -/
  | update (scope : Scope) (name : String) (value : Value)
  /-- The end of a name. -/
  | delete (scope : Scope) (name : String)

/-- What is answered to a request. -/
inductive ScopeAnswer where
  /-- The new scope. -/
  | made (scope : Scope)
  /-- Nothing. -/
  | done
  /-- The value of the name, if it has one. -/
  | value (v : Option Value)
  /-- Whether the name was found. -/
  | found (b : Bool)

/-- The scope that a request is about, if there is one. -/
def ScopeRequest.scope? : ScopeRequest → Option Scope
  | root => none
  | enclosed scope => some scope
  | define scope _ _ => some scope
  | get scope _ => some scope
  | update scope _ _ => some scope
  | delete scope _ => some scope

/-- The answer to a request and the bindings that come of it. -/
def Scopes.serve (s : Scopes) : ScopeRequest → ScopeAnswer × Scopes
  | .root =>
    let (scope, s) := s.enclose [] []
    (.made scope, s)
  | .enclosed outer =>
    let (scope, s) := s.enclose outer []
    (.made scope, s)
  | .define scope name v => (.done, s.define scope name v)
  | .get scope name => (.value (s.get? scope name), s)
  | .update scope name v => (.found (s.has scope name), s.update scope name v)
  | .delete scope name => (.found (s.has scope name), s.erase scope name)

/-- The bindings of all scopes of a tree, with the scopes that have been made. -/
structure ScopeTree where
  scopes : Scopes
  made : List Scope

namespace ScopeTree

/-- A tree without scopes. -/
def empty : ScopeTree := ⟨.empty, []⟩

/-- The tree after a request, which has to be about one of its scopes. -/
def step (t : ScopeTree) (r : ScopeRequest) : Option ScopeTree :=
  if ∀ e ∈ r.scope?, e ∈ t.made then
    match t.scopes.serve r with
    | (.made e, s) => some ⟨s, e :: t.made⟩
    | (_, s) => some { t with scopes := s }
  else none

/-- The tree after one request after the other. -/
def run (t : ScopeTree) (requests : List ScopeRequest) : Option ScopeTree :=
  requests.foldlM step t

/-- Whether the scopes of a tree can be told apart by the numbers of their own bindings, of which
those around a scope are the smaller ones. -/
structure Formed (t : ScopeTree) : Prop where
  ne_nil : [] ∉ t.made
  bounded : ∀ e ∈ t.made, ∀ id ∈ e, id < t.scopes.tables.size
  falling : ∀ e ∈ t.made, e.Pairwise (· > ·)
  outer : ∀ id rest, id :: rest ∈ t.made → rest = [] ∨ rest ∈ t.made
  unique : ∀ id rest rest', id :: rest ∈ t.made → id :: rest' ∈ t.made → rest = rest'

variable {t t' : ScopeTree} {e e' inner outer outer' : Scope} {id : Nat} {name : String}
  {s' : Scopes} {now : Option Value}

/-- A tree without scopes is formed. -/
theorem formed_empty :
  empty.Formed
  := by
  constructor
  all_goals simp [empty]

/-- A new scope has a number above those of all that there are. -/
theorem Formed.enclose (ht : t.Formed) (hscope : outer = [] ∨ outer ∈ t.made) :
  Formed ⟨(t.scopes.enclose outer []).2, (t.scopes.enclose outer []).1 :: t.made⟩
  := by
  have houter : ∀ id ∈ outer, id < t.scopes.tables.size := by
    rcases hscope with rfl | hmem
    · exact List.forall_mem_nil _
    · exact ht.bounded outer hmem
  -- No scope that there is has the new number.
  have hnew {rest : Scope} (hrest : t.scopes.tables.size :: rest ∈ t.made) : False :=
    Nat.lt_irrefl _ (ht.bounded _ hrest _ List.mem_cons_self)
  unfold Scopes.enclose
  constructor
  · simpa using ht.ne_nil
  · simp only [List.forall_mem_cons, Array.size_push]
    refine ⟨⟨Nat.lt_succ_self _, fun id hid => Nat.lt_succ_of_lt (houter id hid)⟩, ?_⟩
    exact fun e he id hid => Nat.lt_succ_of_lt (ht.bounded e he id hid)
  · simp only [List.forall_mem_cons, List.pairwise_cons]
    refine ⟨⟨houter, ?_⟩, ht.falling⟩
    rcases hscope with rfl | hmem
    · exact .nil
    · exact ht.falling outer hmem
  · intro id rest hmem
    rcases List.mem_cons.mp hmem with heq | hmem
    · cases heq
      exact hscope.imp_right (List.mem_cons_of_mem _)
    · exact (ht.outer id rest hmem).imp_right (List.mem_cons_of_mem _)
  · intro id rest rest' hmem hmem'
    rcases List.mem_cons.mp hmem with heq | hmem
    · cases heq
      rcases List.mem_cons.mp hmem' with heq | hmem'
      · cases heq
        rfl
      · exact (hnew hmem').elim
    · rcases List.mem_cons.mp hmem' with heq | hmem'
      · cases heq
        exact (hnew hmem).elim
      · exact ht.unique id rest rest' hmem hmem'

/-- What changes the bindings leaves the scopes as they are. -/
theorem Formed.of_size (ht : t.Formed) (hsize : s'.tables.size = t.scopes.tables.size) :
  Formed { t with scopes := s' }
  := ⟨ht.ne_nil, fun e he id hid => hsize ▸ ht.bounded e he id hid, ht.falling, ht.outer, ht.unique⟩

/-- No scope lies inside itself. -/
theorem Formed.nodup (ht : t.Formed) (he : e ∈ t.made) :
  e.Nodup
  := (ht.falling e he).imp fun hlt => Ne.symm (Nat.ne_of_lt hlt)

/-- The scopes around a scope of a tree are scopes of the tree. -/
theorem Formed.mem_of_append (ht : t.Formed) (he : inner ++ id :: outer ∈ t.made) :
  id :: outer ∈ t.made
  := by
  induction inner with
  | nil => exact he
  | cons j inner ih =>
      rcases ht.outer j _ he with hnil | hmem
      · exact absurd hnil (by simp)
      · exact ih hmem

/-- Where the ways outwards from two scopes meet, they go on together. -/
theorem Formed.outer_eq (ht : t.Formed) {inner' : Scope} (he : inner ++ id :: outer ∈ t.made)
    (he' : inner' ++ id :: outer' ∈ t.made) :
  outer = outer'
  := ht.unique id outer outer' (ht.mem_of_append he) (ht.mem_of_append he')

/-- What the scopes of a tree read after a change that one of them sees. -/
theorem Formed.get?_rebinds (ht : t.Formed) (he : inner ++ id :: outer ∈ t.made)
    (h : t.scopes.Rebinds s' id name now) (he' : e' ∈ t.made)
    (hsees : t.scopes.Sees e' name id) :
  s'.get? e' name = now.or (t.scopes.get? outer name)
  := by
  obtain ⟨inner', outer', rfl, hinner⟩ := hsees
  obtain rfl := ht.outer_eq he he'
  have hnodup := ht.nodup he'
  rw [List.nodup_append] at hnodup
  obtain ⟨-, hcons, hapart⟩ := hnodup
  apply h.get?_append
  · exact fun j hj => ⟨hapart j hj id List.mem_cons_self, hinner j hj⟩
  · exact (List.nodup_cons.mp hcons).1

/-- A request keeps the scopes of a tree apart. -/
theorem Formed.step {r : ScopeRequest} (ht : t.Formed) (h : t.step r = some t') :
  t'.Formed
  := by
  unfold ScopeTree.step at h
  split at h
  · rename_i hr
    cases r with
    | root =>
        cases h
        exact ht.enclose (.inl rfl)
    | enclosed outer =>
        cases h
        exact ht.enclose (.inr (hr outer rfl))
    | define scope name v =>
        cases h
        apply ht.of_size
        cases scope with
        | nil => rfl
        | cons id outer => exact Array.size_modify ..
    | get scope name =>
        cases h
        exact ht
    | update scope name v =>
        cases h
        apply ht.of_size
        unfold Scopes.update
        split
        · exact Array.size_modify ..
        · rfl
    | delete scope name =>
        cases h
        apply ht.of_size
        unfold Scopes.erase
        split
        · exact Array.size_modify ..
        · rfl
  · cases h

/-- Whatever is requested of a tree that is formed, it stays formed: by induction on the
requests. -/
theorem Formed.run {rs : List ScopeRequest} (ht : t.Formed) (h : t.run rs = some t') :
  t'.Formed
  := by
  induction rs generalizing t with
  | nil =>
      cases h
      exact ht
  | cons r rs ih =>
      obtain ⟨u, hu, h⟩ := Option.bind_eq_some_iff.mp h
      exact ih (ht.step hu) h

/-- Whether the scopes of a tree behave as a stack of maps that scopes inside a common one share. -/
structure Layered (t : ScopeTree) : Prop where
  /-- The way outwards from a scope leads through scopes of the tree, each of which is known by its
  own bindings, and meets none of them twice. -/
  chain : ∀ e ∈ t.made, e ≠ [] ∧ e.Nodup ∧ ∀ inner id outer, e = inner ++ id :: outer →
    id :: outer ∈ t.made ∧ ∀ outer', id :: outer' ∈ t.made → outer' = outer
  /-- A new scope reads what the one around it reads, and changes nothing. -/
  enclosed : ∀ outer ∈ t.made, ∃ e s', t.scopes.serve (.enclosed outer) = (.made e, s')
    ∧ (∀ n, s'.get? e n = t.scopes.get? outer n) ∧ ∀ e' n, s'.get? e' n = t.scopes.get? e' n
  /-- A name is read where it is bound next, if it is bound at all. -/
  get : ∀ e ∈ t.made, ∀ name,
    (∃ id, t.scopes.Nearest e name id
      ∧ t.scopes.serve (.get e name) = (.value (t.scopes.bound? id name), t.scopes))
    ∨ (∀ id ∈ e, t.scopes.bound? id name = none)
      ∧ t.scopes.serve (.get e name) = (.value none, t.scopes)
  /-- An assignment changes the next binding, for all scopes that it is the next one of. -/
  update : ∀ e ∈ t.made, ∀ name v,
    (∃ id s', t.scopes.Nearest e name id
      ∧ t.scopes.serve (.update e name v) = (.found true, s')
      ∧ t.scopes.Rebinds s' id name (some v)
      ∧ ∀ e' ∈ t.made, (t.scopes.Nearest e' name id → s'.get? e' name = some v)
        ∧ ∀ n, ¬ (n = name ∧ t.scopes.Nearest e' name id) → s'.get? e' n = t.scopes.get? e' n)
    ∨ (∀ id ∈ e, t.scopes.bound? id name = none)
      ∧ t.scopes.serve (.update e name v) = (.found false, t.scopes)
  /-- Taking a name away takes the next binding away, and the one behind it comes to light. -/
  delete : ∀ e ∈ t.made, ∀ name,
    (∃ inner id outer s', e = inner ++ id :: outer ∧ t.scopes.Nearest e name id
      ∧ t.scopes.serve (.delete e name) = (.found true, s')
      ∧ t.scopes.Rebinds s' id name none
      ∧ ∀ e' ∈ t.made, (t.scopes.Nearest e' name id → s'.get? e' name = t.scopes.get? outer name)
        ∧ ∀ n, ¬ (n = name ∧ t.scopes.Nearest e' name id) → s'.get? e' n = t.scopes.get? e' n)
    ∨ (∀ id ∈ e, t.scopes.bound? id name = none)
      ∧ t.scopes.serve (.delete e name) = (.found false, t.scopes)
  /-- A declaration changes a binding of the scope itself, for all scopes that see it. -/
  define : ∀ id outer, id :: outer ∈ t.made → ∀ name v, ∃ s',
    t.scopes.serve (.define (id :: outer) name v) = (.done, s')
      ∧ t.scopes.Rebinds s' id name (some v)
      ∧ ∀ e' ∈ t.made, (t.scopes.Sees e' name id → s'.get? e' name = some v)
        ∧ ∀ n, ¬ (n = name ∧ t.scopes.Sees e' name id) → s'.get? e' n = t.scopes.get? e' n

/-- The way outwards from a scope leads through scopes of the tree. -/
theorem Formed.chain (ht : t.Formed) (he : e ∈ t.made) :
  e ≠ [] ∧ e.Nodup ∧ ∀ inner id outer, e = inner ++ id :: outer →
    id :: outer ∈ t.made ∧ ∀ outer', id :: outer' ∈ t.made → outer' = outer
  := by
  refine ⟨fun hnil => ht.ne_nil (hnil ▸ he), ht.nodup he, ?_⟩
  rintro inner id outer rfl
  have hmem := ht.mem_of_append he
  exact ⟨hmem, fun outer' he' => ht.unique id outer' outer he' hmem⟩

/-- The scopes of a tree that is formed behave as a stack of maps. -/
theorem Formed.layered (ht : t.Formed) :
  t.Layered
  where
  chain _ he := ht.chain he
  enclosed outer _ := by
    have hget (scope : Scope) (n : String) :
        (t.scopes.enclose outer []).2.get? scope n = t.scopes.get? scope n := by
      unfold Scopes.get?
      rw [Scopes.bindings_enclose]
    refine ⟨_, _, rfl, fun n => ?_, hget⟩
    have hfresh : t.scopes.bound? t.scopes.tables.size n = none := by
      simp [Scopes.bound?, Scopes.bindings, Bindings.get?]
    calc (t.scopes.enclose outer []).2.get? (t.scopes.tables.size :: outer) n
      _ = t.scopes.get? (t.scopes.tables.size :: outer) n := hget _ n
      _ = t.scopes.get? outer n := by rw [Scopes.get?_cons, hfresh, Option.none_or]
  get e he name := by
    rcases t.scopes.exists_nearest_or e name with ⟨id, hnearest, -⟩ | ⟨hnone, -⟩
    · exact .inl ⟨id, hnearest, by rw [← hnearest.get?]; rfl⟩
    · exact .inr ⟨hnone, by rw [← Scopes.get?_eq_none hnone]; rfl⟩
  update e he name v := by
    rcases t.scopes.exists_nearest_or e name with ⟨id, hnearest, hhas⟩ | ⟨hnone, hholder⟩
    · have hrebinds := Scopes.rebinds_update hnearest v
      refine .inl ⟨id, _, hnearest, by rw [Scopes.serve, hhas], hrebinds, fun e' he' => ?_⟩
      rw [hnearest.sees_iff]
      obtain ⟨⟨inner, outer, rfl, -⟩, -⟩ := hnearest
      exact ⟨ht.get?_rebinds he hrebinds he', fun n => hrebinds.get?_of_not_sees⟩
    · refine .inr ⟨hnone, ?_⟩
      rw [Scopes.serve, Scopes.has, Scopes.update, hholder]
      rfl
  delete e he name := by
    rcases t.scopes.exists_nearest_or e name with ⟨id, hnearest, hhas⟩ | ⟨hnone, hholder⟩
    · have hrebinds := Scopes.rebinds_erase hnearest
      obtain ⟨inner, outer, rfl, -⟩ := hnearest.1
      refine .inl ⟨inner, id, outer, _, rfl, hnearest, by rw [Scopes.serve, hhas], hrebinds,
        fun e' he' => ?_⟩
      rw [hnearest.sees_iff]
      exact ⟨ht.get?_rebinds he hrebinds he', fun n => hrebinds.get?_of_not_sees⟩
    · refine .inr ⟨hnone, ?_⟩
      rw [Scopes.serve, Scopes.has, Scopes.erase, hholder]
      rfl
  define id outer he name v := by
    have hrebinds := Scopes.rebinds_define (ht.bounded _ he id List.mem_cons_self) outer name v
    have hmade : [] ++ id :: outer ∈ t.made := he
    refine ⟨_, rfl, hrebinds, fun e' he' => ?_⟩
    exact ⟨ht.get?_rebinds hmade hrebinds he', fun n => hrebinds.get?_of_not_sees⟩

/-- However a tree of scopes has come about, its scopes behave as a stack of maps that scopes inside
a common one share. -/
theorem run_layered (rs : List ScopeRequest) (t : ScopeTree) (h : empty.run rs = some t) :
  t.Layered
  := (formed_empty.run h).layered

/-- Two scopes inside a common one: a name is declared in the one, and assigned to in the other. -/
theorem run_layered_siblings :
  empty.run [.root, .define [0] "a" (.bool true), .enclosed [0], .enclosed [0],
        .define [1, 0] "a" .null, .update [2, 0] "a" (.bool false), .delete [1, 0] "a"]
      = some ⟨⟨#[[("a", .bool false)], [], []]⟩, [[2, 0], [1, 0], [0]]⟩
    ∧ (⟨⟨#[[("a", .bool false)], [], []]⟩, [[2, 0], [1, 0], [0]]⟩ : ScopeTree).Layered
  := by
  have h : empty.run [.root, .define [0] "a" (.bool true), .enclosed [0], .enclosed [0],
        .define [1, 0] "a" .null, .update [2, 0] "a" (.bool false), .delete [1, 0] "a"]
      = some ⟨⟨#[[("a", .bool false)], [], []]⟩, [[2, 0], [1, 0], [0]]⟩ := rfl
  exact ⟨h, run_layered _ _ h⟩

end ScopeTree

end Scriptlet
