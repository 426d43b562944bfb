import Scriptlet.Proofs.Equality
import Scriptlet.Proofs.Running.Ending
import Scriptlet.Proofs.Running.Sound

/-!
# Literals

Literals come to values, and nothing but the heap grows.  The arrays and hashes of a literal hold
only what was made before them.  So none is found inside itself, and every key of a hash literal
can be compared with the keys before it.
-/

namespace Scriptlet

variable {σ : Type}

mutual

/-- Whether an expression is a literal: a number, a text, `true`, `false`, `null`, a function, or an
array or a hash of literals. -/
def Expr.isLiteral : Expr → Bool
  | .num .. | .str .. | .bool .. | .null _ | .func .. => true
  | .array _ elements => Expr.areLiterals elements
  | .hash _ entries => Expr.areLiteralEntries entries
  | _ => false

/-- Whether all the expressions are literals. -/
def Expr.areLiterals : List Expr → Bool
  | [] => true
  | e :: rest => e.isLiteral && Expr.areLiterals rest

/-- Whether the keys and the values of all the entries are literals. -/
def Expr.areLiteralEntries : List (Expr × Expr) → Bool
  | [] => true
  | (key, value) :: rest => key.isLiteral && value.isLiteral && Expr.areLiteralEntries rest

end

/-! ### Values that are made of earlier ones -/

namespace Heap

/-- Whether a value can stand for a literal: arrays and hashes are there. -/
def Has (h : Heap) : Value → Prop
  | .array i => i < h.arrays.size
  | .hash i => i < h.hashes.size
  | .native _ | .error _ => False
  | _ => True

/-- Whether everything found inside a value can stand for a literal, and nothing is found inside
itself. -/
inductive Built (h : Heap) : Value → Prop where
  | intro {v : Value} : h.Has v → (∀ w, h.Holds v w → Built h w) → Built h v

/-- Whether the arrays and hashes of `h` are the same in `h'`. -/
structure Extends (h h' : Heap) : Prop where
  arrays_size : h.arrays.size ≤ h'.arrays.size
  hashes_size : h.hashes.size ≤ h'.hashes.size
  array : ∀ i < h.arrays.size, h'.array i = h.array i
  hash : ∀ i < h.hashes.size, h'.hash i = h.hash i

variable {h h' h'' : Heap} {v w : Value}

/-- A heap has the arrays and hashes that it has. -/
theorem Extends.refl (h : Heap) :
  h.Extends h
  := ⟨Nat.le_refl _, Nat.le_refl _, fun _ _ => rfl, fun _ _ => rfl⟩

/-- What grows twice has grown. -/
theorem Extends.trans (h₁ : h.Extends h') (h₂ : h'.Extends h'') :
  h.Extends h''
  := by
  constructor
  · exact Nat.le_trans h₁.arrays_size h₂.arrays_size
  · exact Nat.le_trans h₁.hashes_size h₂.hashes_size
  · intro i hi
    rw [h₂.array i (Nat.lt_of_lt_of_le hi h₁.arrays_size), h₁.array i hi]
  · intro i hi
    rw [h₂.hash i (Nat.lt_of_lt_of_le hi h₁.hashes_size), h₁.hash i hi]

/-- What is there stays there. -/
theorem Extends.has (hh : h.Extends h') (hv : h.Has v) :
  h'.Has v
  := by
  cases v
  case array => exact Nat.lt_of_lt_of_le hv hh.arrays_size
  case hash => exact Nat.lt_of_lt_of_le hv hh.hashes_size
  all_goals exact hv

/-- What an array or a hash that is there holds later it has held before. -/
theorem Extends.holds (hh : h.Extends h') (hv : h.Has v) (hw : h'.Holds v w) :
  h.Holds v w
  := by
  cases hw with
  | element hx =>
      rw [hh.array _ hv] at hx
      exact .element hx
  | key hentry =>
      rw [hh.hash _ hv] at hentry
      exact .key hentry
  | value hentry =>
      rw [hh.hash _ hv] at hentry
      exact .value hentry

/-- A value that is made of earlier ones stays so while the heap grows. -/
theorem Built.extends (hv : h.Built v) (hh : h.Extends h') :
  h'.Built v
  := by
  induction hv with
  | intro hhas _ ih => exact .intro (hh.has hhas) fun w hw => ih w (hh.holds hhas hw)

/-- What is held by a value that is made of earlier ones is made of earlier ones. -/
theorem Built.holds (hv : h.Built v) (hw : h.Holds v w) :
  h.Built w
  := by
  obtain ⟨-, hparts⟩ := hv
  exact hparts w hw

/-- Whatever is found inside a value that is made of earlier ones is made of earlier ones. -/
theorem Built.leads (hv : h.Built v) (hw : h.Leads v w) :
  h.Built w
  := by
  induction hw with
  | refl => exact hv
  | tail _ hw ih => exact ih.holds hw

/-- No value that is made of earlier ones is found inside itself. -/
theorem Built.not_transGen (hv : h.Built v) :
  ¬ Relation.TransGen h.Holds v v
  := by
  induction hv with
  | intro _ _ ih =>
      intro hloop
      obtain ⟨w, hw, hback⟩ := Relation.TransGen.head'_iff.mp hloop
      exact ih w hw (.tail' hback hw)

/-- The keys of what is made of earlier values can all be compared, as none is found inside
itself. -/
theorem Built.keysFounded (hv : h.Built v) :
  h.KeysFounded v
  := by
  intro i hi entry hentry hback
  exact (hv.leads hi).not_transGen (.head' (.key hentry) hback)

/-- A new array has the elements that it is made of. -/
theorem array_newArray (h : Heap) (elements : Array Value) :
  (h.newArray elements).2.array h.arrays.size = elements
  := by
  simp [newArray, Heap.array]

/-- A new hash has the entries that it is made of. -/
theorem hash_newHash (h : Heap) (pairs : Pairs) :
  (h.newHash pairs).2.hash h.hashes.size = pairs
  := by
  simp [newHash, Heap.hash]

/-- A new array leaves the others and the hashes as they are. -/
theorem extends_newArray (h : Heap) (elements : Array Value) :
  h.Extends (h.newArray elements).2
  := by
  constructor
  · simp [newArray]
  · exact Nat.le_refl _
  · intro i hi
    simp [newArray, Heap.array, Array.getElem?_push_lt hi, Array.getElem?_eq_getElem hi]
  · exact fun _ _ => rfl

/-- A new hash leaves the others and the arrays as they are. -/
theorem extends_newHash (h : Heap) (pairs : Pairs) :
  h.Extends (h.newHash pairs).2
  := by
  constructor
  · exact Nat.le_refl _
  · simp [newHash]
  · exact fun _ _ => rfl
  · intro i hi
    simp [newHash, Heap.hash, Array.getElem?_push_lt hi, Array.getElem?_eq_getElem hi]

/-- Whether the keys and the values of pairs are made of earlier values. -/
def BuiltPairs (h : Heap) (pairs : Pairs) : Prop :=
  ∀ p ∈ pairs, h.Built p.1 ∧ h.Built p.2

/-- A new array of values that are made of earlier ones is one more of them. -/
theorem built_newArray {elements : Array Value} (hvalues : ∀ v ∈ elements, h.Built v) :
  (h.newArray elements).2.Built (h.newArray elements).1
  := by
  constructor
  · simp [newArray, Has]
  · intro w hw
    change (h.newArray elements).2.Holds (.array h.arrays.size) w at hw
    cases hw with
    | element hx =>
        rw [array_newArray, Array.mem_toList_iff] at hx
        exact (hvalues w hx).extends (h.extends_newArray elements)

/-- A new hash of values that are made of earlier ones is one more of them. -/
theorem built_newHash {pairs : Pairs} (hpairs : h.BuiltPairs pairs) :
  (h.newHash pairs).2.Built (h.newHash pairs).1
  := by
  constructor
  · simp [newHash, Has]
  · intro w hw
    change (h.newHash pairs).2.Holds (.hash h.hashes.size) w at hw
    cases hw with
    | key hentry =>
        rw [hash_newHash, Array.mem_toList_iff] at hentry
        exact (hpairs _ hentry).1.extends (h.extends_newHash pairs)
    | value hentry =>
        rw [hash_newHash, Array.mem_toList_iff] at hentry
        exact (hpairs _ hentry).2.extends (h.extends_newHash pairs)

/-- A key that is made of earlier values can be put among pairs. -/
theorem exists_insert {pairs : Pairs} {key value : Value} (hpairs : h.BuiltPairs pairs)
    (hkey : h.Built key) (hvalue : h.Built value) :
  ∃ found, h.insert? pairs key value = some found ∧ h.BuiltPairs found
  := by
  obtain ⟨slot, hslot⟩ := exists_slot? fun (entry : Value × Value) (_ : entry ∈ pairs.toList) =>
    .inr hkey.keysFounded
  unfold insert?
  rw [hslot]
  refine ⟨_, rfl, ?_⟩
  cases slot with
  | none => exact Array.forall_mem_push.mpr ⟨⟨hkey, hvalue⟩, hpairs⟩
  | some i => exact forall_mem_modify hpairs fun _ hp => ⟨hp.1, hvalue⟩

end Heap

/-! ### The values of literals -/

/-- Whether `m'` is `m` with more in its heap. -/
structure Machine.Extends (m m' : Machine σ) : Prop where
  control : m'.control = m.control
  scopes : m'.scopes = m.scopes
  heap : m.heap.Extends m'.heap

/-- A machine has the heap that it has. -/
theorem Machine.Extends.refl (m : Machine σ) :
  m.Extends m
  := ⟨rfl, rfl, .refl _⟩

/-- A machine whose heap has grown twice has one that has grown. -/
theorem Machine.Extends.trans {m₁ m₂ m₃ : Machine σ} (h₁ : m₁.Extends m₂) (h₂ : m₂.Extends m₃) :
  m₁.Extends m₃
  := ⟨h₂.control.trans h₁.control, h₂.scopes.trans h₁.scopes, h₁.heap.trans h₂.heap⟩

namespace Expr

/-- Whether an expression comes to a value that is made of earlier ones. -/
def Makes (setting : Setting σ) (e : Expr) : Prop :=
  ∀ scope m, ∃ v m', (Task.expr e scope).Ends setting m (.ok v m') ∧ m.Extends m'
    ∧ m'.heap.Built v

/-- Whether expressions come to values that are made of earlier ones. -/
def MakeAll (setting : Setting σ) (es : List Expr) : Prop :=
  ∀ scope m, ∃ values m', (Task.all es scope).Ends setting m (.ok values m') ∧ m.Extends m'
    ∧ ∀ v ∈ values, m'.heap.Built v

/-- Whether entries come to pairs that are made of earlier values, behind others that are. -/
def MakePairs (setting : Setting σ) (entries : List (Expr × Expr)) : Prop :=
  ∀ scope found m, m.heap.BuiltPairs found →
    ∃ pairs m', (Task.entries entries found scope).Ends setting m (.ok pairs m') ∧ m.Extends m'
      ∧ m'.heap.BuiltPairs pairs

variable {setting : Setting σ}

/-- An expression that stands for a value in which nothing is found. -/
theorem makes_of_ret {e : Expr} {v : Value} (hplan : ∀ scope, Task.exprPlan e scope = .ret v)
    (hv : ∀ h : Heap, h.Built v) :
  e.Makes setting
  := by
  intro scope m
  refine ⟨v, m, ?_, .refl m, hv m.heap⟩
  rw [Task.ends_iff]
  simp only [Task.plan, hplan, Plan.ends_ret]

/-- A function comes to itself, which holds nothing. -/
theorem makes_func (pos : Position) (name : Option String) (params : List String)
    (body : List Stmt) :
  (func pos name params body).Makes setting
  := by
  intro scope m
  let c : Closure := ⟨name, params, body, scope, m.control.file⟩
  refine ⟨(m.heap.newClosure c).1, { m with heap := (m.heap.newClosure c).2 }, ?_,
    ⟨rfl, rfl, ?_⟩, ?_⟩
  · exact Task.ends_iff.mpr (Plan.ends_of_act rfl (Plan.ends_ret.mpr rfl))
  · exact ⟨Nat.le_refl _, Nat.le_refl _, fun _ _ => rfl, fun _ _ => rfl⟩
  · exact .intro trivial (by rintro w ⟨⟩)

/-- An array of literals comes to an array that is made of their values. -/
theorem makes_array {pos : Position} {es : List Expr} (hes : MakeAll setting es) :
  (array pos es).Makes setting
  := by
  intro scope m
  obtain ⟨values, m₁, hends, hextends, hvalues⟩ := hes scope m
  refine ⟨(m₁.heap.newArray values.toArray).1,
    { m₁ with heap := (m₁.heap.newArray values.toArray).2 }, ?_,
    hextends.trans ⟨rfl, rfl, m₁.heap.extends_newArray _⟩, Heap.built_newArray ?_⟩
  · exact Task.ends_iff.mpr
      (Plan.ends_of_call hends (Plan.ends_of_act rfl (Plan.ends_ret.mpr rfl)))
  · intro v hv
    exact hvalues v (List.mem_toArray.mp hv)

/-- A hash of literals comes to a hash that is made of their values. -/
theorem makes_hash {pos : Position} {entries : List (Expr × Expr)}
    (hentries : MakePairs setting entries) :
  (hash pos entries).Makes setting
  := by
  intro scope m
  obtain ⟨pairs, m₁, hends, hextends, hpairs⟩ := hentries scope #[] m (by simp [Heap.BuiltPairs])
  refine ⟨(m₁.heap.newHash pairs).1, { m₁ with heap := (m₁.heap.newHash pairs).2 }, ?_,
    hextends.trans ⟨rfl, rfl, m₁.heap.extends_newHash _⟩, Heap.built_newHash hpairs⟩
  exact Task.ends_iff.mpr
    (Plan.ends_of_call hends (Plan.ends_of_act rfl (Plan.ends_ret.mpr rfl)))

/-- No expressions come to no values. -/
theorem makeAll_nil :
  MakeAll setting []
  := fun _ m => ⟨[], m, Task.ends_iff.mpr (Plan.ends_ret.mpr rfl), .refl m, List.forall_mem_nil _⟩

/-- Expressions come to values made of earlier ones if the first one and the others do. -/
theorem makeAll_cons {e : Expr} {rest : List Expr} (he : e.Makes setting)
    (hrest : MakeAll setting rest) :
  MakeAll setting (e :: rest)
  := by
  intro scope m
  obtain ⟨v, m₁, hends, hextends, hv⟩ := he scope m
  obtain ⟨values, m₂, hends', hextends', hvalues⟩ := hrest scope m₁
  refine ⟨v :: values, m₂, ?_, hextends.trans hextends',
    List.forall_mem_cons.mpr ⟨hv.extends hextends'.heap, hvalues⟩⟩
  exact Task.ends_iff.mpr
    (Plan.ends_of_call hends (Plan.ends_of_call hends' (Plan.ends_ret.mpr rfl)))

/-- No entries come to the entries that are there. -/
theorem makePairs_nil :
  MakePairs setting []
  := fun _ found m hfound =>
    ⟨found, m, Task.ends_iff.mpr (Plan.ends_ret.mpr rfl), .refl m, hfound⟩

/-- Entries come to pairs made of earlier values if the first one and the others do: its key can be
compared with the keys before it. -/
theorem makePairs_cons {key value : Expr} {rest : List (Expr × Expr)} (hkey : key.Makes setting)
    (hvalue : value.Makes setting) (hrest : MakePairs setting rest) :
  MakePairs setting ((key, value) :: rest)
  := by
  intro scope found m hfound
  obtain ⟨k, m₁, hends₁, hextends₁, hk⟩ := hkey scope m
  obtain ⟨v, m₂, hends₂, hextends₂, hv⟩ := hvalue scope m₁
  have hfound₂ : m₂.heap.BuiltPairs found := by
    intro p hp
    have hextends := hextends₁.heap.trans hextends₂.heap
    exact ⟨(hfound p hp).1.extends hextends, (hfound p hp).2.extends hextends⟩
  obtain ⟨found', hinsert, hfound'⟩ :=
    Heap.exists_insert hfound₂ (hk.extends hextends₂.heap) hv
  obtain ⟨pairs, m₃, hends₃, hextends₃, hpairs⟩ := hrest scope found' m₂ hfound'
  refine ⟨pairs, m₃, ?_, (hextends₁.trans hextends₂).trans hextends₃, hpairs⟩
  have hrun : (Action.insert found k v).run setting m₂ = .ok found' m₂ := by
    change Run.answer (·.insert? found k v) m₂ = _
    rw [Quiet.answer_apply, hinsert]
  exact Task.ends_iff.mpr
    (Plan.ends_of_call hends₁ (Plan.ends_of_call hends₂ (Plan.ends_of_act hrun
      (Task.ends_last.mpr hends₃))))

mutual

/-- A literal comes to a value that is made of earlier ones. -/
theorem makes_literal (e : Expr) (h : e.isLiteral = true) :
  e.Makes setting
  := by
  cases e with
  | num pos value =>
      exact makes_of_ret (fun _ => rfl) fun _ => .intro trivial (by rintro w ⟨⟩)
  | str pos text => exact makes_of_ret (fun _ => rfl) fun _ => .intro trivial (by rintro w ⟨⟩)
  | bool pos value => exact makes_of_ret (fun _ => rfl) fun _ => .intro trivial (by rintro w ⟨⟩)
  | null pos => exact makes_of_ret (fun _ => rfl) fun _ => .intro trivial (by rintro w ⟨⟩)
  | func pos name params body => exact makes_func pos name params body
  | array pos elements => exact makes_array (makeAll_literals elements h)
  | hash pos entries => exact makes_hash (makePairs_literals entries h)
  | _ => cases h

/-- Literals all come to values that are made of earlier ones. -/
theorem makeAll_literals (es : List Expr) (h : areLiterals es = true) :
  MakeAll setting es
  := by
  cases es with
  | nil => exact makeAll_nil
  | cons e rest =>
      obtain ⟨he, hrest⟩ := Bool.and_eq_true_iff.mp h
      exact makeAll_cons (makes_literal e he) (makeAll_literals rest hrest)

/-- Entries of literals come to pairs that are made of earlier values. -/
theorem makePairs_literals (entries : List (Expr × Expr)) (h : areLiteralEntries entries = true) :
  MakePairs setting entries
  := by
  rcases entries with _ | ⟨⟨key, value⟩, rest⟩
  · exact makePairs_nil
  · obtain ⟨hentry, hrest⟩ := Bool.and_eq_true_iff.mp h
    obtain ⟨hkey, hvalue⟩ := Bool.and_eq_true_iff.mp hentry
    exact makePairs_cons (makes_literal key hkey) (makes_literal value hvalue)
      (makePairs_literals rest hrest)

end

end Expr

end Scriptlet
