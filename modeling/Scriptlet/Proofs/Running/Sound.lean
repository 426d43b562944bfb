import Mathlib.Tactic.Common
import Scriptlet.Proofs.Running.Names
import Scriptlet.Proofs.Tree.Positions

/-!
# Sound machines

A machine is sound if no error is among its values and every function in it was made of a node of
what was run in its file.  Actions keep machines sound: they report their faults at the position
they are given, and only native functions make errors, which have no position yet.
-/

namespace Scriptlet

variable {σ : Type}

/-! ### Where faults come from -/

/-- The program of a run, and what the faults of the run can be reported at. -/
structure Origins where
  /-- The program that is run. -/
  root : Program
  /-- Whether something that is run in a file has a node at a position. -/
  Node (file : String) (pos : Position) : Prop
  /-- Whether a text that would be run in a file has a syntax error, and it is the first one. -/
  Flaw (file : String) (e : SyntaxError) : Prop

namespace Fault

/-- The faults without a position. -/
inductive Bare : Fault → Prop where
  | bare (cause : Cause) : Bare (.bare cause)

variable (o : Origins)

/-- The faults with a position and a file that belong together. -/
inductive Filed : Fault → Prop where
  | node {file : String} {pos : Position} (cause : Cause) :
      o.Node file pos → Filed ((placed cause pos).inFile file)
  | flaw {file : String} {e : SyntaxError} : o.Flaw file e → Filed (.ofSyntaxError e file)

/-- The faults that are reported in some file, or else at a position in `file`. -/
inductive Placed (file : String) : Fault → Prop where
  | filed {f : Fault} : f.Filed o → Placed file f
  | here {pos : Position} (cause : Cause) : o.Node file pos → Placed file (.placed cause pos)

variable {o} {file : String} {f : Fault}

/-- A fault without a position is put at a position of what is being run. -/
theorem Bare.located (hf : f.Bare) {pos : Position} (hpos : o.Node file pos) :
  (f.located pos).Placed o file
  := by
  obtain ⟨cause⟩ := hf
  exact .here cause hpos

/-- A fault that has a position keeps it. -/
theorem Placed.located (hf : f.Placed o file) (pos : Position) :
  (f.located pos).Placed o file
  := by
  cases hf with
  | filed hf =>
      cases hf with
      | node cause hpos => exact .filed (.node cause hpos)
      | flaw he => exact .filed (.flaw he)
  | here cause hpos => exact .here cause hpos

/-- A fault on its way out of a file is given that file, unless it has one. -/
theorem Placed.filed_inFile (hf : f.Placed o file) :
  (f.inFile file).Filed o
  := by
  cases hf with
  | filed hf =>
      cases hf with
      | node cause hpos => exact .node cause hpos
      | flaw he => exact .flaw he
  | here cause hpos => exact .node cause hpos

end Fault

/-! ### Clean values -/

/-- Whether a value, if it is an error, is one with a fault that fulfils `P`. -/
def Value.IfError (P : Fault → Prop) : Value → Prop
  | error f => P f
  | _ => True

/-- Whether a value is not an error. -/
@[reducible] def Value.Clean (v : Value) : Prop :=
  v.IfError fun _ => False

/-- What errors fulfil can be weakened. -/
theorem Value.IfError.mono {P Q : Fault → Prop} (hPQ : ∀ f, P f → Q f) {v : Value}
    (hv : v.IfError P) :
  v.IfError Q
  := by
  cases v
  case error f => exact hPQ f hv
  all_goals trivial

/-- A value that is no error fulfils whatever is asked of errors. -/
theorem Value.Clean.ifError {P : Fault → Prop} {v : Value} (hv : v.Clean) :
  v.IfError P
  := hv.mono fun _ => False.elim

/-- Nothing where something might be found is `null`, which is no error. -/
theorem Value.clean_getD {v : Option Value} (hv : ∀ w ∈ v, w.Clean) :
  (v.getD .null).Clean
  := by
  cases v
  · trivial
  · exact hv _ rfl

/-- Whether no name is bound to an error. -/
def Bindings.Clean (b : Bindings) : Prop :=
  ∀ p ∈ b, p.2.Clean

/-- Whether no key and no value is an error. -/
def Pairs.Clean (pairs : Pairs) : Prop :=
  ∀ p ∈ pairs, p.1.Clean ∧ p.2.Clean

/-- Whether no name is bound to an error in any scope. -/
def Scopes.Clean (s : Scopes) : Prop :=
  ∀ b ∈ s.tables, b.Clean

/-- What all elements fulfil, they fulfil after a change of one that keeps it. -/
theorem forall_mem_modify {α : Type} {P : α → Prop} {a : Array α} {i : Nat} {f : α → α}
    (ha : ∀ x ∈ a, P x) (hf : ∀ x, P x → P (f x)) :
  ∀ x ∈ a.modify i f, P x
  := by
  rw [Array.forall_mem_iff_forall_getElem]
  intro j hj
  rw [Array.getElem_modify]
  split
  · exact hf _ (ha _ (Array.getElem_mem _))
  · exact ha _ (Array.getElem_mem _)

/-- The elements that are left without the last one were there before. -/
theorem mem_of_mem_pop {α : Type} {a : Array α} {x : α} (hx : x ∈ a.pop) :
  x ∈ a
  := by
  obtain ⟨i, hi, rfl⟩ := Array.mem_iff_getElem.mp hx
  rw [Array.getElem_pop]
  exact Array.getElem_mem _

/-- The elements of a slice were there before. -/
theorem mem_of_mem_extract {α : Type} {a : Array α} {i j : Nat} {x : α} (hx : x ∈ a.extract i j) :
  x ∈ a
  := by
  obtain ⟨k, hk, rfl⟩ := Array.mem_extract_iff_getElem.mp hx
  exact Array.getElem_mem _

namespace Scopes

variable {s : Scopes}

/-- Each scope binds names to no errors. -/
theorem Clean.bindings (hs : s.Clean) (id : Nat) :
  (s.bindings id).Clean
  := by
  unfold Scopes.bindings
  rw [Array.getD_eq_getD_getElem?]
  cases hid : s.tables[id]? with
  | none => exact List.forall_mem_nil _
  | some b => exact hs b (Array.mem_of_getElem? hid)

/-- A name that is read stands for no error. -/
theorem Clean.get? (hs : s.Clean) {scope : Scope} {name : String} {v : Value}
    (hv : s.get? scope name = some v) :
  v.Clean
  := by
  obtain ⟨id, -, hid⟩ := List.exists_of_findSome?_eq_some hv
  obtain ⟨p, hp, rfl⟩ := Bindings.mem_of_get? hid
  exact hs.bindings id p hp

/-- A change of one scope that brings in no error keeps scopes clean. -/
theorem Clean.modify (hs : s.Clean) (id : Nat) {f : Bindings → Bindings}
    (hf : ∀ b : Bindings, b.Clean → (f b).Clean) :
  (s.modify id f).Clean
  := forall_mem_modify hs hf

/-- Declaring a name as something that is no error keeps scopes clean. -/
theorem Clean.define (hs : s.Clean) (scope : Scope) (name : String) {v : Value} (hv : v.Clean) :
  (s.define scope name v).Clean
  := by
  cases scope with
  | nil => exact hs
  | cons id outer => exact hs.modify id fun _ hb => Bindings.forall_set hb name hv

/-- Assigning something that is no error keeps scopes clean. -/
theorem Clean.update (hs : s.Clean) (scope : Scope) (name : String) {v : Value} (hv : v.Clean) :
  (s.update scope name v).Clean
  := by
  unfold Scopes.update
  split
  · exact hs.modify _ fun _ hb => Bindings.forall_set hb name hv
  · exact hs

/-- Taking a name away keeps scopes clean. -/
theorem Clean.erase (hs : s.Clean) (scope : Scope) (name : String) :
  (s.erase scope name).Clean
  := by
  unfold Scopes.erase
  split
  · exact hs.modify _ fun _ hb => Bindings.forall_erase hb name
  · exact hs

/-- A new scope with bindings to no errors keeps scopes clean. -/
theorem Clean.enclose (hs : s.Clean) (outer : Scope) {b : Bindings} (hb : b.Clean) :
  (s.enclose outer b).2.Clean
  := Array.forall_mem_push.mpr ⟨hb, hs⟩

end Scopes

/-! ### Sound heaps and machines -/

/-- Whether a function was made of a node of what was run in its file. -/
def Closure.Sound (o : Origins) (c : Closure) : Prop :=
  ∀ pos ∈ Stmt.positionsAll c.body, o.Node c.file pos

/-- Whether no error is in an array or a hash, and all functions are sound. -/
structure Heap.Sound (o : Origins) (h : Heap) : Prop where
  arrays : ∀ es ∈ h.arrays, ∀ v ∈ es, v.Clean
  hashes : ∀ pairs ∈ h.hashes, Pairs.Clean pairs
  closures : ∀ c ∈ h.closures, c.Sound o

/-- Whether no error is among the values of a machine, and all functions are sound. -/
structure Machine.Sound (o : Origins) (m : Machine σ) : Prop where
  heap : m.heap.Sound o
  scopes : m.scopes.Clean
  frames : ∀ frame ∈ m.control.frames, ∀ v ∈ frame.args, v.Clean

namespace Heap

variable {o : Origins} {h : Heap}

/-- No element of an array is an error, even of one that is not there. -/
theorem Sound.array (hh : h.Sound o) (id : Nat) :
  ∀ v ∈ h.array id, v.Clean
  := by
  unfold Heap.array
  rw [Array.getD_eq_getD_getElem?]
  cases hid : h.arrays[id]? with
  | none => exact Array.forall_mem_empty _
  | some es => exact hh.arrays es (Array.mem_of_getElem? hid)

/-- No key and no value of a hash is an error, even of one that is not there. -/
theorem Sound.hash (hh : h.Sound o) (id : Nat) :
  Pairs.Clean (h.hash id)
  := by
  unfold Heap.hash
  rw [Array.getD_eq_getD_getElem?]
  cases hid : h.hashes[id]? with
  | none => exact Array.forall_mem_empty _
  | some pairs => exact hh.hashes pairs (Array.mem_of_getElem? hid)

/-- Every function was made of a node of its file, even one that is not there, which has none. -/
theorem Sound.closure (hh : h.Sound o) (id : Nat) :
  (h.closure id).Sound o
  := by
  unfold Heap.closure
  rw [Array.getD_eq_getD_getElem?]
  cases hid : h.closures[id]? with
  | none => exact List.forall_mem_nil _
  | some c => exact hh.closures c (Array.mem_of_getElem? hid)

/-- A new array without errors keeps a heap sound. -/
theorem Sound.newArray (hh : h.Sound o) {es : Array Value} (hes : ∀ v ∈ es, v.Clean) :
  (h.newArray es).2.Sound o
  := ⟨Array.forall_mem_push.mpr ⟨hes, hh.arrays⟩, hh.hashes, hh.closures⟩

/-- A new hash without errors keeps a heap sound. -/
theorem Sound.newHash (hh : h.Sound o) {pairs : Pairs} (hpairs : pairs.Clean) :
  (h.newHash pairs).2.Sound o
  := ⟨hh.arrays, Array.forall_mem_push.mpr ⟨hpairs, hh.hashes⟩, hh.closures⟩

/-- A new function that is made of a node of its file keeps a heap sound. -/
theorem Sound.newClosure (hh : h.Sound o) {c : Closure} (hc : c.Sound o) :
  (h.newClosure c).2.Sound o
  := ⟨hh.arrays, hh.hashes, Array.forall_mem_push.mpr ⟨hc, hh.closures⟩⟩

/-- A change of an array that brings in no error keeps a heap sound. -/
theorem Sound.modifyArray (hh : h.Sound o) (id : Nat) {f : Array Value → Array Value}
    (hf : ∀ es : Array Value, (∀ v ∈ es, v.Clean) → ∀ v ∈ f es, v.Clean) :
  (h.modifyArray id f).Sound o
  := ⟨forall_mem_modify hh.arrays hf, hh.hashes, hh.closures⟩

/-- Inserting an entry without errors brings none into a hash. -/
theorem clean_insert {pairs found : Pairs} {key value : Value} (hpairs : pairs.Clean)
    (hkey : key.Clean) (hvalue : value.Clean) (h' : h.insert? pairs key value = some found) :
  found.Clean
  := by
  obtain ⟨slot, -, rfl⟩ := Option.map_eq_some_iff.mp h'
  cases slot with
  | none => exact Array.forall_mem_push.mpr ⟨⟨hkey, hvalue⟩, hpairs⟩
  | some i => exact forall_mem_modify hpairs fun _ hp => ⟨hp.1, hvalue⟩

/-- What is found for a key is no error. -/
theorem clean_find {pairs : Pairs} {key : Value} {v : Option Value} (hpairs : pairs.Clean)
    (h' : h.find? pairs key = some v) :
  ∀ w ∈ v, w.Clean
  := by
  obtain ⟨slot, -, rfl⟩ := Option.map_eq_some_iff.mp h'
  intro w hw
  obtain ⟨i, -, hw⟩ := Option.bind_eq_some_iff.mp hw
  obtain ⟨p, hp, rfl⟩ := Option.map_eq_some_iff.mp hw
  exact (hpairs p (Array.mem_of_getElem? hp)).2

end Heap

/-! ### Runs that keep machines sound -/

/-- Whether a run can be unwound by `u` while something in `file` is run. -/
def Unwind.Placed (o : Origins) (file : String) : Unwind → Prop
  | fault f => f.Placed o file
  | ret v => v.Clean
  | endless | exhausted => True

/-- Whether a run from a sound machine that stands at `c` leaves a sound one that stands there too,
makes something that fulfils `P`, and stops only with faults that are reported where they belong. -/
def Upholds (o : Origins) (c : Control) {α : Type} (P : α → Prop) (r : RunOn σ α) : Prop :=
  ∀ m : Machine σ, m.Sound o → m.control = c →
    Outcome.Follows (r m) (fun a m' => m'.Sound o ∧ m'.control = c ∧ P a)
      fun u m' => m'.Sound o ∧ m'.control = c ∧ u.Placed o c.file

namespace Upholds

variable {o : Origins} {c : Control} {α β : Type} {P : α → Prop} {Q : β → Prop}

/-- What fulfils `P` may be made without doing anything. -/
theorem pure {a : α} (ha : P a) :
  Upholds (σ := σ) o c P (Pure.pure a)
  := fun _ hm hc => ⟨hm, hc, ha⟩

/-- A run may fail at a position of the file that is being run. -/
theorem fail {pos : Position} (hpos : o.Node c.file pos) (cause : Cause) :
  Upholds (σ := σ) o c P (Run.fail cause pos)
  := fun _ hm hc => ⟨hm, hc, .here cause hpos⟩

/-- Runs that keep machines sound can be put one after the other. -/
theorem bind {r : RunOn σ β} {f : β → RunOn σ α} (hr : Upholds o c Q r)
    (hf : ∀ b, Q b → Upholds o c P (f b)) :
  Upholds o c P (r >>= f)
  := by
  intro m hm hc
  have hrun := hr m hm hc
  rw [Outcome.bind_apply]
  cases hr : r m with
  | ok b m' =>
      rw [hr] at hrun
      obtain ⟨hm', hc', hb⟩ := hrun
      exact hf b hb m' hm' hc'
  | error u m' =>
      rw [hr] at hrun
      exact hrun

/-- A run that begins by looking at the machine. -/
theorem get {f : Machine σ → RunOn σ α}
    (hf : ∀ m : Machine σ, m.Sound o → m.control = c → Upholds o c P (f m)) :
  Upholds o c P (MonadState.get >>= f)
  := fun m hm hc => hf m hm hc m hm hc

/-- A run that begins by looking at the heap. -/
theorem heap {f : Heap → RunOn σ α} (hf : ∀ h : Heap, h.Sound o → Upholds o c P (f h)) :
  Upholds o c P (Run.heap >>= f)
  := get (f := fun m => f m.heap) fun m hm _ => hf m.heap hm.heap

/-- The heap may be changed if it is kept sound. -/
theorem modifyHeap {f : Heap → Heap} (hf : ∀ h : Heap, h.Sound o → (f h).Sound o) :
  Upholds (σ := σ) o c (fun _ => True) (Run.modifyHeap f)
  := fun m hm hc => ⟨⟨hf m.heap hm.heap, hm.scopes, hm.frames⟩, hc, trivial⟩

/-- The scopes may be changed if they are kept clean. -/
theorem modifyScopes {f : Scopes → Scopes} (hf : ∀ s : Scopes, s.Clean → (f s).Clean) :
  Upholds (σ := σ) o c (fun _ => True) (Run.modifyScopes f)
  := fun m hm hc => ⟨⟨hm.heap, hf m.scopes hm.scopes, hm.frames⟩, hc, trivial⟩

/-- Whatever is asked of the streams, no error gets into the machine. -/
theorem exchange (request : σ → α × σ) :
  Upholds o c (fun _ => True) (Run.exchange request)
  := fun _ hm hc => ⟨⟨hm.heap, hm.scopes, hm.frames⟩, hc, trivial⟩

/-- An array without errors may be made, and is no error. -/
theorem newArray {R : Fault → Prop} {es : Array Value} (hes : ∀ v ∈ es, v.Clean) :
  Upholds (σ := σ) o c (Value.IfError R) (Run.newArray es)
  := fun _ hm hc => ⟨⟨hm.heap.newArray hes, hm.scopes, hm.frames⟩, hc, trivial⟩

/-- A hash without errors may be made, and is no error. -/
theorem newHash {pairs : Pairs} (hpairs : pairs.Clean) :
  Upholds (σ := σ) o c Value.Clean (Run.newHash pairs)
  := fun _ hm hc => ⟨⟨hm.heap.newHash hpairs, hm.scopes, hm.frames⟩, hc, trivial⟩

/-- A function may be made of a node of its file, and is no error. -/
theorem newClosure {f : Closure} (hf : f.Sound o) :
  Upholds (σ := σ) o c Value.Clean (Run.newClosure f)
  := fun _ hm hc => ⟨⟨hm.heap.newClosure hf, hm.scopes, hm.frames⟩, hc, trivial⟩

/-- A scope may be made with bindings to no errors. -/
theorem enclose (outer : Scope) {b : Bindings} (hb : b.Clean) :
  Upholds (σ := σ) o c (fun _ => True) (Run.enclose outer b)
  := fun _ hm hc => ⟨⟨hm.heap, hm.scopes.enclose outer hb, hm.frames⟩, hc, trivial⟩

/-- A question about a sound heap may be asked, and its answer fulfils what all of its answers
do. -/
theorem answer {ask : Heap → Option α} (hask : ∀ h : Heap, h.Sound o → ∀ a, ask h = some a → P a) :
  Upholds (σ := σ) o c P (Run.answer ask)
  := by
  apply heap
  intro h hh
  cases ha : ask h with
  | some a => exact pure (hask h hh a ha)
  | none => exact fun _ hm hc => ⟨hm, hc, trivial⟩

end Upholds

/-! ### Operations -/

namespace Run

variable {o : Origins} {c : Control} {pos : Position}

/-- Looking up a name makes no error and fails at the position of the name. -/
theorem upholds_lookUp (name : String) (scope : Scope) (hpos : o.Node c.file pos) :
  Upholds (σ := σ) o c Value.Clean (lookUp name scope pos)
  := by
  apply Upholds.get
  intro m hm _
  split
  · exact .pure (hm.scopes.get? ‹_›)
  · split
    · exact .pure trivial
    · exact .fail hpos _

/-- Assigning something that is no error keeps machines sound. -/
theorem upholds_assign (name : String) {v : Value} (hv : v.Clean) (scope : Scope) :
  Upholds (σ := σ) o c (fun _ => True) (assign name v scope)
  := by
  apply Upholds.get
  intro m _ _
  split
  · exact (Upholds.modifyScopes fun _ hs => hs.update scope name hv).bind fun _ _ => .pure trivial
  · exact .pure trivial

/-- Making a place of a number fails at most at the position of the index. -/
theorem upholds_place (x : Float) (length : Nat) (hpos : o.Node c.file pos) :
  Upholds (σ := σ) o c (fun _ => True) (place pos x length)
  := by
  unfold place
  split
  · exact .pure trivial
  · exact .fail hpos _

/-- What an index leads to is no error. -/
theorem upholds_index (collection i : Value) (hpos : o.Node c.file pos) :
  Upholds (σ := σ) o c Value.Clean (index pos collection i)
  := by
  unfold index
  split
  · apply Upholds.heap
    intro h hh
    apply (upholds_place _ _ hpos).bind
    intro at? _
    apply Upholds.pure
    apply Value.clean_getD
    intro v hv
    obtain ⟨n, -, hn⟩ := Option.bind_eq_some_iff.mp hv
    exact hh.array _ v (Array.mem_of_getElem? hn)
  · apply (upholds_place _ _ hpos).bind
    intro at? _
    apply Upholds.pure
    apply Value.clean_getD
    intro v hv
    obtain ⟨s, -, rfl⟩ := Option.map_eq_some_iff.mp hv
    trivial
  · refine (Upholds.answer fun h hh _ => Heap.clean_find (hh.hash _)).bind fun v hv => ?_
    exact .pure (Value.clean_getD hv)
  · exact .fail hpos _

/-- Negating makes no error and fails at the position of the operator. -/
theorem upholds_negate (v : Value) (hpos : o.Node c.file pos) :
  Upholds (σ := σ) o c Value.Clean (negate pos v)
  := by
  unfold negate
  split
  · exact .pure trivial
  · exact .fail hpos _

/-- Throwing fails at the position of `throw`. -/
theorem upholds_raise {v : Value} (hv : v.Clean) (hpos : o.Node c.file pos) :
  Upholds (σ := σ) o c Value.Clean (raise pos v)
  := by
  unfold raise
  split
  · exact hv.elim
  · exact .heap fun _ _ => .fail hpos _

/-- Adding makes no error and fails at the position of the operator. -/
theorem upholds_add (a b : Value) (hpos : o.Node c.file pos) :
  Upholds (σ := σ) o c Value.Clean (add pos a b)
  := by
  unfold add
  split
  · exact .pure trivial
  · exact .heap fun _ _ => .pure trivial
  · exact .heap fun _ _ => .pure trivial
  · refine .heap fun h hh => .newArray fun v hv => ?_
    exact (Array.mem_append.mp hv).elim (hh.array _ v) (hh.array _ v)
  · exact .fail hpos _

/-- Arithmetic makes no error and fails at the position of the operator. -/
theorem upholds_arithmetic (op : BinaryOp) (f : Float → Float → Float) (a b : Value)
    (hpos : o.Node c.file pos) :
  Upholds (σ := σ) o c Value.Clean (arithmetic pos op f a b)
  := by
  unfold arithmetic
  split
  · exact .pure trivial
  · exact .fail hpos _

/-- Division makes no error and fails at the position of the operator, also when it is by zero. -/
theorem upholds_division (op : BinaryOp) (f : Float → Float → Float) (a b : Value)
    (hpos : o.Node c.file pos) :
  Upholds (σ := σ) o c Value.Clean (division pos op f a b)
  := by
  unfold division
  split
  · split
    · exact .fail hpos _
    · exact .pure trivial
  · exact .fail hpos _

/-- Ordering values makes no error and fails at the position of the operator. -/
theorem upholds_ordered (op : BinaryOp) (numbers : Float → Float → Bool)
    (strings : String → String → Bool) (a b : Value) (hpos : o.Node c.file pos) :
  Upholds (σ := σ) o c Value.Clean (ordered pos op numbers strings a b)
  := by
  unfold ordered
  split
  · exact .pure trivial
  · exact .pure trivial
  · exact .fail hpos _

/-- Looking for a member makes no error and fails at the position of the operator. -/
theorem upholds_member (a b : Value) (hpos : o.Node c.file pos) :
  Upholds (σ := σ) o c Value.Clean (member pos a b)
  := by
  have hanswer (ask : Heap → Option Bool) :
      Upholds (σ := σ) o c Value.Clean (do return .bool (← answer ask)) :=
    (Upholds.answer fun _ _ _ _ => trivial).bind fun _ (_ : True) => .pure trivial
  unfold member
  split
  · exact hanswer _
  · exact hanswer _
  · exact .pure trivial
  · exact .fail hpos _

/-- Every binary operator makes no error and fails at its position. -/
theorem upholds_operate (op : BinaryOp) (a b : Value) (hpos : o.Node c.file pos) :
  Upholds (σ := σ) o c Value.Clean (operate pos op a b)
  := by
  have hsame : Upholds (σ := σ) o c (fun _ => True) (same a b) := .answer fun _ _ _ _ => trivial
  cases op
  case equal | notEqual => exact hsame.bind fun _ _ => .pure trivial
  case add => exact upholds_add a b hpos
  case sub | mul => exact upholds_arithmetic _ _ a b hpos
  case div | mod => exact upholds_division _ _ a b hpos
  case less | lessEqual | greater | greaterEqual => exact upholds_ordered _ _ _ a b hpos
  case isIn => exact upholds_member a b hpos
  case and | or => exact .fail hpos _

/-! ### Native functions -/

section

variable (terminal : Terminal σ) (text : String) {args : List Value}

/-- Writing out makes an error without a position if the stream fails. -/
theorem upholds_writeOut :
  Upholds o c (Value.IfError Fault.Bare) (writeOut terminal text)
  := by
  refine (Upholds.exchange _).bind fun answer _ => ?_
  split
  · exact .pure trivial
  · exact .pure (.bare _)

/-- Writing to the stream of errors makes an error without a position if the stream fails. -/
theorem upholds_writeErr :
  Upholds o c (Value.IfError Fault.Bare) (writeErr terminal text)
  := by
  refine (Upholds.exchange _).bind fun answer _ => ?_
  split
  · exact .pure trivial
  · exact .pure (.bare _)

/-- Reading a line makes an error without a position if the stream fails. -/
theorem upholds_readLine :
  Upholds o c (Value.IfError Fault.Bare) (readLine terminal)
  := by
  refine (Upholds.exchange _).bind fun answer _ => ?_
  split
  · exact .pure trivial
  · exact .pure trivial
  · exact .pure (.bare _)

/-- The text of some values can be made, and nothing is changed. -/
theorem upholds_joined (values : List Value) :
  Upholds (σ := σ) o c (fun _ => True) (joined values)
  := .heap fun _ _ => .pure trivial

/-- A prompt and a line behind it make an error without a position if a stream fails. -/
theorem upholds_promptLine (args : List Value) :
  Upholds o c (Value.IfError Fault.Bare) (promptLine terminal args)
  := by
  unfold promptLine
  split
  · exact upholds_readLine terminal
  · apply (upholds_joined _).bind
    intro text _
    apply (upholds_writeOut terminal text).bind
    intro v hv
    split
    · exact .pure hv
    · exact upholds_readLine terminal

/-- A length is no error; other arguments make one without a position. -/
theorem upholds_length (args : List Value) :
  Upholds (σ := σ) o c (Value.IfError Fault.Bare) (length args)
  := by
  unfold length
  split
  · exact .heap fun _ _ => .pure trivial
  · exact .heap fun _ _ => .pure trivial
  · exact .pure trivial
  · exact .pure (.bare _)

/-- Pushing what is no error keeps arrays free of errors. -/
theorem upholds_push (hargs : ∀ v ∈ args, v.Clean) :
  Upholds (σ := σ) o c (Value.IfError Fault.Bare) (push args)
  := by
  unfold push
  split
  · refine (Upholds.modifyHeap fun h hh => hh.modifyArray _ fun es hes v hv => ?_).bind
      fun _ _ => .pure trivial
    rcases Array.mem_append.mp hv with hv | hv
    · exact hes v hv
    · exact hargs v (List.mem_cons_of_mem _ (List.mem_toArray.mp hv))
  · exact .pure (.bare _)

/-- Putting in front what is no error keeps arrays free of errors. -/
theorem upholds_unshift (hargs : ∀ v ∈ args, v.Clean) :
  Upholds (σ := σ) o c (Value.IfError Fault.Bare) (unshift args)
  := by
  unfold unshift
  split
  · refine (Upholds.modifyHeap fun h hh => hh.modifyArray _ fun es hes v hv => ?_).bind
      fun _ _ => .pure trivial
    rcases Array.mem_append.mp hv with hv | hv
    · exact hargs v (List.mem_cons_of_mem _ (List.mem_toArray.mp hv))
    · exact hes v hv
  · exact .pure (.bare _)

/-- What is taken from the end of an array is no error. -/
theorem upholds_pop (args : List Value) :
  Upholds (σ := σ) o c (Value.IfError Fault.Bare) (pop args)
  := by
  unfold pop
  split
  · refine .heap fun h hh => ?_
    refine (Upholds.modifyHeap fun _ hh' => hh'.modifyArray _ fun es hes v hv => ?_).bind
      fun _ _ => .pure ?_
    · exact hes v (mem_of_mem_pop hv)
    · exact (Value.clean_getD fun v hv => hh.array _ v (Array.mem_of_back? hv)).ifError
  · exact .pure (.bare _)

/-- What is taken from the front of an array is no error. -/
theorem upholds_shift (args : List Value) :
  Upholds (σ := σ) o c (Value.IfError Fault.Bare) (shift args)
  := by
  unfold shift
  split
  · refine .heap fun h hh => ?_
    refine (Upholds.modifyHeap fun _ hh' => hh'.modifyArray _ fun es hes v hv => ?_).bind
      fun _ _ => .pure ?_
    · exact hes v (mem_of_mem_extract hv)
    · exact (Value.clean_getD fun v hv => hh.array _ v (Array.mem_of_getElem? hv)).ifError
  · exact .pure (.bare _)

/-- A slice has no errors in it. -/
theorem upholds_slice (args : List Value) :
  Upholds (σ := σ) o c (Value.IfError Fault.Bare) (slice args)
  := by
  unfold slice
  split
  · refine .heap fun h hh => ?_
    dsimp only
    split
    · exact .newArray fun v hv => hh.array _ v (mem_of_mem_extract hv)
    · exact .pure (.bare _)
  · dsimp only
    split
    · exact .pure trivial
    · exact .pure (.bare _)
  · exact .pure (.bare _)

/-- Assigning what is no error by name keeps scopes free of errors. -/
theorem upholds_updateName (hargs : ∀ v ∈ args, v.Clean) (scope : Scope) :
  Upholds (σ := σ) o c (Value.IfError Fault.Bare) (updateName args scope)
  := by
  unfold updateName
  split
  · have hvalue := hargs _ (List.mem_cons_of_mem _ List.mem_cons_self)
    apply (upholds_assign _ hvalue scope).bind
    intro found _
    split
    · exact .pure hvalue.ifError
    · exact .pure (.bare _)
  · exact .pure (.bare _)

/-- The arguments of the innermost call of a function are no errors if those of no call are. -/
theorem clean_argumentsOf {frames : List Frame}
    (hframes : ∀ frame ∈ frames, ∀ v ∈ frame.args, v.Clean) (name : Option String) :
  ∀ v ∈ (argumentsOf frames name).toArray, v.Clean
  := by
  intro v hv
  rw [List.mem_toArray] at hv
  unfold argumentsOf at hv
  split at hv
  · exact hframes _ (List.mem_of_find?_eq_some ‹_›) v hv
  · cases hv

/-- The arguments of a running call are handed out in an array without errors. -/
theorem upholds_arguments (args : List Value) :
  Upholds (σ := σ) o c (Value.IfError Fault.Bare) (arguments args)
  := by
  refine Upholds.get fun m hm _ => ?_
  have hframes := clean_argumentsOf hm.frames
  split
  · exact .newArray (hframes _)
  · exact .newArray (hframes _)
  · exact .pure (.bare _)

/-- The keys of a hash are handed out in an array without errors. -/
theorem upholds_keys (args : List Value) :
  Upholds (σ := σ) o c (Value.IfError Fault.Bare) (keys args)
  := by
  unfold keys
  split
  · refine .heap fun h hh => .newArray fun v hv => ?_
    obtain ⟨p, hp, rfl⟩ := Array.mem_map.mp hv
    exact (hh.hash _ p hp).1
  · exact .pure (.bare _)

/-- The text of a value is no error. -/
theorem upholds_str (args : List Value) :
  Upholds (σ := σ) o c (Value.IfError Fault.Bare) (str args)
  := by
  unfold str
  split
  · exact .heap fun _ _ => .pure trivial
  · exact .pure (.bare _)

/-- What the host answers is no error, and what it refuses one without a position. -/
theorem upholds_host (setting : Setting σ) (args : List Value) :
  Upholds o c (Value.IfError Fault.Bare) (host setting args)
  := by
  unfold host
  split
  · split
    · refine (Upholds.exchange _).bind fun answer _ => ?_
      split
      · exact .pure trivial
      · exact .pure (.bare _)
    · exact .pure (.bare _)
  · exact .pure (.bare _)

end

end Run

/-! ### Actions -/

namespace Action

variable (o : Origins) (c : Control)

/-- Whether an action is given clean values and a position to report faults at, when a run stands
at `c`. -/
def Fit : Action → Prop
  | lookUp _ _ pos | index pos _ _ | negate pos _ | operate pos _ _ _ => o.Node c.file pos
  | define _ _ v | assign _ v _ => v.Clean
  | enclose _ b => Bindings.Clean b
  | newClosure _ _ body _ => ∀ pos ∈ Stmt.positionsAll body, o.Node c.file pos
  | newArray es => ∀ v ∈ es, v.Clean
  | newHash pairs => pairs.Clean
  | insert pairs key v => pairs.Clean ∧ key.Clean ∧ v.Clean
  | raise pos v => o.Node c.file pos ∧ v.Clean
  | native _ args _ => ∀ v ∈ args, v.Clean
  | valueOf .. | erase .. | closure _ | elements _ | isImported _ | site => True

/-- Whether an action can lead to a result when a run stands at `c`. -/
def Yields : (a : Action) → a.Result → Prop
  | lookUp .., v | valueOf .., v | newClosure .., v | newArray _, v | newHash _, v | index .., v
  | negate .., v | operate .., v | raise .., v => v.Clean
  | native .., v => v.IfError Fault.Bare
  | insert .., pairs => pairs.Clean
  | closure _, f => f.Sound o
  | elements _, es => ∀ v ∈ es, v.Clean
  | isImported key, found => found = decide (key ∈ c.imports)
  | site, pos => pos = c.site
  | define .., _ | assign .., _ | erase .., _ | enclose .., _ => True

variable {o c} (setting : Setting σ)

/-- Every native function that starts no task makes at most errors without a position. -/
theorem upholds_runNative (f : Native) {args : List Value} (hargs : ∀ v ∈ args, v.Clean)
    (scope : Scope) :
  Upholds o c (Value.IfError Fault.Bare) (runNative setting f args scope)
  := by
  cases f
  case update => exact Run.upholds_updateName hargs scope
  case host => exact Run.upholds_host setting args
  case print => exact (Run.upholds_joined args).bind fun _ _ => Run.upholds_writeOut _ _
  case printError => exact (Run.upholds_joined args).bind fun _ _ => Run.upholds_writeErr _ _
  case readLine => exact Run.upholds_promptLine _ args
  case length => exact Run.upholds_length args
  case push => exact Run.upholds_push hargs
  case pop => exact Run.upholds_pop args
  case shift => exact Run.upholds_shift args
  case unshift => exact Run.upholds_unshift hargs
  case slice => exact Run.upholds_slice args
  case arguments => exact Run.upholds_arguments args
  case keys => exact Run.upholds_keys args
  case str => exact Run.upholds_str args
  case newLine => exact .pure trivial
  case importUnit | eval | forEach => exact .pure (.bare _)

/-- Every action keeps machines sound. -/
theorem upholds_run {a : Action} (ha : a.Fit o c) :
  Upholds o c (a.Yields o c) (a.run setting)
  := by
  cases a
  case lookUp name scope pos => exact Run.upholds_lookUp name scope ha
  case valueOf name scope =>
    refine Upholds.get fun m hm _ => .pure (Value.clean_getD fun v hv => ?_)
    exact hm.scopes.get? hv
  case define scope name v => exact .modifyScopes fun _ hs => hs.define scope name ha
  case erase scope name => exact .modifyScopes fun _ hs => hs.erase scope name
  case assign name v scope => exact Run.upholds_assign name ha scope
  case enclose outer b => exact .enclose outer ha
  case newClosure =>
    refine Upholds.get fun m _ hc => .newClosure ?_
    rw [hc]
    exact ha
  case newArray => exact .newArray ha
  case newHash => exact .newHash ha
  case insert pairs key v =>
    exact .answer fun _ _ _ => Heap.clean_insert ha.1 ha.2.1 ha.2.2
  case index => exact Run.upholds_index _ _ ha
  case negate => exact Run.upholds_negate _ ha
  case operate => exact Run.upholds_operate _ _ _ ha
  case raise => exact Run.upholds_raise ha.2 ha.1
  case closure id => exact .heap fun _ hh => .pure (hh.closure id)
  case elements id =>
    exact .heap fun _ hh => .pure fun v hv => hh.array id v (Array.mem_toList_iff.mp hv)
  case isImported key =>
    refine Upholds.get fun m _ hc => .pure ?_
    rw [← hc]
    rfl
  case site => exact Upholds.get fun m _ hc => .pure (congrArg Control.site hc)
  case native f args scope => exact upholds_runNative setting f ha scope

end Action

end Scriptlet
