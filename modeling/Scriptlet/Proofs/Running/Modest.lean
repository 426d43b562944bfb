import Mathlib.Tactic.Common
import Scriptlet.Proofs.Running.Reporting
import Scriptlet.Proofs.Running.Sound

/-!
# Modest runs

The cause that what a decorator is put on declares nothing is reported by the evaluator only.  What
operations do is modest: they make no functions, and they have every fault but that one.
-/

namespace Scriptlet

variable {σ : Type}

/-- Whether a fault has another cause than that what a decorator is put on declares nothing. -/
def Fault.Ordinary (f : Fault) : Prop :=
  f.cause ≠ .undecoratable

/-- Whether a run is not unwound by a fault, or by an ordinary one. -/
def Unwind.Ordinary : Unwind → Prop
  | fault f => f.Ordinary
  | _ => True

/-- Whether an outcome of a run from `m` leaves the functions of `m` and no others, and is something
that fulfils `P` or no fault but an ordinary one. -/
structure Outcome.Modest (m : Machine σ) {α : Type} (P : α → Prop) (r : Outcome σ α) : Prop where
  closures : r.machine.heap.closures = m.heap.closures
  result : r.Follows (fun a _ => P a) fun u _ => u.Ordinary

/-- Whether all outcomes of a run are modest. -/
def Modest {α : Type} (P : α → Prop) (r : RunOn σ α) : Prop :=
  ∀ m, Outcome.Modest m P (r m)

namespace Modest

variable {α β : Type} {P : α → Prop} {Q : β → Prop}

/-- What fulfils `P` may be made without doing anything. -/
theorem pure {a : α} (ha : P a) :
  Modest (σ := σ) P (Pure.pure a)
  := fun _ => ⟨rfl, ha⟩

/-- A run may fail for every cause but that a decorator is put on what declares nothing. -/
theorem fail {cause : Cause} (hcause : cause ≠ .undecoratable) (pos : Position) :
  Modest (σ := σ) P (Run.fail cause pos)
  := fun _ => ⟨rfl, hcause⟩

/-- Modest runs can be put one after the other. -/
theorem bind {r : RunOn σ β} {f : β → RunOn σ α} (hr : Modest Q r)
    (hf : ∀ b, Q b → Modest P (f b)) :
  Modest P (r >>= f)
  := by
  intro m
  obtain ⟨hclosures, hresult⟩ := hr m
  rw [Outcome.bind_apply]
  generalize r m = outcome at hclosures hresult ⊢
  rcases outcome with ⟨b, m'⟩ | ⟨u, m'⟩
  · obtain ⟨hnext, hresult'⟩ := hf b hresult m'
    exact ⟨hnext.trans hclosures, hresult'⟩
  · exact ⟨hclosures, hresult⟩

/-- A run that begins by looking at the machine. -/
theorem get {f : Machine σ → RunOn σ α} (hf : ∀ m, Modest P (f m)) :
  Modest P (MonadState.get >>= f)
  := fun m => hf m m

/-- A run that begins by looking at the heap. -/
theorem heap {f : Heap → RunOn σ α} (hf : ∀ h, Modest P (f h)) :
  Modest P (Run.heap >>= f)
  := fun m => hf m.heap m

/-- Changing an array keeps the functions. -/
theorem modifyArray (id : Nat) (f : Array Value → Array Value) :
  Modest (σ := σ) (fun _ => True) (Run.modifyHeap (·.modifyArray id f))
  := fun _ => ⟨rfl, trivial⟩

/-- Changing the scopes keeps the functions. -/
theorem modifyScopes (f : Scopes → Scopes) :
  Modest (σ := σ) (fun _ => True) (Run.modifyScopes f)
  := fun _ => ⟨rfl, trivial⟩

/-- Asking something of the streams keeps the functions. -/
theorem exchange (request : σ → α × σ) :
  Modest (fun _ => True) (Run.exchange request)
  := fun _ => ⟨rfl, trivial⟩

/-- Making an array keeps the functions, and an array is no error. -/
theorem newArray {R : Fault → Prop} (es : Array Value) :
  Modest (σ := σ) (Value.IfError R) (Run.newArray es)
  := fun _ => ⟨rfl, trivial⟩

/-- Asking a question about the heap keeps the functions. -/
theorem answer (ask : Heap → Option α) :
  Modest (σ := σ) (fun _ => True) (Run.answer ask)
  := by
  apply heap
  intro h
  cases ask h with
  | some a => exact pure trivial
  | none => exact fun _ => ⟨rfl, trivial⟩

end Modest

/-! ### Operators -/

namespace Run

variable {pos : Position}

/-- Looking up a name makes no function and fails for an ordinary cause. -/
theorem modest_lookUp (name : String) (scope : Scope) :
  Modest (σ := σ) (fun _ => True) (lookUp name scope pos)
  := by
  apply Modest.get
  intro m
  split
  · exact .pure trivial
  · split
    · exact .pure trivial
    · exact .fail (by rintro ⟨⟩) _

/-- Assigning makes no function and does not fail. -/
theorem modest_assign (name : String) (v : Value) (scope : Scope) :
  Modest (σ := σ) (fun _ => True) (assign name v scope)
  := by
  apply Modest.get
  intro m
  split
  · exact (Modest.modifyScopes _).bind fun _ _ => .pure trivial
  · exact .pure trivial

/-- Making a place of a number fails for an ordinary cause. -/
theorem modest_place (x : Float) (length : Nat) :
  Modest (σ := σ) (fun _ => True) (place pos x length)
  := by
  unfold place
  split
  · exact .pure trivial
  · exact .fail (by rintro ⟨⟩) _

/-- An index makes no function and fails for an ordinary cause. -/
theorem modest_index (collection i : Value) :
  Modest (σ := σ) (fun _ => True) (index pos collection i)
  := by
  unfold index
  split
  · exact .heap fun _ => (modest_place _ _).bind fun _ _ => .pure trivial
  · exact (modest_place _ _).bind fun _ _ => .pure trivial
  · exact (Modest.answer _).bind fun _ _ => .pure trivial
  · exact .fail (by rintro ⟨⟩) _

/-- Negating makes no function and fails for an ordinary cause. -/
theorem modest_negate (v : Value) :
  Modest (σ := σ) (fun _ => True) (negate pos v)
  := by
  unfold negate
  split
  · exact .pure trivial
  · exact .fail (by rintro ⟨⟩) _

/-- Throwing fails with the cause that the text is thrown, or with that of the error that is
thrown. -/
theorem modest_raise {v : Value} (hv : v.IfError Fault.Ordinary) :
  Modest (σ := σ) (fun _ => True) (raise pos v)
  := by
  unfold raise
  split
  · intro m
    refine ⟨rfl, ?_⟩
    change _ ≠ _
    rw [Fault.cause_located]
    exact hv
  · exact .heap fun _ => .fail (by rintro ⟨⟩) _

/-- Adding makes no function and fails for an ordinary cause. -/
theorem modest_add (a b : Value) :
  Modest (σ := σ) (fun _ => True) (add pos a b)
  := by
  unfold add
  split
  · exact .pure trivial
  · exact .heap fun _ => .pure trivial
  · exact .heap fun _ => .pure trivial
  · exact .heap fun _ _ => ⟨rfl, trivial⟩
  · exact .fail (by rintro ⟨⟩) _

/-- Arithmetic makes no function and fails for an ordinary cause. -/
theorem modest_arithmetic (op : BinaryOp) (f : Float → Float → Float) (a b : Value) :
  Modest (σ := σ) (fun _ => True) (arithmetic pos op f a b)
  := by
  unfold arithmetic
  split
  · exact .pure trivial
  · exact .fail (by rintro ⟨⟩) _

/-- Division makes no function and fails for an ordinary cause. -/
theorem modest_division (op : BinaryOp) (f : Float → Float → Float) (a b : Value) :
  Modest (σ := σ) (fun _ => True) (division pos op f a b)
  := by
  unfold division
  split
  · split
    · exact .fail (by rintro ⟨⟩) _
    · exact .pure trivial
  · exact .fail (by rintro ⟨⟩) _

/-- Ordering values makes no function and fails for an ordinary cause. -/
theorem modest_ordered (op : BinaryOp) (numbers : Float → Float → Bool)
    (strings : String → String → Bool) (a b : Value) :
  Modest (σ := σ) (fun _ => True) (ordered pos op numbers strings a b)
  := by
  unfold ordered
  split
  · exact .pure trivial
  · exact .pure trivial
  · exact .fail (by rintro ⟨⟩) _

/-- Looking for a member makes no function and fails for an ordinary cause. -/
theorem modest_member (a b : Value) :
  Modest (σ := σ) (fun _ => True) (member pos a b)
  := by
  unfold member
  split
  · exact (Modest.answer _).bind fun _ _ => .pure trivial
  · exact (Modest.answer _).bind fun _ _ => .pure trivial
  · exact .pure trivial
  · exact .fail (by rintro ⟨⟩) _

/-- Every binary operator makes no function and fails for an ordinary cause. -/
theorem modest_operate (op : BinaryOp) (a b : Value) :
  Modest (σ := σ) (fun _ => True) (operate pos op a b)
  := by
  cases op
  case equal | notEqual => exact (Modest.answer _).bind fun _ _ => .pure trivial
  case add => exact modest_add a b
  case sub | mul => exact modest_arithmetic _ _ a b
  case div | mod => exact modest_division _ _ a b
  case less | lessEqual | greater | greaterEqual => exact modest_ordered _ _ _ a b
  case isIn => exact modest_member a b
  case and | or => exact .fail (by rintro ⟨⟩) _

/-! ### Native functions -/

section

variable (terminal : Terminal σ) (text : String) (args : List Value)

/-- That arguments do not fit is an ordinary cause. -/
theorem ordinary_invalid :
  Value.invalid.IfError Fault.Ordinary
  := by
  rintro ⟨⟩

/-- Writing out makes at most an error with an ordinary cause. -/
theorem modest_writeOut :
  Modest (Value.IfError Fault.Ordinary) (writeOut terminal text)
  := by
  refine (Modest.exchange _).bind fun answer _ => ?_
  split
  · exact .pure trivial
  · exact .pure (by rintro ⟨⟩)

/-- Writing to the stream of errors makes at most an error with an ordinary cause. -/
theorem modest_writeErr :
  Modest (Value.IfError Fault.Ordinary) (writeErr terminal text)
  := by
  refine (Modest.exchange _).bind fun answer _ => ?_
  split
  · exact .pure trivial
  · exact .pure (by rintro ⟨⟩)

/-- Reading a line makes at most an error with an ordinary cause. -/
theorem modest_readLine :
  Modest (Value.IfError Fault.Ordinary) (readLine terminal)
  := by
  refine (Modest.exchange _).bind fun answer _ => ?_
  split
  · exact .pure trivial
  · exact .pure trivial
  · exact .pure (by rintro ⟨⟩)

/-- The text of some values is made without a change. -/
theorem modest_joined (values : List Value) :
  Modest (σ := σ) (fun _ => True) (joined values)
  := .heap fun _ => .pure trivial

/-- A prompt and a line behind it make at most an error with an ordinary cause. -/
theorem modest_promptLine :
  Modest (Value.IfError Fault.Ordinary) (promptLine terminal args)
  := by
  unfold promptLine
  split
  · exact modest_readLine terminal
  · apply (modest_joined _).bind
    intro text _
    apply (modest_writeOut terminal text).bind
    intro v hv
    split
    · exact .pure hv
    · exact modest_readLine terminal

/-- A length makes at most an error with an ordinary cause. -/
theorem modest_length :
  Modest (σ := σ) (Value.IfError Fault.Ordinary) (length args)
  := by
  unfold length
  split
  · exact .heap fun _ => .pure trivial
  · exact .heap fun _ => .pure trivial
  · exact .pure trivial
  · exact .pure ordinary_invalid

/-- Pushing makes at most an error with an ordinary cause. -/
theorem modest_push :
  Modest (σ := σ) (Value.IfError Fault.Ordinary) (push args)
  := by
  unfold push
  split
  · exact (Modest.modifyArray _ _).bind fun _ _ => .pure trivial
  · exact .pure ordinary_invalid

/-- Putting in front makes at most an error with an ordinary cause. -/
theorem modest_unshift :
  Modest (σ := σ) (Value.IfError Fault.Ordinary) (unshift args)
  := by
  unfold unshift
  split
  · exact (Modest.modifyArray _ _).bind fun _ _ => .pure trivial
  · exact .pure ordinary_invalid

/-- A slice makes at most an error with an ordinary cause. -/
theorem modest_slice :
  Modest (σ := σ) (Value.IfError Fault.Ordinary) (slice args)
  := by
  unfold slice
  split
  · apply Modest.heap
    intro h
    dsimp only
    split
    · exact .newArray _
    · exact .pure ordinary_invalid
  · dsimp only
    split
    · exact .pure trivial
    · exact .pure ordinary_invalid
  · exact .pure ordinary_invalid

/-- Assigning by name makes at most an error with an ordinary cause, and hands on what is no
error. -/
theorem modest_updateName {args : List Value} (hargs : ∀ v ∈ args, v.Clean) (scope : Scope) :
  Modest (σ := σ) (Value.IfError Fault.Ordinary) (updateName args scope)
  := by
  unfold updateName
  split
  · have hvalue := hargs _ (List.mem_cons_of_mem _ List.mem_cons_self)
    apply (modest_assign _ _ scope).bind
    intro found _
    split
    · exact .pure hvalue.ifError
    · exact .pure (by rintro ⟨⟩)
  · exact .pure ordinary_invalid

/-- The arguments of a call make at most an error with an ordinary cause. -/
theorem modest_arguments :
  Modest (σ := σ) (Value.IfError Fault.Ordinary) (arguments args)
  := by
  apply Modest.get
  intro m
  split
  · exact .newArray _
  · exact .newArray _
  · exact .pure ordinary_invalid

/-- The keys of a hash make at most an error with an ordinary cause. -/
theorem modest_keys :
  Modest (σ := σ) (Value.IfError Fault.Ordinary) (keys args)
  := by
  unfold keys
  split
  · exact .heap fun _ => .newArray _
  · exact .pure ordinary_invalid

/-- The text of a value makes at most an error with an ordinary cause. -/
theorem modest_str :
  Modest (σ := σ) (Value.IfError Fault.Ordinary) (str args)
  := by
  unfold str
  split
  · exact .heap fun _ => .pure trivial
  · exact .pure ordinary_invalid

/-- Asking the host makes at most an error with an ordinary cause. -/
theorem modest_host (setting : Setting σ) :
  Modest (Value.IfError Fault.Ordinary) (host setting args)
  := by
  unfold host
  split
  · split
    · refine (Modest.exchange _).bind fun answer _ => ?_
      split
      · exact .pure trivial
      · exact .pure (by rintro ⟨⟩)
    · exact .pure (by rintro ⟨⟩)
  · exact .pure ordinary_invalid

variable {o : Origins} {m : Machine σ}

/-- What is taken out of an array is no error. -/
theorem modest_pop (hm : m.Sound o) :
  Outcome.Modest m (Value.IfError Fault.Ordinary) (pop args m)
  := by
  unfold pop
  split
  · refine ⟨rfl, Value.Clean.ifError (Value.clean_getD fun v hv => ?_)⟩
    exact hm.heap.array _ v (Array.mem_of_back? hv)
  · exact ⟨rfl, ordinary_invalid⟩

/-- On a sound machine what is taken from the front of an array is no error, so at most an error
with an ordinary cause is made. -/
theorem modest_shift (hm : m.Sound o) :
  Outcome.Modest m (Value.IfError Fault.Ordinary) (shift args m)
  := by
  unfold shift
  split
  · refine ⟨rfl, Value.Clean.ifError (Value.clean_getD fun v hv => ?_)⟩
    exact hm.heap.array _ v (Array.mem_of_getElem? hv)
  · exact ⟨rfl, ordinary_invalid⟩

end

end Run

end Scriptlet
