import Scriptlet.Proofs.Running.Plan

/-!
# Properties of operations

A property of runs that holds of the smallest steps and of runs one after the other holds of every
operation and of every native function that binds no names.  Each of these is gone through once
here, for any such property.

The property may be one of two runs, which do the same on different streams.  One that is of a
single run takes no notice of the second.
-/

namespace Scriptlet

variable {σ σ' : Type}

/-- The machine with `k` for the number of its steps. -/
def Machine.atSteps (m : Machine σ) (k : Nat) : Machine σ :=
  { m with control := { m.control with steps := k } }

/-- The machine on other streams. -/
def Machine.on (m : Machine σ) (streams : σ') : Machine σ' :=
  ⟨m.heap, m.scopes, streams, m.control⟩

/-- The setting with something else to ask of the streams. -/
def Setting.on (setting : Setting σ) (terminal : Terminal σ') : Setting σ' :=
  ⟨setting.options, terminal, setting.disk⟩

namespace Machine

variable (m : Machine σ) (streams : σ')

theorem heap_on :
  (m.on streams).heap = m.heap
  := rfl

theorem scopes_on :
  (m.on streams).scopes = m.scopes
  := rfl

theorem control_on :
  (m.on streams).control = m.control
  := rfl

end Machine

/-- The options are the same with another terminal. -/
theorem Setting.options_on (setting : Setting σ) (terminal : Terminal σ') :
  (setting.on terminal).options = setting.options
  := rfl

/-- What may be asked of streams, and the same of others: a line, to write a text, and, if the
options allow it, what the host answers. -/
inductive Setting.Asks (setting : Setting σ) (terminal : Terminal σ') :
    {α : Type} → (σ → α × σ) → (σ' → α × σ') → Prop where
  | readLine : setting.Asks terminal setting.terminal.readLine terminal.readLine
  | writeOut (text : String) :
    setting.Asks terminal (setting.terminal.writeOut text) (terminal.writeOut text)
  | writeErr (text : String) :
    setting.Asks terminal (setting.terminal.writeErr text) (terminal.writeErr text)
  | evalHost (code : String) : setting.options.allowHost = true →
    setting.Asks terminal (setting.terminal.evalHost code) (terminal.evalHost code)

/-- Whether a property of two runs holds of what operations are made of: looking at the machine but
neither at its streams nor at its steps, changing the heap, asking something of the streams, asking
a question about the heap that has no answer only if a comparison has none, and stopping with a
fault. -/
structure Compositional (setting : Setting σ) (terminal : Terminal σ')
    (Φ : {α : Type} → RunOn σ α → RunOn σ' α → Prop) : Prop where
  pure {α : Type} (a : α) : Φ (Pure.pure a) (Pure.pure a)
  stop {α : Type} (f : Fault) : Φ (throw (.fault f) : RunOn σ α) (throw (.fault f))
  bind {α β : Type} {r : RunOn σ α} {r' : RunOn σ' α} {f : α → RunOn σ β} {f' : α → RunOn σ' β} :
    Φ r r' → (∀ a, Φ (f a) (f' a)) → Φ (r >>= f) (r' >>= f')
  get {α : Type} {f : Machine σ → RunOn σ α} {f' : Machine σ' → RunOn σ' α} :
    (∀ m streams, Φ (f m) (f' (m.on streams))) → (∀ m k, f (m.atSteps k) = f m) →
    Φ (MonadState.get >>= f) (MonadState.get >>= f')
  modifyArray (id : Nat) (f : Array Value → Array Value) :
    Φ (Run.modifyHeap (·.modifyArray id f)) (Run.modifyHeap (·.modifyArray id f))
  exchange {α : Type} {request : σ → α × σ} {request' : σ' → α × σ'} :
    setting.Asks terminal request request' → Φ (Run.exchange request) (Run.exchange request')
  newArray (es : Array Value) : Φ (Run.newArray es) (Run.newArray es)
  newHash (pairs : Pairs) : Φ (Run.newHash pairs) (Run.newHash pairs)
  newClosure (c : Closure) : Φ (Run.newClosure c) (Run.newClosure c)
  answer {α : Type} {ask : Heap → Option α} :
    (∀ h, ask h = none → ∃ a b, h.equal? a b = none) → Φ (Run.answer ask) (Run.answer ask)

/-! ### Questions without an answer -/

section Unanswered

variable {h : Heap}

/-- An answer is missing in a search only if one of its questions has none. -/
theorem exists_of_someWith_eq_none {α : Type} {p : α → Option Bool} {l : List α}
    (hl : someWith p l = none) :
  ∃ x, p x = none
  := by
  induction l with
  | nil => cases hl
  | cons x l ih =>
      simp only [someWith] at hl
      split at hl
      · exact ⟨x, ‹_›⟩
      · cases hl
      · exact ih hl

/-- Looking for a slot stops only at a question that has no answer. -/
theorem exists_of_slotWith_eq_none {p : Value → Option Bool} {pairs : Pairs}
    (hp : slotWith p pairs = none) :
  ∃ x, p x = none
  := by
  unfold slotWith at hp
  generalize pairs.toList = l, 0 = i at hp
  induction l generalizing i with
  | nil => cases hp
  | cons x l ih =>
      simp only [slotWith.go] at hp
      split at hp
      · exact ⟨x.1, ‹_›⟩
      · cases hp
      · exact ih _ hp

/-- Looking for the slot of a key stops only at a comparison that has no answer. -/
theorem Heap.exists_of_slot?_eq_none {pairs : Pairs} {key : Value}
    (hp : h.slot? pairs key = none) :
  ∃ a b, h.equal? a b = none
  := by
  obtain ⟨x, hx⟩ := exists_of_slotWith_eq_none hp
  exact ⟨x, key, hx⟩

end Unanswered

namespace Compositional

variable {setting : Setting σ} {terminal : Terminal σ'}
  {Φ : {α : Type} → RunOn σ α → RunOn σ' α → Prop} (hΦ : Compositional setting terminal Φ)

include hΦ

/-- Runs that fail with the same cause at the same position are related. -/
theorem fail {α : Type} (cause : Cause) (pos : Position) :
  Φ (Run.fail cause pos : RunOn σ α) (Run.fail cause pos)
  := hΦ.stop _

/-- A run that begins by looking at the heap. -/
theorem heap {α : Type} {f : Heap → RunOn σ α} {f' : Heap → RunOn σ' α}
    (hf : ∀ h, Φ (f h) (f' h)) :
  Φ (Run.heap >>= f) (Run.heap >>= f')
  := hΦ.get (f := fun m => f m.heap) (fun m _ => hf m.heap) fun _ _ => rfl

/-- A run that begins by looking where it stands. -/
theorem control {α : Type} {f : Control → RunOn σ α} {f' : Control → RunOn σ' α}
    (hf : ∀ c, Φ (f c) (f' c)) (hk : ∀ c k, f { c with steps := k } = f c) :
  Φ (Run.control >>= f) (Run.control >>= f')
  := hΦ.get (f := fun m => f m.control) (fun m _ => hf m.control) fun m k => hk m.control k

/-! ### Comparisons -/

/-- Inserting an entry asks whether keys are equal. -/
theorem insert (pairs : Pairs) (key value : Value) :
  Φ (Run.answer (·.insert? pairs key value)) (Run.answer (·.insert? pairs key value))
  := hΦ.answer fun _ hask => Heap.exists_of_slot?_eq_none (Option.map_eq_none_iff.mp hask)

/-- Looking for the value of a key asks whether keys are equal. -/
theorem find (id : Nat) (key : Value) :
  Φ (Run.answer fun h => h.find? (h.hash id) key) (Run.answer fun h => h.find? (h.hash id) key)
  := hΦ.answer fun _ hask => Heap.exists_of_slot?_eq_none (Option.map_eq_none_iff.mp hask)

/-- Looking for a key asks whether keys are equal. -/
theorem contains (id : Nat) (key : Value) :
  Φ (Run.answer fun h => h.contains? (h.hash id) key)
    (Run.answer fun h => h.contains? (h.hash id) key)
  := hΦ.answer fun _ hask => Heap.exists_of_slot?_eq_none (Option.map_eq_none_iff.mp hask)

/-- Comparing two values is a question about the heap. -/
theorem same (a b : Value) :
  Φ (Run.same a b) (Run.same a b)
  := hΦ.answer fun _ hask => ⟨a, b, hask⟩

/-- Looking for an element asks whether elements are equal to it, one after the other. -/
theorem some (id : Nat) (a : Value) :
  Φ (Run.answer fun h => someWith (fun x => h.equal? x a) (h.array id).toList)
    (Run.answer fun h => someWith (fun x => h.equal? x a) (h.array id).toList)
  := by
  apply hΦ.answer
  intro h hask
  obtain ⟨x, hx⟩ := exists_of_someWith_eq_none hask
  exact ⟨x, a, hx⟩

/-! ### Operators -/

/-- Looking up a name reads the scopes, and fails if it is not there. -/
theorem lookUp (name : String) (scope : Scope) (pos : Position) :
  Φ (Run.lookUp name scope pos) (Run.lookUp name scope pos)
  := by
  apply hΦ.get
  · intro m streams
    rw [Machine.scopes_on]
    split
    · exact hΦ.pure _
    · split
      · exact hΦ.pure _
      · exact hΦ.fail _ _
  · intro m k
    rfl

/-- Making a place of a number fails if it is no integer. -/
theorem place (pos : Position) (x : Float) (length : Nat) :
  Φ (Run.place pos x length) (Run.place pos x length)
  := by
  unfold Run.place
  split
  · exact hΦ.pure _
  · exact hΦ.fail _ _

/-- An index makes a place or looks for a key. -/
theorem index (pos : Position) (collection i : Value) :
  Φ (Run.index pos collection i) (Run.index pos collection i)
  := by
  unfold Run.index
  split
  · exact hΦ.heap fun _ => hΦ.bind (hΦ.place ..) fun _ => hΦ.pure _
  · exact hΦ.bind (hΦ.place ..) fun _ => hΦ.pure _
  · exact hΦ.bind (hΦ.find ..) fun _ => hΦ.pure _
  · exact hΦ.fail _ _

/-- Negating a value looks at it alone. -/
theorem negate (pos : Position) (v : Value) :
  Φ (Run.negate pos v) (Run.negate pos v)
  := by
  unfold Run.negate
  split
  · exact hΦ.pure _
  · exact hΦ.fail _ _

/-- Throwing a value asks the heap for its text, unless it is an error. -/
theorem raise (pos : Position) (v : Value) :
  Φ (Run.raise pos v) (Run.raise pos v)
  := by
  unfold Run.raise
  split
  · exact hΦ.stop _
  · exact hΦ.heap fun _ => hΦ.fail _ _

/-- Adding makes a new array at most. -/
theorem add (pos : Position) (a b : Value) :
  Φ (Run.add pos a b) (Run.add pos a b)
  := by
  unfold Run.add
  split
  · exact hΦ.pure _
  · exact hΦ.heap fun _ => hΦ.pure _
  · exact hΦ.heap fun _ => hΦ.pure _
  · exact hΦ.heap fun _ => hΦ.newArray _
  · exact hΦ.fail _ _

/-- Arithmetic looks at its operands alone. -/
theorem arithmetic (pos : Position) (op : BinaryOp) (f : Float → Float → Float) (a b : Value) :
  Φ (Run.arithmetic pos op f a b) (Run.arithmetic pos op f a b)
  := by
  unfold Run.arithmetic
  split
  · exact hΦ.pure _
  · exact hΦ.fail _ _

/-- Division looks at its operands alone. -/
theorem division (pos : Position) (op : BinaryOp) (f : Float → Float → Float) (a b : Value) :
  Φ (Run.division pos op f a b) (Run.division pos op f a b)
  := by
  unfold Run.division
  split
  · split
    · exact hΦ.fail _ _
    · exact hΦ.pure _
  · exact hΦ.fail _ _

/-- Ordering values looks at them alone. -/
theorem ordered (pos : Position) (op : BinaryOp) (numbers : Float → Float → Bool)
    (strings : String → String → Bool) (a b : Value) :
  Φ (Run.ordered pos op numbers strings a b) (Run.ordered pos op numbers strings a b)
  := by
  unfold Run.ordered
  split
  · exact hΦ.pure _
  · exact hΦ.pure _
  · exact hΦ.fail _ _

/-- Looking for a member asks whether values are equal. -/
theorem member (pos : Position) (a b : Value) :
  Φ (Run.member pos a b) (Run.member pos a b)
  := by
  unfold Run.member
  split
  · exact hΦ.bind (hΦ.some ..) fun _ => hΦ.pure _
  · exact hΦ.bind (hΦ.contains ..) fun _ => hΦ.pure _
  · exact hΦ.pure _
  · exact hΦ.fail _ _

/-- Every binary operator is made of the steps of some relation. -/
theorem operate (pos : Position) (op : BinaryOp) (a b : Value) :
  Φ (Run.operate pos op a b) (Run.operate pos op a b)
  := by
  unfold Run.operate
  cases op
  case equal | notEqual => exact hΦ.bind (hΦ.same a b) fun _ => hΦ.pure _
  case add => exact hΦ.add ..
  case sub | mul => exact hΦ.arithmetic ..
  case div | mod => exact hΦ.division ..
  case less | lessEqual | greater | greaterEqual => exact hΦ.ordered ..
  case isIn => exact hΦ.member ..
  case and | or => exact hΦ.fail _ _

/-! ### Native functions -/

/-- Writing out asks the stream for it, and makes an error of its refusal. -/
theorem writeOut (text : String) :
  Φ (Run.writeOut setting.terminal text) (Run.writeOut terminal text)
  := by
  refine hΦ.bind (hΦ.exchange (.writeOut text)) fun answer => ?_
  split
  · exact hΦ.pure _
  · exact hΦ.pure _

/-- Writing to the stream of errors asks for it, and makes an error of its refusal. -/
theorem writeErr (text : String) :
  Φ (Run.writeErr setting.terminal text) (Run.writeErr terminal text)
  := by
  refine hΦ.bind (hΦ.exchange (.writeErr text)) fun answer => ?_
  split
  · exact hΦ.pure _
  · exact hΦ.pure _

/-- Reading a line asks the stream for it, and makes an error of its refusal. -/
theorem readLine :
  Φ (Run.readLine setting.terminal) (Run.readLine terminal)
  := by
  refine hΦ.bind (hΦ.exchange .readLine) fun answer => ?_
  split
  · exact hΦ.pure _
  · exact hΦ.pure _
  · exact hΦ.pure _

/-- The text of some values is a question about the heap. -/
theorem joined (values : List Value) :
  Φ (Run.joined values) (Run.joined values)
  := hΦ.heap fun _ => hΦ.pure _

/-- A prompt is written and a line is read. -/
theorem promptLine (args : List Value) :
  Φ (Run.promptLine setting.terminal args) (Run.promptLine terminal args)
  := by
  unfold Run.promptLine
  split
  · exact hΦ.readLine
  · apply hΦ.bind (hΦ.joined _)
    intro text
    apply hΦ.bind (hΦ.writeOut text)
    intro v
    split
    · exact hΦ.pure _
    · exact hΦ.readLine

/-- The arguments of a call that is running are read and put into a new array. -/
theorem arguments (args : List Value) :
  Φ (Run.arguments args) (Run.arguments args)
  := by
  apply hΦ.control
  · intro c
    split
    · exact hΦ.newArray _
    · exact hΦ.newArray _
    · exact hΦ.pure _
  · intro c k
    rfl

/-- A slice is read and put into a new array. -/
theorem slice (args : List Value) :
  Φ (Run.slice args) (Run.slice args)
  := by
  unfold Run.slice
  split
  · apply hΦ.heap
    intro h
    dsimp only
    split
    · exact hΦ.newArray _
    · exact hΦ.pure _
  · dsimp only
    split
    · exact hΦ.pure _
    · exact hΦ.pure _
  · exact hΦ.pure _

/-- The host is asked if the options allow it; the refusal does not depend on what is asked of the
streams. -/
theorem host (args : List Value) :
  Φ (Run.host setting args) (Run.host (setting.on terminal) args)
  := by
  unfold Run.host
  rw [Setting.options_on]
  split
  · split
    · rename_i hallowed
      refine hΦ.bind (hΦ.exchange (.evalHost _ hallowed)) fun answer => ?_
      split
      · exact hΦ.pure _
      · exact hΦ.pure _
    · exact hΦ.pure _
  · exact hΦ.pure _

/-- Pushing changes an array of the heap. -/
theorem push (args : List Value) :
  Φ (Run.push args) (Run.push args)
  := by
  unfold Run.push
  split
  · exact hΦ.bind (hΦ.modifyArray _ _) fun _ => hΦ.pure _
  · exact hΦ.pure _

/-- Putting in front changes an array of the heap. -/
theorem unshift (args : List Value) :
  Φ (Run.unshift args) (Run.unshift args)
  := by
  unfold Run.unshift
  split
  · exact hΦ.bind (hΦ.modifyArray _ _) fun _ => hΦ.pure _
  · exact hΦ.pure _

/-- Taking from the end reads and changes an array of the heap. -/
theorem pop (args : List Value) :
  Φ (Run.pop args) (Run.pop args)
  := by
  unfold Run.pop
  split
  · exact hΦ.heap fun _ => hΦ.bind (hΦ.modifyArray _ _) fun _ => hΦ.pure _
  · exact hΦ.pure _

/-- Taking from the front reads and changes an array of the heap. -/
theorem shift (args : List Value) :
  Φ (Run.shift args) (Run.shift args)
  := by
  unfold Run.shift
  split
  · exact hΦ.heap fun _ => hΦ.bind (hΦ.modifyArray _ _) fun _ => hΦ.pure _
  · exact hΦ.pure _

/-- A length is read from the heap. -/
theorem length (args : List Value) :
  Φ (Run.length args) (Run.length args)
  := by
  unfold Run.length
  split
  · exact hΦ.heap fun _ => hΦ.pure _
  · exact hΦ.heap fun _ => hΦ.pure _
  · exact hΦ.pure _
  · exact hΦ.pure _

/-- The keys of a hash are read and put into a new array. -/
theorem keys (args : List Value) :
  Φ (Run.keys args) (Run.keys args)
  := by
  unfold Run.keys
  split
  · exact hΦ.heap fun _ => hΦ.newArray _
  · exact hΦ.pure _

/-- The text of a value is a question about the heap. -/
theorem str (args : List Value) :
  Φ (Run.str args) (Run.str args)
  := by
  unfold Run.str
  split
  · exact hΦ.heap fun _ => hΦ.pure _
  · exact hΦ.pure _

/-! ### Actions -/

/-- All native functions that start no task, but the one that assigns, are made of such steps. -/
theorem runNative {f : Native} (hf : f ≠ .update) (args : List Value)
    (scope : Scope) :
  Φ (Action.runNative setting f args scope) (Action.runNative (setting.on terminal) f args scope)
  := by
  cases f
  case update => exact absurd rfl hf
  case host => exact hΦ.host args
  case print => exact hΦ.bind (hΦ.joined args) fun _ => hΦ.writeOut ..
  case printError => exact hΦ.bind (hΦ.joined args) fun _ => hΦ.writeErr ..
  case readLine => exact hΦ.promptLine args
  case length => exact hΦ.length args
  case push => exact hΦ.push args
  case pop => exact hΦ.pop args
  case shift => exact hΦ.shift args
  case unshift => exact hΦ.unshift args
  case slice => exact hΦ.slice args
  case arguments => exact hΦ.arguments args
  case keys => exact hΦ.keys args
  case str => exact hΦ.str args
  case newLine | importUnit | eval | forEach => exact hΦ.pure _

/-- An existing name is bound, or else nothing is done. -/
theorem updateName
    (hassign : ∀ name v scope, Φ (Run.assign name v scope) (Run.assign name v scope))
    (args : List Value) (scope : Scope) :
  Φ (Run.updateName args scope) (Run.updateName args scope)
  := by
  unfold Run.updateName
  split
  · refine hΦ.bind (hassign _ _ _) fun found => ?_
    split
    · exact hΦ.pure _
    · exact hΦ.pure _
  · exact hΦ.pure _

/-- A property that holds of what operations are made of holds of all actions if it does of those
that bind names or take them away. -/
theorem action (a : Action)
    (hdefine : ∀ scope name v, a = .define scope name v →
      Φ (Run.modifyScopes (·.define scope name v)) (Run.modifyScopes (·.define scope name v)))
    (hassign : ∀ name v scope, Φ (Run.assign name v scope) (Run.assign name v scope))
    (herase : ∀ scope name, a = .erase scope name →
      Φ (Run.modifyScopes (·.erase scope name)) (Run.modifyScopes (·.erase scope name)))
    (henclose : ∀ outer b, a = .enclose outer b → Φ (Run.enclose outer b) (Run.enclose outer b)) :
  Φ (a.run setting) (a.run (setting.on terminal))
  := by
  cases a
  case lookUp name scope pos => exact hΦ.lookUp name scope pos
  case valueOf name scope => exact hΦ.get (fun _ _ => hΦ.pure _) fun _ _ => rfl
  case define scope name v => exact hdefine scope name v rfl
  case erase scope name => exact herase scope name rfl
  case assign name v scope => exact hassign name v scope
  case enclose outer b => exact henclose outer b rfl
  case newClosure => exact hΦ.control (fun _ => hΦ.newClosure _) fun _ _ => rfl
  case newArray => exact hΦ.newArray _
  case newHash => exact hΦ.newHash _
  case insert => exact hΦ.insert _ _ _
  case index => exact hΦ.index _ _ _
  case negate => exact hΦ.negate _ _
  case operate => exact hΦ.operate _ _ _ _
  case raise => exact hΦ.raise _ _
  case closure | elements => exact hΦ.heap fun _ => hΦ.pure _
  case isImported | site => exact hΦ.control (fun _ => hΦ.pure _) fun _ _ => rfl
  case native f args scope =>
    by_cases hf : f = .update
    · subst hf
      exact hΦ.updateName hassign args scope
    · exact hΦ.runNative hf args scope

end Compositional

end Scriptlet
