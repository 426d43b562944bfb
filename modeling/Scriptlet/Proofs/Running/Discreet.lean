import Scriptlet.Proofs.Running.Sound
import Scriptlet.Proofs.Running.View

/-!
# Discreet runs

A run is discreet if, given only what is in a closed view, it leaves everything else alone, and
what it makes is in view or new.  Actions are discreet: whatever they reach, they reach through the
values and the scope that they are given.
-/

namespace Scriptlet

variable {σ : Type}

/-! ### Runs in a view -/

/-- Whether the outcome of a run from `m` leaves alone what is out of view, and whether what it
makes fulfils `P` in the view that there is afterwards. -/
def Outcome.Discreet (V : View) (m : Machine σ) {α : Type} (P : View → α → Prop) (r : Outcome σ α) :
    Prop :=
  ∃ V', V.Isolates m V' r.machine ∧ r.Follows (fun a _ => P V' a) fun u _ => u.Seen V'

/-- Whether a run is discreet on every machine in which the view is closed. -/
def Discreet (V : View) {α : Type} (P : View → α → Prop) (r : RunOn σ α) : Prop :=
  ∀ m : Machine σ, V.Closed m → Outcome.Discreet V m P (r m)

/-- What follows a discreet outcome may see what has come into view by then. -/
theorem Outcome.Discreet.andThen {V : View} {m : Machine σ} {α β : Type} {P : View → α → Prop}
    {Q : View → β → Prop} {r : Outcome σ α} {next : α → Machine σ → Outcome σ β}
    (hr : r.Discreet V m P)
    (hnext : ∀ V' a m', V.Widens V' → V'.Closed m' → P V' a → (next a m').Discreet V' m' Q) :
  Outcome.Discreet V m Q (r.andThen next)
  := by
  obtain ⟨V', hV', hresult⟩ := hr
  cases r with
  | ok a m' =>
      obtain ⟨V'', hV'', hresult'⟩ := hnext V' a m' hV'.widens hV'.closed hresult
      exact ⟨V'', hV'.trans hV'', hresult'⟩
  | error u m' => exact ⟨V', hV', hresult⟩

namespace Discreet

variable {V : View} {α β : Type} {P : View → α → Prop} {Q : View → β → Prop}

/-- What fulfils `P` may be made without doing anything. -/
theorem pure {a : α} (ha : P V a) :
  Discreet (σ := σ) V P (Pure.pure a)
  := fun _ hm => ⟨V, .refl hm, ha⟩

/-- A run may fail, as faults lead to nothing. -/
theorem fail (cause : Cause) (pos : Position) :
  Discreet (σ := σ) V P (Run.fail cause pos)
  := fun _ hm => ⟨V, .refl hm, trivial⟩

/-- Discreet runs can be put one after the other, where the second sees what the first has made. -/
theorem bind {r : RunOn σ β} {f : β → RunOn σ α} (hr : Discreet V Q r)
    (hf : ∀ V', V.Widens V' → ∀ b, Q V' b → Discreet V' P (f b)) :
  Discreet V P (r >>= f)
  := by
  intro m hm
  rw [Outcome.bind_apply]
  exact (hr m hm).andThen fun V' b m' hV hm' hb => hf V' hV b hb m' hm'

/-- A run that begins by looking at the machine. -/
theorem get {f : Machine σ → RunOn σ α} (hf : ∀ m, V.Closed m → Discreet V P (f m)) :
  Discreet V P (MonadState.get >>= f)
  := fun m hm => hf m hm m hm

/-- A run that begins by looking at the heap. -/
theorem heap {f : Heap → RunOn σ α}
    (hf : ∀ m : Machine σ, V.Closed m → Discreet V P (f m.heap)) :
  Discreet V P (Run.heap >>= f)
  := get (f := fun m => f m.heap) hf

/-- An array in view may be changed if only what is in view gets into it. -/
theorem modifyArray {id : Nat} (hid : V.array id) {f : Array Value → Array Value}
    (hf : ∀ es : Array Value, (∀ v ∈ es, v.Seen V) → ∀ v ∈ f es, v.Seen V) :
  Discreet (σ := σ) V (fun _ _ => True) (Run.modifyHeap (·.modifyArray id f))
  := fun _ hm => ⟨V, View.isolates_modifyArray hm hid hf, trivial⟩

/-- Nothing that is asked of the streams leads to anything on the machine. -/
theorem exchange (request : σ → α × σ) :
  Discreet V (fun _ _ => True) (Run.exchange request)
  := fun _ hm => ⟨V, (View.Isolates.refl hm).of_eq rfl rfl hm.frames, trivial⟩

/-- A name may be declared in a scope in view as something in view. -/
theorem define {scope : Scope} (hscope : scope.Seen V) (name : String) {v : Value}
    (hv : v.Seen V) :
  Discreet (σ := σ) V (fun _ _ => True) (Run.modifyScopes (·.define scope name v))
  := fun _ hm => ⟨V, View.isolates_define hm hscope name hv, trivial⟩

/-- Something in view may be assigned in a scope in view. -/
theorem update {scope : Scope} (hscope : scope.Seen V) (name : String) {v : Value}
    (hv : v.Seen V) :
  Discreet (σ := σ) V (fun _ _ => True) (Run.modifyScopes (·.update scope name v))
  := fun _ hm => ⟨V, View.isolates_update hm hscope name hv, trivial⟩

/-- A name may be taken away in a scope in view. -/
theorem erase {scope : Scope} (hscope : scope.Seen V) (name : String) :
  Discreet (σ := σ) V (fun _ _ => True) (Run.modifyScopes (·.erase scope name))
  := fun _ hm => ⟨V, View.isolates_erase hm hscope name, trivial⟩

/-- A new array with elements in view is in view. -/
theorem newArray {es : Array Value} (hes : ∀ v ∈ es, v.Seen V) :
  Discreet (σ := σ) V Value.Seen (Run.newArray es)
  := fun _ hm => ⟨_, View.isolates_newArray hm hes, .inr rfl⟩

/-- A new hash with entries in view is in view. -/
theorem newHash {pairs : Pairs} (hpairs : pairs.Seen V) :
  Discreet (σ := σ) V Value.Seen (Run.newHash pairs)
  := fun _ hm => ⟨_, View.isolates_newHash hm hpairs, .inr rfl⟩

/-- A new function in a scope in view is in view. -/
theorem newClosure {f : Closure} (hf : f.scope.Seen V) :
  Discreet (σ := σ) V Value.Seen (Run.newClosure f)
  := fun _ hm => ⟨_, View.isolates_newClosure hm hf, .inr rfl⟩

/-- A new scope inside one in view, with bindings to what is in view, is in view. -/
theorem enclose {outer : Scope} (houter : outer.Seen V) {b : Bindings} (hb : b.Seen V) :
  Discreet (σ := σ) V Scope.Seen (Run.enclose outer b)
  := by
  intro m hm
  have hiso := View.isolates_enclose hm outer hb
  exact ⟨_, hiso, List.forall_mem_cons.mpr ⟨.inr rfl, houter.mono hiso.widens⟩⟩

/-- A question about the heap may be asked if its answers are in view where the view is closed. -/
theorem answer {ask : Heap → Option α}
    (hask : ∀ m : Machine σ, V.Closed m → ∀ a, ask m.heap = some a → P V a) :
  Discreet (σ := σ) V P (Run.answer ask)
  := by
  apply heap
  intro m hm
  cases ha : ask m.heap with
  | some a => exact pure (hask m hm a ha)
  | none => exact fun _ hm => ⟨V, .refl hm, trivial⟩

end Discreet

/-! ### Operations -/

namespace Run

variable {V : View}

/-- What a name in a scope in view stands for is in view. -/
theorem discreet_lookUp {scope : Scope} (hscope : scope.Seen V) (name : String) (pos : Position) :
  Discreet (σ := σ) V Value.Seen (lookUp name scope pos)
  := by
  apply Discreet.get
  intro m hm
  split
  · exact .pure (hm.get? hscope ‹_›)
  · split
    · exact .pure trivial
    · exact .fail _ _

/-- Assigning something in view in a scope in view changes nothing out of view. -/
theorem discreet_assign {scope : Scope} (hscope : scope.Seen V) (name : String) {v : Value}
    (hv : v.Seen V) :
  Discreet (σ := σ) V (fun _ _ => True) (assign name v scope)
  := by
  apply Discreet.get
  intro m hm
  split
  · exact (Discreet.update hscope name hv).bind fun _ _ _ _ => .pure trivial
  · exact .pure trivial

/-- Making a place of a number changes nothing. -/
theorem discreet_place (pos : Position) (x : Float) (length : Nat) :
  Discreet (σ := σ) V (fun _ _ => True) (place pos x length)
  := by
  unfold place
  split
  · exact .pure trivial
  · exact .fail _ _

/-- What is found in a hash in view is in view. -/
theorem discreet_find {id : Nat} (hid : V.hash id) (key : Value) :
  Discreet (σ := σ) V (fun V' found => ∀ w ∈ found, Value.Seen V' w)
    (answer fun h => h.find? (h.hash id) key)
  := by
  refine .answer fun m hm found hfound w hw => ?_
  obtain ⟨slot, -, rfl⟩ := Option.map_eq_some_iff.mp hfound
  obtain ⟨n, -, hw⟩ := Option.bind_eq_some_iff.mp hw
  obtain ⟨p, hp, rfl⟩ := Option.map_eq_some_iff.mp hw
  exact (hm.hash hid p (Array.mem_of_getElem? hp)).2

/-- What an index leads to in something in view is in view. -/
theorem discreet_index (pos : Position) {collection : Value} (hcollection : collection.Seen V)
    (i : Value) :
  Discreet (σ := σ) V Value.Seen (index pos collection i)
  := by
  unfold index
  split
  · apply Discreet.heap
    intro m hm
    apply (discreet_place _ _ _).bind
    intro V' hV at? _
    refine .pure (Value.seen_getD fun v hv => ?_)
    obtain ⟨n, -, hn⟩ := Option.bind_eq_some_iff.mp hv
    exact (hm.array hcollection v (Array.mem_of_getElem? hn)).mono hV
  · apply (discreet_place _ _ _).bind
    intro V' _ at? _
    refine .pure (Value.seen_getD fun v hv => ?_)
    obtain ⟨s, -, rfl⟩ := Option.map_eq_some_iff.mp hv
    trivial
  · exact (discreet_find hcollection _).bind fun _ _ _ hv => .pure (Value.seen_getD hv)
  · exact .fail _ _

/-- Negating leads to a number or fails. -/
theorem discreet_negate (pos : Position) (v : Value) :
  Discreet (σ := σ) V Value.Seen (negate pos v)
  := by
  unfold negate
  split
  · exact .pure trivial
  · exact .fail _ _

/-- Throwing fails. -/
theorem discreet_raise (pos : Position) (v : Value) :
  Discreet (σ := σ) V Value.Seen (raise pos v)
  := by
  unfold raise
  split
  · exact fun _ hm => ⟨V, .refl hm, trivial⟩
  · exact .heap fun _ _ => .fail _ _

/-- Adding makes a number, a string or an array whose elements are in view. -/
theorem discreet_add (pos : Position) {a b : Value} (ha : a.Seen V) (hb : b.Seen V) :
  Discreet (σ := σ) V Value.Seen (add pos a b)
  := by
  unfold add
  split
  · exact .pure trivial
  · exact .heap fun _ _ => .pure trivial
  · exact .heap fun _ _ => .pure trivial
  · refine .heap fun m hm => .newArray fun v hv => ?_
    exact (Array.mem_append.mp hv).elim (hm.array ha v) (hm.array hb v)
  · exact .fail _ _

/-- Arithmetic leads to a number or fails. -/
theorem discreet_arithmetic (pos : Position) (op : BinaryOp) (f : Float → Float → Float)
    (a b : Value) :
  Discreet (σ := σ) V Value.Seen (arithmetic pos op f a b)
  := by
  unfold arithmetic
  split
  · exact .pure trivial
  · exact .fail _ _

/-- Division leads to a number or fails. -/
theorem discreet_division (pos : Position) (op : BinaryOp) (f : Float → Float → Float)
    (a b : Value) :
  Discreet (σ := σ) V Value.Seen (division pos op f a b)
  := by
  unfold division
  split
  · split
    · exact .fail _ _
    · exact .pure trivial
  · exact .fail _ _

/-- Ordering values leads to a truth value or fails. -/
theorem discreet_ordered (pos : Position) (op : BinaryOp) (numbers : Float → Float → Bool)
    (strings : String → String → Bool) (a b : Value) :
  Discreet (σ := σ) V Value.Seen (ordered pos op numbers strings a b)
  := by
  unfold ordered
  split
  · exact .pure trivial
  · exact .pure trivial
  · exact .fail _ _

/-- An answer that is a truth value leads to nothing. -/
theorem discreet_truth (ask : Heap → Option Bool) (f : Bool → Bool) :
  Discreet (σ := σ) V Value.Seen (do return .bool (f (← answer ask)))
  := (Discreet.answer fun _ _ _ _ => trivial).bind fun _ _ _ (_ : True) => .pure trivial

/-- Looking for a member leads to a truth value or fails. -/
theorem discreet_member (pos : Position) (a b : Value) :
  Discreet (σ := σ) V Value.Seen (member pos a b)
  := by
  unfold member
  split
  · exact discreet_truth _ id
  · exact discreet_truth _ id
  · exact .pure trivial
  · exact .fail _ _

/-- Every binary operator makes something in view of operands in view. -/
theorem discreet_operate (pos : Position) (op : BinaryOp) {a b : Value} (ha : a.Seen V)
    (hb : b.Seen V) :
  Discreet (σ := σ) V Value.Seen (operate pos op a b)
  := by
  cases op
  case equal => exact discreet_truth _ id
  case notEqual => exact discreet_truth _ not
  case add => exact discreet_add pos ha hb
  case sub | mul => exact discreet_arithmetic _ _ _ _ _
  case div | mod => exact discreet_division _ _ _ _ _
  case less | lessEqual | greater | greaterEqual => exact discreet_ordered _ _ _ _ _ _
  case isIn => exact discreet_member _ _ _
  case and | or => exact .fail _ _

/-- Inserting what is in view among entries in view makes entries in view. -/
theorem discreet_insert {pairs : Pairs} (hpairs : pairs.Seen V) {key value : Value}
    (hkey : key.Seen V) (hvalue : value.Seen V) :
  Discreet (σ := σ) V Pairs.Seen (answer (·.insert? pairs key value))
  := by
  refine .answer fun m hm found hfound => ?_
  obtain ⟨slot, -, rfl⟩ := Option.map_eq_some_iff.mp hfound
  cases slot with
  | none => exact Array.forall_mem_push.mpr ⟨⟨hkey, hvalue⟩, hpairs⟩
  | some i => exact forall_mem_modify hpairs fun _ hp => ⟨hp.1, hvalue⟩

/-! ### Native functions -/

section

variable (terminal : Terminal σ) (text : String) (args : List Value)

/-- Writing out leads to nothing on the machine. -/
theorem discreet_writeOut :
  Discreet V Value.Seen (writeOut terminal text)
  := by
  refine (Discreet.exchange _).bind fun _ _ answer _ => ?_
  split
  · exact .pure trivial
  · exact .pure trivial

/-- Writing to the stream of errors leads to nothing on the machine. -/
theorem discreet_writeErr :
  Discreet V Value.Seen (writeErr terminal text)
  := by
  refine (Discreet.exchange _).bind fun _ _ answer _ => ?_
  split
  · exact .pure trivial
  · exact .pure trivial

/-- The line that is read is a string. -/
theorem discreet_readLine :
  Discreet V Value.Seen (readLine terminal)
  := by
  refine (Discreet.exchange _).bind fun _ _ answer _ => ?_
  split
  · exact .pure trivial
  · exact .pure trivial
  · exact .pure trivial

/-- The text of some values is made without a change. -/
theorem discreet_joined :
  Discreet (σ := σ) V (fun _ _ => True) (joined args)
  := .heap fun _ _ => .pure trivial

/-- The line behind a prompt is a string. -/
theorem discreet_promptLine :
  Discreet V Value.Seen (promptLine terminal args)
  := by
  unfold promptLine
  split
  · exact discreet_readLine terminal
  · refine (discreet_joined _).bind fun _ _ text _ => ?_
    refine (discreet_writeOut terminal text).bind fun _ _ v hv => ?_
    split
    · exact .pure trivial
    · exact discreet_readLine terminal

/-- A length is a number. -/
theorem discreet_length :
  Discreet (σ := σ) V Value.Seen (length args)
  := by
  unfold length
  split
  · exact .heap fun _ _ => .pure trivial
  · exact .heap fun _ _ => .pure trivial
  · exact .pure trivial
  · exact .pure trivial

/-- The text of a value is a string. -/
theorem discreet_str :
  Discreet (σ := σ) V Value.Seen (str args)
  := by
  unfold str
  split
  · exact .heap fun _ _ => .pure trivial
  · exact .pure trivial

/-- What the host answers is a string. -/
theorem discreet_host (setting : Setting σ) :
  Discreet V Value.Seen (host setting args)
  := by
  unfold host
  split
  · split
    · refine (Discreet.exchange _).bind fun _ _ answer _ => ?_
      split
      · exact .pure trivial
      · exact .pure trivial
    · exact .pure trivial
  · exact .pure trivial

/-- The arguments of a call that is running are in view where the view is closed. -/
theorem discreet_arguments :
  Discreet (σ := σ) V Value.Seen (arguments args)
  := by
  refine Discreet.get fun m hm => ?_
  have hframes (name : Option String) :
      ∀ v ∈ (argumentsOf m.control.frames name).toArray, v.Seen V := by
    intro v hv
    rw [List.mem_toArray] at hv
    unfold argumentsOf at hv
    split at hv
    · exact hm.frames _ (List.mem_of_find?_eq_some ‹_›) v hv
    · cases hv
  split
  · exact .newArray (hframes _)
  · exact .newArray (hframes _)
  · exact .pure trivial

end

section

variable {args : List Value} (hargs : ∀ v ∈ args, v.Seen V)

include hargs

/-- Pushing onto an array in view changes nothing out of view. -/
theorem discreet_push :
  Discreet (σ := σ) V Value.Seen (push args)
  := by
  unfold push
  split
  · obtain ⟨hid, hrest⟩ := List.forall_mem_cons.mp hargs
    refine (Discreet.modifyArray hid fun es hes v hv => ?_).bind fun V' hV _ _ =>
      .pure (hV.array hid)
    rcases Array.mem_append.mp hv with hv | hv
    · exact hes v hv
    · exact hrest v (List.mem_toArray.mp hv)
  · exact .pure trivial

/-- Putting in front of an array in view changes nothing out of view. -/
theorem discreet_unshift :
  Discreet (σ := σ) V Value.Seen (unshift args)
  := by
  unfold unshift
  split
  · obtain ⟨hid, hrest⟩ := List.forall_mem_cons.mp hargs
    refine (Discreet.modifyArray hid fun es hes v hv => ?_).bind fun V' hV _ _ =>
      .pure (hV.array hid)
    rcases Array.mem_append.mp hv with hv | hv
    · exact hrest v (List.mem_toArray.mp hv)
    · exact hes v hv
  · exact .pure trivial

/-- What is taken from the end of an array in view is in view. -/
theorem discreet_pop :
  Discreet (σ := σ) V Value.Seen (pop args)
  := by
  unfold pop
  split
  · have hid := hargs _ List.mem_cons_self
    refine .heap fun m hm => ?_
    refine (Discreet.modifyArray hid fun es hes v hv => hes v (mem_of_mem_pop hv)).bind
      fun V' hV _ _ => .pure ?_
    exact (Value.seen_getD fun v hv => hm.array hid v (Array.mem_of_back? hv)).mono hV
  · exact .pure trivial

/-- What is taken from the front of an array in view is in view. -/
theorem discreet_shift :
  Discreet (σ := σ) V Value.Seen (shift args)
  := by
  unfold shift
  split
  · have hid := hargs _ List.mem_cons_self
    refine .heap fun m hm => ?_
    refine (Discreet.modifyArray hid fun es hes v hv => hes v (mem_of_mem_extract hv)).bind
      fun V' hV _ _ => .pure ?_
    exact (Value.seen_getD fun v hv => hm.array hid v (Array.mem_of_getElem? hv)).mono hV
  · exact .pure trivial

/-- A slice of an array in view is in view. -/
theorem discreet_slice :
  Discreet (σ := σ) V Value.Seen (slice args)
  := by
  unfold slice
  split
  · have hid := hargs _ List.mem_cons_self
    refine .heap fun m hm => ?_
    dsimp only
    split
    · exact .newArray fun v hv => hm.array hid v (mem_of_mem_extract hv)
    · exact .pure trivial
  · dsimp only
    split
    · exact .pure trivial
    · exact .pure trivial
  · exact .pure trivial

/-- The keys of a hash in view are in view. -/
theorem discreet_keys :
  Discreet (σ := σ) V Value.Seen (keys args)
  := by
  unfold keys
  split
  · have hid := hargs _ List.mem_cons_self
    refine .heap fun m hm => .newArray fun v hv => ?_
    obtain ⟨p, hp, rfl⟩ := Array.mem_map.mp hv
    exact (hm.hash hid p hp).1
  · exact .pure trivial

/-- Assigning by name in a scope in view changes nothing out of view. -/
theorem discreet_updateName {scope : Scope} (hscope : scope.Seen V) :
  Discreet (σ := σ) V Value.Seen (updateName args scope)
  := by
  unfold updateName
  split
  · have hvalue := hargs _ (List.mem_cons_of_mem _ List.mem_cons_self)
    refine (discreet_assign hscope _ hvalue).bind fun V' hV found _ => ?_
    split
    · exact .pure (hvalue.mono hV)
    · exact .pure trivial
  · exact .pure trivial

end

end Run

/-! ### Actions -/

/-- Whether a native function binds names or runs code in the scope of its caller. -/
def Native.EntersScope : Native → Prop
  | importUnit | update | eval | forEach => True
  | _ => False

/-- Whether a value is such a native function. -/
def Value.EntersScope : Value → Prop
  | native f => f.EntersScope
  | _ => False

namespace Action

/-- Whether an action is given only what is in view. -/
def InView (V : View) : Action → Prop
  | lookUp _ scope _ | valueOf _ scope | erase scope _ | newClosure _ _ _ scope => scope.Seen V
  | define scope _ v | assign _ v scope => scope.Seen V ∧ v.Seen V
  | enclose outer b => outer.Seen V ∧ Bindings.Seen V b
  | newArray es => ∀ v ∈ es, v.Seen V
  | newHash pairs => pairs.Seen V
  | insert pairs key v => pairs.Seen V ∧ key.Seen V ∧ v.Seen V
  | index _ collection _ => collection.Seen V
  | operate _ _ a b => a.Seen V ∧ b.Seen V
  | closure id => V.closure id
  | elements id => V.array id
  | native f args scope => (∀ v ∈ args, v.Seen V) ∧ (f.EntersScope → scope.Seen V)
  | negate .. | raise .. | isImported _ | site => True

/-- Whether what an action leads to is in view. -/
def Shows (V : View) : (a : Action) → a.Result → Prop
  | lookUp .., v | valueOf .., v | newClosure .., v | newArray _, v | newHash _, v | index .., v
  | negate .., v | operate .., v | raise .., v | native .., v => v.Seen V
  | enclose .., scope => Scope.Seen V scope
  | insert .., pairs => pairs.Seen V
  | closure _, f => f.scope.Seen V
  | elements _, es => ∀ v ∈ es, v.Seen V
  | define .., _ | assign .., _ | erase .., _ | isImported _, _ | site, _ => True

variable {V : View} (setting : Setting σ)

/-- Every native function that starts no task is discreet: its arguments are in view, and so is the
scope of its caller if it works on that. -/
theorem discreet_runNative (f : Native) {args : List Value} (hargs : ∀ v ∈ args, v.Seen V)
    {scope : Scope} (hscope : f.EntersScope → scope.Seen V) :
  Discreet V Value.Seen (runNative setting f args scope)
  := by
  cases f
  case update => exact Run.discreet_updateName hargs (hscope trivial)
  case host => exact Run.discreet_host args setting
  case print => exact (Run.discreet_joined args).bind fun _ _ _ _ => Run.discreet_writeOut _ _
  case printError =>
    exact (Run.discreet_joined args).bind fun _ _ _ _ => Run.discreet_writeErr _ _
  case readLine => exact Run.discreet_promptLine _ args
  case length => exact Run.discreet_length args
  case push => exact Run.discreet_push hargs
  case pop => exact Run.discreet_pop hargs
  case shift => exact Run.discreet_shift hargs
  case unshift => exact Run.discreet_unshift hargs
  case slice => exact Run.discreet_slice hargs
  case arguments => exact Run.discreet_arguments args
  case keys => exact Run.discreet_keys hargs
  case str => exact Run.discreet_str args
  case newLine | importUnit | eval | forEach => exact .pure trivial

/-- Every action that is given only what is in view is discreet. -/
theorem discreet_run {a : Action} (ha : a.InView V) :
  Discreet V (fun V' => a.Shows V') (a.run setting)
  := by
  cases a
  case lookUp name scope pos => exact Run.discreet_lookUp ha name pos
  case valueOf name scope =>
    exact Discreet.get fun m hm => .pure (Value.seen_getD fun v hv => hm.get? ha hv)
  case define scope name v => exact .define ha.1 name ha.2
  case erase scope name => exact .erase ha name
  case assign name v scope => exact Run.discreet_assign ha.1 name ha.2
  case enclose outer b => exact .enclose ha.1 ha.2
  case newClosure => exact Discreet.get fun _ _ => .newClosure ha
  case newArray => exact .newArray ha
  case newHash => exact .newHash ha
  case insert => exact Run.discreet_insert ha.1 ha.2.1 ha.2.2
  case index => exact Run.discreet_index _ ha _
  case negate => exact Run.discreet_negate _ _
  case operate => exact Run.discreet_operate _ _ ha.1 ha.2
  case raise => exact Run.discreet_raise _ _
  case closure id => exact .heap fun m hm => .pure (hm.closure ha)
  case elements id =>
    exact .heap fun m hm => .pure fun v hv => hm.array ha v (Array.mem_toList_iff.mp hv)
  case isImported | site => exact Discreet.get fun _ _ => .pure trivial
  case native f args scope => exact discreet_runNative setting f ha.1 ha.2

end Action

end Scriptlet
