import Scriptlet.Heap.Inspect
import Scriptlet.Proofs.Equality

/-!
# What is shown of a value

Every value is shown, whatever it holds: its text is that of the plain recursive printer, except
that a container inside itself is not shown again (`Heap.Shows`).  A printer that keeps one list of
the containers it has not left yet shows the same (`Heap.walk`): at every value the list is the way
from the root, and no container is on it twice, so that it is never longer than there are
containers.  If nothing is inside itself, then the exception is not met (`Heap.Renders`).
-/

namespace Scriptlet

/-- The container that a value is, if it is one. -/
def Value.container? : Value → Option Container
  | array i => some (.array i)
  | hash i => some (.hash i)
  | _ => none

/-- A container inside itself as it is shown. -/
def Container.again : Container → String
  | array _ => "[...]"
  | hash _ => "\x7b...\x7d"

/-- A value is a container exactly if it is the value of it. -/
theorem Value.container?_eq_some_iff {v : Value} {c : Container} :
  v.container? = some c ↔ v = c.value
  := by
  cases c
  all_goals
    cases v
    all_goals simp [container?, Container.value]

namespace Heap

variable (h : Heap)

/-- A value as it is shown if `text` says how the values that it holds are shown. -/
def layout (text : Value → String) : Value → String
  | .null => "null"
  | .bool b => if b then "true" else "false"
  | .num x => numberText x
  | .str s => quoted s
  | .array i => "[" ++ ", ".intercalate ((h.array i).toList.map text) ++ "]"
  | .hash i =>
    "\x7b" ++ ", ".intercalate ((h.hash i).toList.map fun x => text x.1 ++ ": " ++ text x.2)
      ++ "\x7d"
  | .func i => (h.closure i).text
  | .native f => "<builtin " ++ f.name ++ ">"
  | .error f => "Error: " ++ f.message

/-- `h.Shows path v t` if `t` is what a recursive printer shows of `v` inside the containers of
`path`: a container that is one of those around it is not entered again. -/
inductive Shows (h : Heap) : List Container → Value → String → Prop where
  | again {path : List Container} {c : Container} : c ∈ path → Shows h path c.value c.again
  | parts {path : List Container} {v : Value} {text : Value → String} :
      (∀ c ∈ path, v ≠ c.value) →
      (∀ w, h.Holds v w → Shows h (v.container?.toList ++ path) w (text w)) →
      Shows h path v (h.layout text v)

/-- `h.Renders v t` if `t` is what a recursive printer shows of `v` that enters every container. -/
inductive Renders (h : Heap) : Value → String → Prop where
  | parts {v : Value} {text : Value → String} :
      (∀ w, h.Holds v w → Renders h w (text w)) → Renders h v (h.layout text v)

/-- A printer of the pairs of a hash, the key before the value. -/
def pairWith (print : Value → StateT (List Container) Option String) (x : Value × Value) :
    StateT (List Container) Option String := do
  let key ← print x.1
  let value ← print x.2
  return key ++ ": " ++ value

/-- A printer that keeps a list of the containers that it has not left yet, with containers nested
less than `n` deep. -/
def walk : Nat → Value → StateT (List Container) Option String
  | 0, _ => failure
  | n + 1, v =>
    match v with
    | .array i => do
      if .array i ∈ (← get) then
        return "[...]"
      else
        modify (.array i :: ·)
        let parts ← (h.array i).toList.mapM (walk n)
        modify List.tail
        return "[" ++ ", ".intercalate parts ++ "]"
    | .hash i => do
      if .hash i ∈ (← get) then
        return "\x7b...\x7d"
      else
        modify (.hash i :: ·)
        let parts ← (h.hash i).toList.mapM (pairWith (walk n))
        modify List.tail
        return "\x7b" ++ ", ".intercalate parts ++ "\x7d"
    | v => return h.layout (fun _ => "") v

variable {h} {n : Nat} {path : List Container} {v w : Value} {s t : String}

/-! ### One container after the other -/

/-- How a value is shown depends only on how what it holds is shown. -/
theorem layout_congr {f g : Value → String} (hfg : ∀ w, h.Holds v w → f w = g w) :
  h.layout f v = h.layout g v
  := by
  cases v
  case array i =>
    simp only [layout]
    rw [List.map_congr_left fun w hw => hfg w (.element hw)]
  case hash i =>
    have hparts (x : Value × Value) (hx : x ∈ (h.hash i).toList) :
      f x.1 ++ ": " ++ f x.2 = g x.1 ++ ": " ++ g x.2
      := by
      rw [hfg x.1 (.key hx), hfg x.2 (.value hx)]
    simp only [layout]
    rw [List.map_congr_left hparts]
  all_goals rfl

/-- A container of the path is not shown again. -/
theorem inspectWithin_again {c : Container} (hc : c ∈ path) :
  h.inspectWithin (n + 1) path c.value = c.again
  := by
  cases c
  all_goals simp [inspectWithin, Container.value, Container.again, hc]

/-- Any other value is shown with what it holds, inside of itself. -/
theorem inspectWithin_parts (hv : ∀ c ∈ path, v ≠ c.value) :
  h.inspectWithin (n + 1) path v
    = h.layout (h.inspectWithin n (v.container?.toList ++ path)) v
  := by
  cases v
  case array i =>
    have hi : .array i ∉ path := fun hi => hv _ hi rfl
    simp [inspectWithin, layout, hi, Value.container?]
  case hash i =>
    have hi : .hash i ∉ path := fun hi => hv _ hi rfl
    simp [inspectWithin, layout, hi, Value.container?]
  all_goals rfl

/-! ### The way from the root -/

/-- Whether the containers of a path differ from one another, hold something, and leave enough of
the fuel `n` for all others. -/
structure Room (h : Heap) (n : Nat) (path : List Container) : Prop where
  nodup : path.Nodup
  there : ∀ c ∈ path, c ∈ h.containers
  fuel : h.size < n + path.length

/-- At the root there is room for all containers. -/
theorem room_nil (hn : h.size < n) :
  h.Room n []
  := ⟨List.nodup_nil, List.forall_mem_nil _, hn⟩

/-- As long as there is room, there is fuel. -/
theorem Room.pos (hroom : h.Room n path) :
  0 < n
  := pos_of_nodup hroom.nodup hroom.there hroom.fuel

/-- What holds something is one of the containers of the heap. -/
theorem container_mem_of_holds (hw : h.Holds v w) :
  ∃ c ∈ h.containers, v = c.value
  := by
  cases hw with
  | element hx => exact ⟨_, array_mem_containers hx, rfl⟩
  | key hx => exact ⟨_, hash_mem_containers hx, rfl⟩
  | value hx => exact ⟨_, hash_mem_containers hx, rfl⟩

/-- There is room for what a value holds if there is for the value, and it is not entered twice. -/
theorem Room.step (hroom : h.Room (n + 1) path) (hv : ∀ c ∈ path, v ≠ c.value)
    (hw : h.Holds v w) :
  h.Room n (v.container?.toList ++ path)
  := by
  obtain ⟨c, hc, rfl⟩ := container_mem_of_holds hw
  have hfresh : c ∉ path := fun hmem => hv c hmem rfl
  rw [Value.container?_eq_some_iff.mpr rfl]
  refine ⟨List.nodup_cons.mpr ⟨hfresh, hroom.nodup⟩,
    List.forall_mem_cons.mpr ⟨hc, hroom.there⟩, ?_⟩
  have := hroom.fuel
  simp only [Option.toList_some, List.singleton_append, List.length_cons]
  omega

/-- Either a value is one of the containers around it, or it is not. -/
theorem again_or_parts (path : List Container) (v : Value) :
  (∃ c ∈ path, v = c.value) ∨ ∀ c ∈ path, v ≠ c.value
  := by
  by_cases hv : ∃ c ∈ path, v = c.value
  · exact .inl hv
  · exact .inr fun c hc heq => hv ⟨c, hc, heq⟩

/-- As long as there is room, a value is shown as the recursive printer shows it. -/
theorem Room.shows (hroom : h.Room n path) :
  h.Shows path v (h.inspectWithin n path v)
  := by
  induction n generalizing path v with
  | zero => exact absurd hroom.pos (Nat.lt_irrefl 0)
  | succ n ih =>
      rcases again_or_parts path v with ⟨c, hc, rfl⟩ | hv
      · rw [inspectWithin_again hc]
        exact .again hc
      · rw [inspectWithin_parts hv]
        exact .parts hv fun w hw => ih (hroom.step hv hw)

/-- Only one text is shown: by induction on how it is. -/
theorem Shows.unique (hs : h.Shows path v s) (ht : h.Shows path v t) :
  s = t
  := by
  induction hs generalizing t with
  | @again path c hc =>
      generalize hv : c.value = v at ht
      cases ht with
      | @again _ d _ =>
          rw [Option.some.inj ((Value.container?_eq_some_iff.mpr hv.symm).symm.trans
            (Value.container?_eq_some_iff.mpr rfl))]
      | parts hv' => exact absurd hv.symm (hv' c hc)
  | parts hv _ ih =>
      cases ht with
      | again hc => exact absurd rfl (hv _ hc)
      | parts _ hparts => exact layout_congr fun w hw => ih w hw (hparts w hw)

/-! ### One list of open containers -/

/-- Printers that leave the list as it was, one for each of some values. -/
theorem run_mapM {α : Type} {f : α → StateT (List Container) Option String} {g : α → String}
    {l : List α} (hl : ∀ x ∈ l, (f x).run path = some (g x, path)) :
  (l.mapM f).run path = some (l.map g, path)
  := by
  induction l with
  | nil => rfl
  | cons x l ih =>
      obtain ⟨hx, hrest⟩ := List.forall_mem_cons.mp hl
      simp [List.mapM_cons, hx, ih hrest]

/-- A pair is printed by printing its key and its value, which leave the list as it was. -/
theorem run_pairWith {print : Value → StateT (List Container) Option String} {x : Value × Value}
    (hkey : (print x.1).run path = some (s, path))
    (hvalue : (print x.2).run path = some (t, path)) :
  (pairWith print x).run path = some (s ++ ": " ++ t, path)
  := by
  simp [pairWith, hkey, hvalue]

/-- The list is the way from the root at every value, and it is left as it was found. -/
theorem Room.run_walk (hroom : h.Room n path) :
  (h.walk n v).run path = some (h.inspectWithin n path v, path)
  := by
  induction n generalizing path v with
  | zero => exact absurd hroom.pos (Nat.lt_irrefl 0)
  | succ n ih =>
      rcases again_or_parts path v with ⟨c, hc, rfl⟩ | hv
      · rw [inspectWithin_again hc]
        cases c
        all_goals simp [walk, Container.value, Container.again, hc]
      · rw [inspectWithin_parts hv]
        have hstep (w : Value) (hw : h.Holds v w) := ih (hroom.step hv hw) (v := w)
        cases v
        case array i =>
          have hi : .array i ∉ path := fun hi => hv _ hi rfl
          have hparts := run_mapM (f := h.walk n) fun x hx => hstep x (.element hx)
          simp only [Value.container?, Option.toList_some, List.singleton_append] at hparts ⊢
          simp [walk, layout, hi, hparts]
        case hash i =>
          have hi : .hash i ∉ path := fun hi => hv _ hi rfl
          have hparts := run_mapM (l := (h.hash i).toList) fun x hx =>
            run_pairWith (hstep x.1 (.key hx)) (hstep x.2 (.value hx))
          simp only [Value.container?, Option.toList_some, List.singleton_append] at hparts ⊢
          simp [walk, layout, hi, hparts]
        all_goals rfl

/-! ### Values without cycles -/

/-- Nothing is shown as being inside itself if nothing is: by induction on how the value is shown,
where the containers around it lead to it. -/
theorem Shows.renders (ht : h.Shows path v t)
    (hpath : ∀ c ∈ path, Relation.TransGen h.Holds c.value v)
    (hv : ∀ w, h.Leads v w → ¬ Relation.TransGen h.Holds w w) :
  h.Renders v t
  := by
  induction ht with
  | again hc => exact absurd (hpath _ hc) (hv _ .refl)
  | @parts path v text _ _ ih =>
      refine .parts fun w hw => ih w hw ?_ fun w' hw' => hv w' (.head hw hw')
      intro c hc
      rcases List.mem_append.mp hc with hc | hc
      · rw [Value.container?_eq_some_iff.mp (Option.mem_toList.mp hc)] at hw
        exact .single hw
      · exact (hpath c hc).tail hw

/-- There is one text that a value renders as. -/
theorem Renders.unique (hs : h.Renders v s) (ht : h.Renders v t) :
  s = t
  := by
  induction hs generalizing t with
  | parts _ ih =>
      obtain ⟨hparts⟩ := ht
      exact layout_congr fun w hw => ih w hw (hparts w hw)

/-- What is shown of a value is what a recursive printer shows that does not enter a container
inside itself.  A printer that keeps one list of open containers comes to the same and leaves the
list as it was.  If nothing that a value leads to is inside itself, then it is what a recursive
printer shows that enters every container, however often one is held. -/
theorem inspect_shows (h : Heap) (v : Value) :
  (∀ t, h.Shows [] v t ↔ t = h.inspect v)
  ∧ (∀ n, h.size < n → (h.walk n v).run [] = some (h.inspect v, []))
  ∧ ((∀ w, h.Leads v w → ¬ Relation.TransGen h.Holds w w) →
    ∀ t, h.Renders v t ↔ t = h.inspect v)
  := by
  have hshows : h.Shows [] v (h.inspect v) := (room_nil (Nat.lt_succ_self h.size)).shows
  refine ⟨fun t => ?_, fun n hn => ?_, fun hv t => ?_⟩
  · constructor
    · exact fun ht => ht.unique hshows
    · rintro rfl
      exact hshows
  · rw [(room_nil hn).run_walk]
    have hsame := (room_nil hn).shows.unique hshows
    rw [hsame]
  · have hrenders : h.Renders v (h.inspect v) := hshows.renders (List.forall_mem_nil _) hv
    constructor
    · exact fun ht => ht.unique hrenders
    · rintro rfl
      exact hrenders

/-- An array that holds another one twice, and a hash that has it for a key and for the value. -/
def shared : Heap :=
  ⟨#[#[.array 1, .hash 0, .array 1], #[.bool true]], #[#[(.array 1, .array 1)]], #[]⟩

/-- How deep the containers of `shared` are. -/
def sharedDepth : Value → Nat
  | .array 0 => 3
  | .hash 0 => 2
  | .array 1 => 1
  | _ => 0

/-- What is held is less deep than what holds it. -/
theorem sharedDepth_lt (hw : shared.Holds v w) :
  sharedDepth w < sharedDepth v
  := by
  rcases hw with @⟨i, _, hw⟩ | @⟨i, x, hx⟩ | @⟨i, x, hx⟩
  · rcases i with _ | _ | i
    · simp [shared, array] at hw
      rcases hw with rfl | rfl | rfl
      all_goals decide
    · simp [shared, array] at hw
      subst hw
      decide
    · simp [shared, array] at hw
  · rcases i with _ | i
    · simp [shared, hash] at hx
      subst hx
      decide
    · simp [shared, hash] at hx
  · rcases i with _ | i
    · simp [shared, hash] at hx
      subst hx
      decide
    · simp [shared, hash] at hx

/-- A value that is found in several places, none of them inside itself. -/
theorem inspect_shows_shared :
  (∀ w, shared.Leads (.array 0) w → ¬ Relation.TransGen shared.Holds w w)
  ∧ shared.Renders (.array 0) "[[true], \x7b[true]: [true]\x7d, [true]]"
  := by
  have hcycle (w : Value) : ¬ Relation.TransGen shared.Holds w w := by
    intro hloop
    have hlt (v : Value) (hv : Relation.TransGen shared.Holds w v) :
        sharedDepth v < sharedDepth w := by
      induction hv with
      | single hw => exact sharedDepth_lt hw
      | tail _ hw ih => exact Nat.lt_trans (sharedDepth_lt hw) ih
    exact Nat.lt_irrefl _ (hlt w hloop)
  have hloop : ∀ w, shared.Leads (.array 0) w → ¬ Relation.TransGen shared.Holds w w :=
    fun w _ => hcycle w
  refine ⟨hloop, ((inspect_shows shared (.array 0)).2.2 hloop _).mpr ?_⟩
  decide +kernel

/-- A hash that is a key of itself and holds itself by way of an array. -/
example :
  (⟨#[#[.hash 0, .null]], #[#[(.hash 0, .array 0)]], #[]⟩ : Heap).inspect (.hash 0)
    = "\x7b\x7b...\x7d: [\x7b...\x7d, null]\x7d"
  := by decide +kernel

end Heap

end Scriptlet
