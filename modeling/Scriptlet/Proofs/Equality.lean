import Mathlib.Logic.Relation
import Scriptlet.Proofs.Equality.Nesting
import Scriptlet.Script

/-!
# Comparisons that end

Two values can be compared if no hash that one of them leads to is led to by one of its own keys;
what the other value leads to does not matter.  Two hashes that are both keys of themselves, by
way of an array, show that without the condition a comparison need not end.
-/

namespace Scriptlet

variable {σ : Type}

namespace Heap

variable {h : Heap} {a b v w : Value} {seen : List (Container × Container)}

/-! ### What a value leads to -/

/-- `h.Holds v w` if `w` is an element of the array `v`, or a key or a value of the hash `v`. -/
inductive Holds (h : Heap) : Value → Value → Prop where
  | element {i : Nat} {x : Value} : x ∈ (h.array i).toList → Holds h (.array i) x
  | key {i : Nat} {entry : Value × Value} : entry ∈ (h.hash i).toList → Holds h (.hash i) entry.1
  | value {i : Nat} {entry : Value × Value} :
      entry ∈ (h.hash i).toList → Holds h (.hash i) entry.2

/-- `h.Leads v w` if `w` is `v` or is found inside it. -/
def Leads (h : Heap) : Value → Value → Prop :=
  Relation.ReflTransGen h.Holds

/-- Whether no hash that `v` leads to is led to by one of its own keys. -/
def KeysFounded (h : Heap) (v : Value) : Prop :=
  ∀ i, h.Leads v (.hash i) → ∀ entry ∈ (h.hash i).toList, ¬ h.Leads entry.1 (.hash i)

/-- If no key of what a value leads to leads back to its hash, then none does for what the value
holds. -/
theorem KeysFounded.holds (hv : h.KeysFounded v) (hw : h.Holds v w) :
  h.KeysFounded w
  := by
  intro i hi
  exact hv i (Relation.ReflTransGen.head hw hi)

open Classical in
/-- The number of hashes that a value leads to. -/
noncomputable def rank (h : Heap) (v : Value) : Nat :=
  ((Finset.range h.hashes.size).filter fun i => h.Leads v (.hash i)).card

/-- What a value holds ranks no higher than the value. -/
theorem rank_le_of_holds (hw : h.Holds v w) :
  h.rank w ≤ h.rank v
  := by
  apply Finset.card_le_card
  intro i
  simp only [Finset.mem_filter]
  rintro ⟨hi, hlead⟩
  exact ⟨hi, Relation.ReflTransGen.head hw hlead⟩

/-- A key leads to fewer hashes than the hash it belongs to. -/
theorem rank_key_lt {i : Nat} (hv : h.KeysFounded (.hash i)) {entry : Value × Value}
    (hentry : entry ∈ (h.hash i).toList) :
  h.rank entry.1 < h.rank (.hash i)
  := by
  have hi : i < h.hashes.size := by
    simpa [containers] using hash_mem_containers hentry
  apply Finset.card_lt_card
  rw [Finset.ssubset_iff_of_subset]
  · use i
    simp only [Finset.mem_filter, Finset.mem_range, hi, true_and]
    exact ⟨.refl, hv i .refl entry hentry⟩
  · intro j
    simp only [Finset.mem_filter]
    rintro ⟨hj, hlead⟩
    exact ⟨hj, Relation.ReflTransGen.head (.key hentry) hlead⟩

/-! ### Fuel for many comparisons -/

/-- What holds of each of a list with enough fuel holds of all of them with enough fuel. -/
theorem exists_fuel {α : Type} {P : Nat → α → Prop} (hP : ∀ n m x, n ≤ m → P n x → P m x)
    (l : List α) (hl : ∀ x ∈ l, ∃ n, P n x) :
  ∃ n, ∀ x ∈ l, P n x
  := by
  induction l with
  | nil => exact ⟨0, List.forall_mem_nil _⟩
  | cons x xs ih =>
      rw [List.forall_mem_cons] at hl
      obtain ⟨n, hn⟩ := hl.1
      obtain ⟨m, hm⟩ := ih hl.2
      use max n m
      rw [List.forall_mem_cons]
      constructor
      · exact hP _ _ _ (Nat.le_max_left n m) hn
      · intro y hy
        exact hP _ _ _ (Nat.le_max_right n m) (hm y hy)

/-- Whether a comparison inside of others ends. -/
def Ends (h : Heap) (seen : List (Container × Container)) (a b : Value) : Prop :=
  ∃ n r, h.equalWithin n seen a b = some r

/-- If the comparisons of many pairs end, then one fuel is enough for all of them. -/
theorem exists_fuel_ends {α : Type} {seen : List (Container × Container)} (f g : α → Value)
    (l : List α) (hl : ∀ x ∈ l, h.Ends seen (f x) (g x)) :
  ∃ n, ∀ m, n ≤ m → ∀ x ∈ l, ∃ r, h.equalWithin m seen (f x) (g x) = some r
  := by
  have hmono (n m : Nat) (x : α) (hle : n ≤ m)
      (hx : ∃ r, h.equalWithin n seen (f x) (g x) = some r) :
      ∃ r, h.equalWithin m seen (f x) (g x) = some r := by
    obtain ⟨r, hr⟩ := hx
    exact ⟨r, equalWithin_mono hle hr⟩
  obtain ⟨n, hn⟩ := exists_fuel hmono l hl
  use n
  intro m hm x hx
  exact hmono n m x hm (hn x hx)

/-- The place of a key is that of one of the pairs. -/
theorem slotWith_lt {p : Value → Option Bool} {pairs : Pairs} {i : Nat}
    (hi : slotWith p pairs = some (some i)) :
  i < pairs.size
  := by
  have key (l : List (Value × Value)) (k : Nat) (hgo : slotWith.go p k l = some (some i)) :
    i < k + l.length
    := by
    induction l generalizing k with
    | nil => simp [slotWith.go] at hgo
    | cons x xs ih =>
        simp only [slotWith.go] at hgo
        split at hgo
        · cases hgo
        · cases hgo
          simp
        · have := ih (k + 1) hgo
          simp only [List.length_cons]
          omega
  simpa using key pairs.toList 0 hi

/-- A comparison of two arrays ends if those of their elements do, unless it is under way
already. -/
theorem ends_array {i j : Nat}
    (hparts : (.array i, .array j) ∉ seen → ∀ x ∈ (h.array i).toList, ∀ y ∈ (h.array j).toList,
      h.Ends ((.array i, .array j) :: seen) x y) :
  h.Ends seen (.array i) (.array j)
  := by
  by_cases hseen : (Container.array i, Container.array j) ∈ seen
  · exact ⟨1, true, by simp [equalWithin, hseen]⟩
  have hzip : ∀ x ∈ (h.array i).toList.zip (h.array j).toList,
      h.Ends ((.array i, .array j) :: seen) x.1 x.2 := by
    intro x hx
    obtain ⟨hx₁, hx₂⟩ := List.of_mem_zip hx
    exact hparts hseen _ hx₁ _ hx₂
  obtain ⟨n, hn⟩ := exists_fuel_ends Prod.fst Prod.snd _ hzip
  use n + 1
  simp only [equalWithin]
  split
  · exact ⟨true, rfl⟩
  · split
    · exact exists_everyWith (hn n (Nat.le_refl n))
    · exact ⟨false, rfl⟩

/-- A comparison of two hashes ends if those of their keys do, and those of their values while it is
under way. -/
theorem ends_hash {i j : Nat}
    (hkeys : ∀ x ∈ (h.hash i).toList, ∀ y ∈ (h.hash j).toList, h.Ends [] y.1 x.1)
    (hparts : (.hash i, .hash j) ∉ seen → ∀ x ∈ (h.hash i).toList, ∀ y ∈ (h.hash j).toList,
      h.Ends ((.hash i, .hash j) :: seen) x.2 y.2) :
  h.Ends seen (.hash i) (.hash j)
  := by
  by_cases hseen : (Container.hash i, Container.hash j) ∈ seen
  · exact ⟨1, true, by simp [equalWithin, hseen]⟩
  have hproduct {P : Value × Value → Value × Value → Prop}
      (hP : ∀ x ∈ (h.hash i).toList, ∀ y ∈ (h.hash j).toList, P x y) :
    ∀ z ∈ (h.hash i).toList ×ˢ (h.hash j).toList, P z.1 z.2
    := by
    intro z hz
    obtain ⟨hx, hy⟩ := List.mem_product.mp hz
    exact hP _ hx _ hy
  obtain ⟨n, hn⟩ := exists_fuel_ends (α := (Value × Value) × (Value × Value))
    (fun z => z.2.1) (fun z => z.1.1) _ (hproduct hkeys)
  obtain ⟨m, hm⟩ := exists_fuel_ends (α := (Value × Value) × (Value × Value))
    (fun z => z.1.2) (fun z => z.2.2) _ (hproduct (hparts hseen))
  use max n m + 1
  simp only [equalWithin]
  split
  · exact ⟨true, rfl⟩
  · split
    · apply exists_everyWith
      rintro x hx
      obtain ⟨slot, hslot⟩ := exists_slotWith
        (p := fun k => h.equalWithin (max n m) [] k x.1) fun (y : Value × Value) hy =>
          hn _ (Nat.le_max_left n m) (x, y) (List.mem_product.mpr ⟨hx, hy⟩)
      rw [hslot]
      cases slot with
      | none => exact ⟨false, rfl⟩
      | some place =>
          have hplace := slotWith_lt hslot
          have hy : (h.hash j)[place] ∈ (h.hash j).toList := by simp
          simpa [hplace] using
            hm _ (Nat.le_max_right n m) (x, _) (List.mem_product.mpr ⟨hx, hy⟩)
    · exact ⟨false, rfl⟩

/-- Among the parts of two values of which one has founded keys, one has founded keys. -/
theorem KeysFounded.parts {x y : Value} (hv : h.KeysFounded v) (hab : v = a ∨ v = b)
    (hx : h.Holds a x) (hy : h.Holds b y) :
  ∃ w, h.KeysFounded w ∧ h.rank w ≤ h.rank v ∧ (w = x ∨ w = y)
  := by
  rcases hab with rfl | rfl
  · exact ⟨x, hv.holds hx, rank_le_of_holds hx, .inl rfl⟩
  · exact ⟨y, hv.holds hy, rank_le_of_holds hy, .inr rfl⟩

/-- A comparison ends if one of the two values has founded keys: with each look-up of a key its
rank decreases, and between two look-ups the pairs of containers that can still be met do. -/
theorem KeysFounded.ends {v a b : Value} {seen : List (Container × Container)}
    (hv : h.KeysFounded v) (hab : v = a ∨ v = b) :
  h.Ends seen a b
  := by
  -- Of the pairs that can still be met, one less is left for the parts of a new pair.
  have hparts (pair : Container × Container) (hpair : pair ∈ h.containerPairs)
      (hseen : pair ∉ seen) (x y : Value) (hx : h.Holds a x) (hy : h.Holds b y) :
    h.Ends (pair :: seen) x y
    := by
    obtain ⟨w, hw, hrank, hxy⟩ := hv.parts hab hx hy
    have hfresh := card_fresh_cons_lt hpair hseen
    exact KeysFounded.ends hw hxy
  cases a
  case array i =>
    cases b
    case array j =>
      apply ends_array
      intro hseen x hx y hy
      exact hparts _ (Finset.mem_product.mpr ⟨array_mem_containers hx, array_mem_containers hy⟩)
        hseen x y (.element hx) (.element hy)
    all_goals exact ⟨1, _, rfl⟩
  case hash i =>
    cases b
    case hash j =>
      apply ends_hash
      · intro x hx y hy
        have : ∃ w, h.KeysFounded w ∧ h.rank w < h.rank v ∧ (w = y.1 ∨ w = x.1) := by
          rcases hab with rfl | rfl
          · exact ⟨x.1, hv.holds (.key hx), rank_key_lt hv hx, .inr rfl⟩
          · exact ⟨y.1, hv.holds (.key hy), rank_key_lt hv hy, .inl rfl⟩
        obtain ⟨w, hw, hrank, hxy⟩ := this
        exact KeysFounded.ends hw hxy
      · intro hseen x hx y hy
        exact hparts _ (Finset.mem_product.mpr ⟨hash_mem_containers hx, hash_mem_containers hy⟩)
          hseen x.2 y.2 (.value hx) (.value hy)
    all_goals exact ⟨1, _, rfl⟩
  all_goals
    use 1
    cases b
    all_goals exact ⟨_, rfl⟩
termination_by (h.rank v, (h.fresh seen).card)
decreasing_by
  · rw [Prod.lex_def]
    omega
  · rw [Prod.lex_def]
    omega

/-- Two values can be compared if no key leads back to its hash in what one of them leads to. -/
theorem exists_equal? (hab : h.KeysFounded a ∨ h.KeysFounded b) :
  ∃ r, h.equal? a b = some r
  := by
  rw [exists_equal?_iff]
  rcases hab with ha | hb
  · exact ha.ends (.inl rfl)
  · exact hb.ends (.inr rfl)

/-- A key can be looked up if it can be compared with each of the keys. -/
theorem exists_slot? {pairs : Pairs} {key : Value}
    (hkeys : ∀ entry ∈ pairs.toList, h.KeysFounded entry.1 ∨ h.KeysFounded key) :
  ∃ slot, h.slot? pairs key = some slot
  := by
  apply exists_slotWith
  intro entry hentry
  exact exists_equal? (hkeys entry hentry)

/-- Every comparison answers of which one side has founded keys, and every look-up in pairs, every
question whether they have a key and every insertion for which that holds of each comparison of a
key of the pairs with the key in question. -/
theorem answers (h : Heap) :
  (∀ a b, h.KeysFounded a ∨ h.KeysFounded b → ∃ r, h.equal? a b = some r)
  ∧ ∀ (pairs : Pairs) key,
    (∀ entry ∈ pairs.toList, h.KeysFounded entry.1 ∨ h.KeysFounded key) →
    (∃ found, h.find? pairs key = some found)
    ∧ (∃ r, h.contains? pairs key = some r)
    ∧ ∀ value, ∃ pairs', h.insert? pairs key value = some pairs'
  := by
  constructor
  · intro a b hab
    exact exists_equal? hab
  · intro pairs key hkeys
    obtain ⟨slot, hslot⟩ := exists_slot? hkeys
    simp only [find?, contains?, insert?, hslot, Option.map_some]
    exact ⟨⟨_, rfl⟩, ⟨_, rfl⟩, fun _ => ⟨_, rfl⟩⟩

/-- Keys are founded where no key holds anything. -/
theorem keysFounded_of_keys (hkeys : ∀ i, ∀ entry ∈ (h.hash i).toList, ∀ w, ¬ h.Holds entry.1 w)
    (v : Value) :
  h.KeysFounded v
  := by
  intro i _ entry hentry hlead
  rcases Relation.ReflTransGen.cases_head hlead with heq | ⟨w, hw, _⟩
  · exact hkeys i entry hentry entry.2 (heq ▸ .value hentry)
  · exact hkeys i entry hentry w hw

/-- Two hashes of one shape, each of which holds itself by way of an array. -/
def entwined : Heap :=
  ⟨#[#[.hash 0], #[.hash 1]], #[#[(.str "me", .array 0)], #[(.str "me", .array 1)]], #[]⟩

/-- The only keys of the two hashes are texts, which lead nowhere. -/
theorem keysFounded_entwined (v : Value) :
  entwined.KeysFounded v
  := by
  apply keysFounded_of_keys
  intro i entry hentry w hw
  have hkey : entry.1 = .str "me" := by
    rcases i with _ | _ | i
    all_goals simp_all [entwined, hash]
  rw [hkey] at hw
  cases hw

/-- A comparison of the two hashes, and a look-up of one array among keys that are arrays. -/
theorem answers_entwined :
  (entwined.KeysFounded (.hash 0) ∧ ∃ r, entwined.equal? (.hash 0) (.hash 1) = some r)
  ∧ entwined.KeysFounded (.array 0)
  ∧ ∃ found, entwined.find? #[(.array 0, .null)] (.array 1) = some found
  := by
  have hfirst := keysFounded_entwined (.hash 0)
  have hkey := keysFounded_entwined (.array 0)
  have hkeys : ∀ entry ∈ #[((.array 0 : Value), (.null : Value))].toList,
      entwined.KeysFounded entry.1 ∨ entwined.KeysFounded (.array 1) := by
    intro entry _
    exact .inl (keysFounded_entwined entry.1)
  exact ⟨⟨hfirst, (answers entwined).1 _ _ (.inl hfirst)⟩, hkey,
    ((answers entwined).2 _ _ hkeys).1⟩

end Heap

/-! ### A comparison that does not end -/

/-- Compares two hashes each of which is, by way of an array, a key of itself. -/
def selfKeyed : String :=
  "let a = []; let b = []; let h = \x7b(a): null\x7d; let g = \x7b(b): null\x7d; "
    ++ "__builtin_push(a, h); __builtin_push(b, g); h == g"

/-- The run of a text in a scope of its own, without the standard library. -/
def Run.alone (fuel : Nat) (text : String) : Run Value := do
  let scope ← enclose [] []
  evaluate ⟨{ Options.standard with useLibrary := false }, Device.standard, .empty⟩ fuel
    (Program.parse text "main.tiny").1 scope

/-- Whether a run has stopped at a comparison that has no answer, with two hashes in its heap that
cannot be compared. -/
def stoppedComparing : EStateM.Result Unwind Machine Value → Bool
  | .error .endless m => (m.heap.equal? (.hash 0) (.hash 1)).isNone
  | _ => false

/-- A program in which a comparison never ends. -/
theorem exists_equalWithin_eq_none :
  ∃ text, (Program.parse text "main.tiny").2 = []
  ∧ ∃ fuel m, Run.alone fuel text (.initial (.ofLines [])) = .error .endless m
  ∧ ∃ a b, ∀ n, m.heap.equalWithin n [] a b = none
  := by
  have hstop : stoppedComparing (Run.alone 40 selfKeyed (.initial (.ofLines []))) = true := by
    decide +kernel
  use selfKeyed
  constructor
  · apply List.isEmpty_iff.mp
    decide +kernel
  · use 40
    rcases hrun : Run.alone 40 selfKeyed (.initial (.ofLines [])) with ⟨v, m⟩ | ⟨u, m⟩
    · rw [hrun] at hstop
      cases hstop
    · rw [hrun] at hstop
      cases u
      case endless =>
        use m, rfl, .hash 0, .hash 1
        intro n
        rw [Option.eq_none_iff_forall_ne_some]
        intro r hr
        have hsome := Heap.equal?_eq_some_iff.mpr ⟨n, hr⟩
        simp [stoppedComparing, hsome] at hstop
      all_goals cases hstop

end Scriptlet
