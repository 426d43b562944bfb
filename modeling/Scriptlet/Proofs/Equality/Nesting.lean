import Mathlib.Data.Finset.Card
import Mathlib.Data.Finset.Image
import Mathlib.Data.Finset.Prod
import Mathlib.Tactic.Linarith
import Scriptlet.Heap.Equality

/-!
# Nested comparisons

How deep a comparison of values nests.  More fuel never changes an answer, and the fuel that
`Heap.equal?` gives is enough for every comparison that ends at all: the pairs of containers on
the way to a key that is looked up differ from one another, and so do the pairs of keys whose
comparisons are nested.  So no answer of `Heap.equal?` means that the comparison never ends.
-/

namespace Scriptlet

/-! ### Questions about all of a list -/

section

variable {α : Type} {p q : α → Option Bool} {l : List α}

/-- What answers more questions of a list answers more about the whole list. -/
theorem everyWith_mono {r : Bool} (h : ∀ x ∈ l, ∀ r, p x = some r → q x = some r)
    (hp : everyWith p l = some r) :
  everyWith q l = some r
  := by
  induction l with
  | nil => exact hp
  | cons x xs ih =>
      rw [List.forall_mem_cons] at h
      simp only [everyWith] at hp ⊢
      cases hx : p x with
      | none => simp [hx] at hp
      | some b =>
          rw [h.1 b hx]
          rw [hx] at hp
          cases b with
          | true => exact ih h.2 hp
          | false => exact hp

/-- If there is an answer for each element of a list, then there is one for all of it. -/
theorem exists_everyWith (h : ∀ x ∈ l, ∃ r, p x = some r) :
  ∃ r, everyWith p l = some r
  := by
  induction l with
  | nil => exact ⟨true, rfl⟩
  | cons x xs ih =>
      rw [List.forall_mem_cons] at h
      obtain ⟨b, hx⟩ := h.1
      simp only [everyWith, hx]
      cases b with
      | true => exact ih h.2
      | false => exact ⟨false, rfl⟩

end

section

variable {p q : Value → Option Bool} {pairs : Pairs}

/-- A slot that is found by some answers is found by more answers. -/
theorem slotWith_mono {slot : Option Nat}
    (h : ∀ x ∈ pairs.toList, ∀ r, p x.1 = some r → q x.1 = some r)
    (hp : slotWith p pairs = some slot) :
  slotWith q pairs = some slot
  := by
  have key (l : List (Value × Value)) (hl : ∀ x ∈ l, ∀ r, p x.1 = some r → q x.1 = some r)
      (i : Nat) (hgo : slotWith.go p i l = some slot) :
    slotWith.go q i l = some slot
    := by
    induction l generalizing i with
    | nil => exact hgo
    | cons x xs ih =>
        rw [List.forall_mem_cons] at hl
        simp only [slotWith.go] at hgo ⊢
        cases hx : p x.1 with
        | none => simp [hx] at hgo
        | some b =>
            rw [hl.1 b hx]
            rw [hx] at hgo
            cases b with
            | true => exact hgo
            | false => exact ih hl.2 (i + 1) hgo
  exact key pairs.toList h 0 hp

/-- If there is an answer for each key, then there is one about the slot. -/
theorem exists_slotWith (h : ∀ x ∈ pairs.toList, ∃ r, p x.1 = some r) :
  ∃ slot, slotWith p pairs = some slot
  := by
  have key (l : List (Value × Value)) (hl : ∀ x ∈ l, ∃ r, p x.1 = some r) (i : Nat) :
    ∃ slot, slotWith.go p i l = some slot
    := by
    induction l generalizing i with
    | nil => exact ⟨none, rfl⟩
    | cons x xs ih =>
        rw [List.forall_mem_cons] at hl
        obtain ⟨b, hx⟩ := hl.1
        simp only [slotWith.go, hx]
        cases b with
        | true => exact ⟨some i, rfl⟩
        | false => exact ih hl.2 (i + 1)
  exact key pairs.toList h 0

end

/-- Two containers that are not known to be equal are compared part by part if they are of one
size.  So more answers about their parts are more answers about them. -/
theorem ite_parts_mono {p p' q : Prop} [Decidable p] [Decidable p'] [Decidable q]
    {x x' : Option Bool} {r : Bool} (hp : p → p') (hp' : p' → p ∨ r = true)
    (hx : ¬ p' → q → x = some r → x' = some r)
    (hr : (if p then some true else if q then x else some false) = some r) :
  (if p' then some true else if q then x' else some false) = some r
  := by
  by_cases hknown : p'
  · rw [if_pos hknown]
    rcases hp' hknown with h | rfl
    · rwa [if_pos h] at hr
    · rfl
  · rw [if_neg fun h => hknown (hp h)] at hr
    rw [if_neg hknown]
    split at hr
    · rename_i hsize
      rw [if_pos hsize]
      exact hx hknown hsize hr
    · rename_i hsize
      rwa [if_neg hsize]

/-- The value that a container is. -/
def Container.value : Container → Value
  | array id => .array id
  | hash id => .hash id

namespace Heap

variable {h : Heap} {a b : Value} {seen : List (Container × Container)} {n n' : Nat} {r : Bool}

/-! ### The containers of a heap -/

/-- The containers of a heap. -/
def containers (h : Heap) : Finset Container :=
  (Finset.range h.arrays.size).image .array ∪ (Finset.range h.hashes.size).image .hash

/-- The pairs of containers of a heap. -/
def containerPairs (h : Heap) : Finset (Container × Container) :=
  h.containers ×ˢ h.containers

/-- A heap has no more containers than its size. -/
theorem card_containers_le (h : Heap) :
  h.containers.card ≤ h.size
  := by
  calc h.containers.card
      ≤ ((Finset.range h.arrays.size).image Container.array).card
        + ((Finset.range h.hashes.size).image Container.hash).card := Finset.card_union_le _ _
    _ ≤ (Finset.range h.arrays.size).card + (Finset.range h.hashes.size).card :=
        Nat.add_le_add Finset.card_image_le Finset.card_image_le
    _ = h.size := by simp [size]

/-- A path that enters no container twice uses up no more fuel than there are containers. -/
theorem pos_of_nodup {n : Nat} {path : List Container} (hnodup : path.Nodup)
    (hthere : ∀ c ∈ path, c ∈ h.containers) (hfuel : h.size < n + path.length) :
  0 < n
  := by
  have hlength : path.length ≤ h.containers.card := by
    rw [← List.toFinset_card_of_nodup hnodup]
    exact Finset.card_le_card fun c hc => hthere c (List.mem_toFinset.mp hc)
  have := hlength.trans h.card_containers_le
  omega

/-- An array that holds something is one of the containers. -/
theorem array_mem_containers {i : Nat} {v : Value} (hv : v ∈ (h.array i).toList) :
  .array i ∈ h.containers
  := by
  have hi : i < h.arrays.size := by
    by_contra hi
    simp [array, Array.getD_eq_getD_getElem?, Array.getElem?_eq_none (Nat.le_of_not_lt hi)] at hv
  simp [containers, hi]

/-- A hash that holds something is one of the containers. -/
theorem hash_mem_containers {i : Nat} {x : Value × Value} (hx : x ∈ (h.hash i).toList) :
  .hash i ∈ h.containers
  := by
  have hi : i < h.hashes.size := by
    by_contra hi
    simp [hash, Array.getD_eq_getD_getElem?, Array.getElem?_eq_none (Nat.le_of_not_lt hi)] at hx
  simp [containers, hi]

/-- A hash with as many pairs as one that holds something is one of the containers. -/
theorem hash_mem_of_size_eq {i j : Nat} (hsize : (h.hash i).size = (h.hash j).size)
    {x : Value × Value} (hx : x ∈ (h.hash i).toList) :
  .hash j ∈ h.containers
  := by
  have hlen : 0 < (h.hash j).toList.length := by
    rw [Array.length_toList, ← hsize, ← Array.length_toList]
    exact List.length_pos_of_mem hx
  obtain ⟨y, hy⟩ := List.exists_mem_of_length_pos hlen
  exact hash_mem_containers hy

/-! ### More fuel -/

/-- The answer to a comparison rests on the answers about the keys, and on those about the parts
of two containers that are not yet under comparison. -/
theorem equalWithin_succ_mono
    (hkeys : ∀ x y r, h.equalWithin n [] x y = some r → h.equalWithin n' [] x y = some r)
    (hparts : ∀ pair ∈ h.containerPairs, pair ∉ seen → ∀ x y r,
      h.equalWithin n (pair :: seen) x y = some r → h.equalWithin n' (pair :: seen) x y = some r)
    (hr : h.equalWithin (n + 1) seen a b = some r) :
  h.equalWithin (n' + 1) seen a b = some r
  := by
  cases a
  case array i =>
    cases b
    case array j =>
      simp only [equalWithin] at hr ⊢
      refine ite_parts_mono id .inl (fun hs _ => everyWith_mono ?_) hr
      rintro ⟨x, y⟩ hxy
      obtain ⟨hx, hy⟩ := List.of_mem_zip hxy
      have hpair : (Container.array i, Container.array j) ∈ h.containerPairs :=
        Finset.mem_product.mpr ⟨array_mem_containers hx, array_mem_containers hy⟩
      exact hparts _ hpair (fun h => hs (.inr h)) x y
    all_goals exact hr
  case hash i =>
    cases b
    case hash j =>
      simp only [equalWithin] at hr ⊢
      refine ite_parts_mono id .inl (fun hs hsize => everyWith_mono ?_) hr
      rintro ⟨key, x⟩ hx r hr
      cases hslot : slotWith (fun k => h.equalWithin n [] k key) (h.hash j) with
      | none => simp [hslot] at hr
      | some slot =>
          rw [slotWith_mono (fun k _ => hkeys k.1 key) hslot]
          rw [hslot] at hr
          cases slot with
          | none => exact hr
          | some place =>
              have hpair : (Container.hash i, Container.hash j) ∈ h.containerPairs :=
                Finset.mem_product.mpr ⟨hash_mem_containers hx, hash_mem_of_size_eq hsize hx⟩
              exact hparts _ hpair (fun h => hs (.inr h)) x _ r hr
    all_goals exact hr
  all_goals
    cases b
    all_goals exact hr

/-- One more fuel does not change an answer. -/
theorem equalWithin_succ (hr : h.equalWithin n seen a b = some r) :
  h.equalWithin (n + 1) seen a b = some r
  := by
  induction n generalizing seen a b r with
  | zero => cases hr
  | succ n ih =>
      refine equalWithin_succ_mono ?_ ?_ hr
      · intro x y r hxy
        exact ih hxy
      · intro pair _ _ x y r hxy
        exact ih hxy

/-- More fuel does not change an answer. -/
theorem equalWithin_mono (hn : n ≤ n') (hr : h.equalWithin n seen a b = some r) :
  h.equalWithin n' seen a b = some r
  := by
  induction hn with
  | refl => exact hr
  | step _ ih => exact equalWithin_succ ih

/-- A comparison has one answer, whatever the fuel. -/
theorem equalWithin_unique {r' : Bool} (hr : h.equalWithin n seen a b = some r)
    (hr' : h.equalWithin n' seen a b = some r') :
  r = r'
  := by
  have h₁ := equalWithin_mono (Nat.le_max_left n n') hr
  have h₂ := equalWithin_mono (Nat.le_max_right n n') hr'
  rw [h₁] at h₂
  exact Option.some.inj h₂

/-! ### Enough fuel -/

/-- The pairs of containers that are not yet under comparison. -/
def fresh (h : Heap) (seen : List (Container × Container)) : Finset (Container × Container) :=
  h.containerPairs \ seen.toFinset

/-- With one pair more under comparison there are fewer that are not. -/
theorem card_fresh_cons_lt {pair : Container × Container} (hp : pair ∈ h.containerPairs)
    (hs : pair ∉ seen) :
  (h.fresh (pair :: seen)).card < (h.fresh seen).card
  := by
  apply Finset.card_lt_card
  rw [Finset.ssubset_iff_of_subset]
  · use pair
    simp [fresh, hp, hs]
  · intro p
    simp only [fresh, Finset.mem_sdiff, List.mem_toFinset, List.mem_cons, not_or]
    rintro ⟨hp, -, hs⟩
    exact ⟨hp, hs⟩

/-- Between two look-ups of keys, the containers under comparison differ from one another. -/
theorem equalWithin_fresh {k : Nat}
    (hkeys : ∀ x y r, h.equalWithin n [] x y = some r → h.equalWithin k [] x y = some r)
    (hn : n' ≤ n + 1) (hr : h.equalWithin n' seen a b = some r) :
  h.equalWithin (k + (h.fresh seen).card + 1) seen a b = some r
  := by
  induction n' generalizing seen a b r with
  | zero => cases hr
  | succ n' ih =>
      refine equalWithin_succ_mono ?_ ?_ hr
      · intro x y r hxy
        have := hkeys x y r (equalWithin_mono (by omega) hxy)
        exact equalWithin_mono (by omega) this
      · intro pair hp hs x y r hxy
        have hlt := card_fresh_cons_lt hp hs
        exact equalWithin_mono (by omega) (ih (by omega) hxy)

/-- A comparison that is no longer than one step, unless it is one of two containers. -/
theorem equalWithin_one (seen : List (Container × Container)) (a b : Value) :
  (∃ r, h.equalWithin 1 seen a b = some r)
    ∨ ∃ pair ∈ h.containerPairs, a = pair.1.value ∧ b = pair.2.value
  := by
  cases a
  case array i =>
    cases b
    case array j =>
      by_cases hempty : (h.array i).toList.zip (h.array j).toList = []
      · left
        simp only [equalWithin, hempty, everyWith]
        split
        · exact ⟨true, rfl⟩
        · split
          · exact ⟨true, rfl⟩
          · exact ⟨false, rfl⟩
      · right
        obtain ⟨⟨x, y⟩, hxy⟩ := List.exists_mem_of_ne_nil _ hempty
        obtain ⟨hx, hy⟩ := List.of_mem_zip hxy
        exact ⟨(.array i, .array j), Finset.mem_product.mpr
          ⟨array_mem_containers hx, array_mem_containers hy⟩, rfl, rfl⟩
    all_goals exact .inl ⟨_, rfl⟩
  case hash i =>
    cases b
    case hash j =>
      by_cases hsize : (h.hash i).size = (h.hash j).size
      · rcases hlist : (h.hash i).toList with _ | ⟨x, xs⟩
        · left
          simp only [equalWithin, hlist, everyWith, if_pos hsize]
          split
          · exact ⟨true, rfl⟩
          · exact ⟨true, rfl⟩
        · right
          have hx : x ∈ (h.hash i).toList := by simp [hlist]
          exact ⟨(.hash i, .hash j), Finset.mem_product.mpr
            ⟨hash_mem_containers hx, hash_mem_of_size_eq hsize hx⟩, rfl, rfl⟩
      · left
        simp only [equalWithin, if_neg hsize]
        split
        · exact ⟨true, rfl⟩
        · exact ⟨false, rfl⟩
    all_goals exact .inl ⟨_, rfl⟩
  all_goals
    left
    cases b
    all_goals exact ⟨_, rfl⟩

open Classical in
/-- The pairs of containers that can be compared with the given fuel. -/
noncomputable def solved (h : Heap) (n : Nat) : Finset (Container × Container) :=
  h.containerPairs.filter fun pair => ∃ r, h.equalWithin n [] pair.1.value pair.2.value = some r

/-- With more fuel no fewer comparisons of containers end. -/
theorem card_solved_le (h : Heap) (n : Nat) :
  (h.solved n).card ≤ (h.solved (n + 1)).card
  := by
  apply Finset.card_le_card
  intro pair
  simp only [solved, Finset.mem_filter]
  rintro ⟨hp, r, hr⟩
  exact ⟨hp, r, equalWithin_succ hr⟩

/-- With one more fuel more comparisons end, if one does that has not before. -/
theorem card_solved_lt {pair : Container × Container} (hp : pair ∈ h.containerPairs)
    (hr : h.equalWithin (n + 1) [] pair.1.value pair.2.value = some r)
    (hn : ¬ ∃ r, h.equalWithin n [] pair.1.value pair.2.value = some r) :
  (h.solved n).card < (h.solved (n + 1)).card
  := by
  apply Finset.card_lt_card
  rw [Finset.ssubset_iff_of_subset]
  · use pair
    simp only [solved, Finset.mem_filter, hp, true_and]
    exact ⟨⟨r, hr⟩, hn⟩
  · intro pair
    simp only [solved, Finset.mem_filter]
    rintro ⟨hp, r, hr⟩
    exact ⟨hp, r, equalWithin_succ hr⟩

/-- A comparison nests only comparisons of keys that need less fuel than itself.  So each pair of
keys that can be compared with fuel `n` adds one run through all pairs of containers at most. -/
theorem equalWithin_solved (hr : h.equalWithin n [] a b = some r) :
  h.equalWithin ((h.solved n).card * (h.containerPairs.card + 1) + 1) [] a b = some r
  := by
  induction n generalizing a b r with
  | zero => cases hr
  | succ n ih =>
      by_cases hn : ∃ r, h.equalWithin n [] a b = some r
      · obtain ⟨r', hr'⟩ := hn
        have : r' = r := equalWithin_unique hr' hr
        subst this
        have hle := Nat.mul_le_mul_right (h.containerPairs.card + 1) (card_solved_le h n)
        exact equalWithin_mono (by omega) (ih hr')
      · rcases equalWithin_one [] a b with ⟨r', hr'⟩ | ⟨pair, hp, rfl, rfl⟩
        · have : r' = r := equalWithin_unique hr' hr
          subst this
          exact equalWithin_mono (by omega) hr'
        · have hrun := equalWithin_fresh (fun _ _ _ => ih) (Nat.le_refl _) hr
          have hfresh : (h.fresh []).card ≤ h.containerPairs.card :=
            Finset.card_le_card Finset.sdiff_subset
          have hle := Nat.mul_le_mul_right (h.containerPairs.card + 1)
            (Nat.succ_le_of_lt (card_solved_lt hp hr hn))
          rw [Nat.succ_mul] at hle
          exact equalWithin_mono (by omega) hrun

/-- `equal?` gives the answer of every comparison that ends. -/
theorem equal?_eq_some_iff :
  h.equal? a b = some r ↔ ∃ n, h.equalWithin n [] a b = some r
  := by
  constructor
  · intro hr
    exact ⟨h.comparisons, hr⟩
  · rintro ⟨n, hr⟩
    have hpairs : h.containerPairs.card ≤ h.size * h.size := by
      rw [containerPairs, Finset.card_product]
      exact Nat.mul_le_mul (card_containers_le h) (card_containers_le h)
    have hsolved : (h.solved n).card ≤ h.size * h.size :=
      Nat.le_trans (Finset.card_le_card (Finset.filter_subset _ _)) hpairs
    refine equalWithin_mono ?_ (equalWithin_solved hr)
    calc (h.solved n).card * (h.containerPairs.card + 1) + 1
        ≤ (h.size * h.size) * (h.size * h.size + 1) + 1 :=
          Nat.succ_le_succ (Nat.mul_le_mul hsolved (Nat.succ_le_succ hpairs))
      _ ≤ h.comparisons := by
          unfold comparisons
          nlinarith [Nat.zero_le (h.size * h.size)]

/-- The fuel that a comparison is given is enough if any is. -/
theorem exists_equal?_iff :
  (∃ r, h.equal? a b = some r) ↔ ∃ n r, h.equalWithin n [] a b = some r
  := by
  simp only [equal?_eq_some_iff]
  exact exists_comm

end Heap

end Scriptlet
