import Scriptlet.Proofs.Structural

/-!
# Hashes as maps

A hash that comes about by insertions is a finite map that remembers the order in which its keys
came in: to each key belongs the value that was inserted last for a key equal to it
(`Heap.latest?`), and each key stands where it was inserted first, as it was then (`Heap.firsts`).
The only condition is that equality is an equivalence on what is inserted and that none of this
changes meanwhile.  So two hashes are equal if the same values belong to the same keys, whatever
was inserted before and in whatever order.
-/

namespace Scriptlet

/-- If the answer for each element of a list is yes, then it is for all of it. -/
theorem everyWith_of_forall {α : Type} {p : α → Option Bool} {l : List α}
    (h : ∀ x ∈ l, p x = some true) :
  everyWith p l = some true
  := by
  induction l with
  | nil => rfl
  | cons x xs ih =>
      obtain ⟨hx, hxs⟩ := List.forall_mem_cons.mp h
      simp only [everyWith, hx]
      exact ih hxs

/-- An insertion into a hash, with the heap at that moment. -/
structure Insertion where
  heap : Heap
  key : Value
  value : Value

/-- The pairs that one insertion after the other makes. -/
def Insertion.pairs? (xs : List Insertion) : Option Pairs :=
  xs.foldlM (fun pairs x => x.heap.insert? pairs x.key x.value) #[]

namespace Heap

variable {h h' : Heap} {S T : Value → Prop} {a b v w : Value}
  {seen seen' : List (Container × Container)} {n : Nat} {r : Bool}

/-! ### Equality in another heap -/

/-- Whether all that `v` leads to in `h` holds the same in `h'`. -/
structure Preserves (h h' : Heap) (v : Value) : Prop where
  array : ∀ i, h.Leads v (.array i) → h'.array i = h.array i
  hash : ∀ i, h.Leads v (.hash i) → h'.hash i = h.hash i

/-- What is held by a value that holds the same in both heaps does so too. -/
theorem Preserves.holds (hv : h.Preserves h' v) (hw : h.Holds v w) :
  h.Preserves h' w
  where
  array i hi := hv.array i (Relation.ReflTransGen.head hw hi)
  hash i hi := hv.hash i (Relation.ReflTransGen.head hw hi)

/-- A comparison depends on nothing but what the two values lead to: by induction on the fuel, of
which the comparisons of what they hold get less. -/
theorem Preserves.equalWithin (ha : h.Preserves h' a) (hb : h.Preserves h' b)
    (hr : h.equalWithin n seen a b = some r) :
  h'.equalWithin n seen a b = some r
  := by
  induction n generalizing seen a b r with
  | zero => cases hr
  | succ n ih =>
      cases a
      case array i =>
        cases b
        case array j =>
          simp only [Heap.equalWithin] at hr ⊢
          rw [ha.array i .refl, hb.array j .refl]
          refine ite_parts_mono id .inl (fun _ _ => everyWith_mono fun x hx r => ?_) hr
          obtain ⟨hx₁, hx₂⟩ := List.of_mem_zip hx
          exact ih (ha.holds (.element hx₁)) (hb.holds (.element hx₂))
        all_goals exact hr
      case hash i =>
        cases b
        case hash j =>
          simp only [Heap.equalWithin] at hr ⊢
          rw [ha.hash i .refl, hb.hash j .refl]
          refine ite_parts_mono id .inl (fun _ _ => everyWith_mono fun x hx r hxr => ?_) hr
          -- A key is found in the same place, for the comparisons with it come to the same.
          have hkeys : ∀ y ∈ (h.hash j).toList, ∀ r, h.equalWithin n [] y.1 x.1 = some r →
              h'.equalWithin n [] y.1 x.1 = some r :=
            fun y hy r => ih (hb.holds (.key hy)) (ha.holds (.key hx))
          split at hxr
          · cases hxr
          · rename_i hslot
            rw [slotWith_mono hkeys hslot]
            exact hxr
          · rename_i place hslot
            rw [slotWith_mono hkeys hslot]
            obtain ⟨y, hy, hplace, -⟩ := slotWith_eq_some hslot
            dsimp only
            rw [hplace] at hxr ⊢
            exact ih (ha.holds (.value hx)) (hb.holds (.value hy)) hxr
        all_goals exact hr
      all_goals
        cases b
        all_goals exact hr

/-- A comparison of values that hold the same in both heaps has the same answer. -/
theorem Preserves.equal? (ha : h.Preserves h' a) (hb : h.Preserves h' b)
    (hr : h.equal? a b = some r) :
  h'.equal? a b = some r
  := by
  obtain ⟨n, hn⟩ := equal?_eq_some_iff.mp hr
  exact equal?_eq_some_iff.mpr ⟨n, ha.equalWithin hb hn⟩

/-- What is found equal stays equal where more pairs of containers count as equal. -/
theorem equalWithin_of_subset (hseen : seen ⊆ seen') (hr : h.equalWithin n seen a b = some true) :
  h.equalWithin n seen' a b = some true
  := by
  induction n generalizing seen seen' a b with
  | zero => cases hr
  | succ n ih =>
      have hcons (pair : Container × Container) : pair :: seen ⊆ pair :: seen' :=
        List.cons_subset_cons pair hseen
      have hknown (p : Prop) (pair : Container × Container) : p ∨ pair ∈ seen → p ∨ pair ∈ seen' :=
        Or.imp_right (hseen ·)
      cases a
      case array i =>
        cases b
        case array j =>
          simp only [equalWithin] at hr ⊢
          refine ite_parts_mono (hknown _ _) (fun _ => .inr rfl) (fun _ _ hparts => ?_) hr
          exact everyWith_of_forall fun x hx => ih (hcons _) (everyWith_eq_true hparts x hx)
        all_goals exact hr
      case hash i =>
        cases b
        case hash j =>
          simp only [equalWithin] at hr ⊢
          refine ite_parts_mono (hknown _ _) (fun _ => .inr rfl) (fun _ _ hparts => ?_) hr
          refine everyWith_of_forall fun x hx => ?_
          have hxr := everyWith_eq_true hparts x hx
          split at hxr
          · cases hxr
          · cases hxr
          · exact ih (hcons _) hxr
        all_goals exact hr
      all_goals
        cases b
        all_goals exact hr

/-! ### Maps in the order of insertion -/

/-- Whether equality is an equivalence on the values `S`: it is known of any two of them, and none
of them is NaN. -/
structure Equates (h : Heap) (S : Value → Prop) : Prop where
  answers {a b : Value} : S a → S b → ∃ r, h.equal? a b = some r
  refl {a : Value} : S a → h.equal? a a = some true
  symm {a b : Value} : S a → S b → h.equal? a b = some true → h.equal? b a = some true
  trans {a b c : Value} : S a → S b → S c →
    h.equal? a b = some true → h.equal? b c = some true → h.equal? a c = some true

/-- Equality is an equivalence on fewer values if it is on more. -/
theorem Equates.mono (hT : h.Equates T) (hST : ∀ v, S v → T v) :
  h.Equates S
  where
  answers ha hb := hT.answers (hST _ ha) (hST _ hb)
  refl ha := hT.refl (hST _ ha)
  symm ha hb := hT.symm (hST _ ha) (hST _ hb)
  trans ha hb hc := hT.trans (hST _ ha) (hST _ hb) (hST _ hc)

/-- On plain heaps equality is an equivalence on all values but NaN. -/
theorem Plain.equates (hh : h.Plain) :
  h.Equates fun v => ¬ v.IsNaN
  where
  answers {a b} _ _ := by
    obtain ⟨r, hr, -⟩ := hh.exists_answer a b
    exact ⟨r, hr⟩
  refl ha := hh.equal?_eq_true_iff.mpr (hh.alike_self ha)
  symm _ _ := by
    simp only [hh.equal?_eq_true_iff]
    exact Alike.symm
  trans _ _ _ := by
    simp only [hh.equal?_eq_true_iff]
    exact Alike.trans

/-- The keys of a list, each at the place where it is first, without those that are equal to one
before. -/
def firsts (h : Heap) : List Value → List Value
  | [] => []
  | k :: rest => k :: (h.firsts rest).filter fun k' => h.equal? k k' ≠ some true

/-- The value of the last of the insertions with a key equal to `k`, if there is one. -/
def latest? (h : Heap) (xs : List Insertion) (k : Value) : Option Value :=
  (xs.reverse.find? fun x => h.equal? x.key k = some true).map Insertion.value

variable {ks : List Value} {k k' : Value} {xs ys : List Insertion} {x : Insertion} {pairs : Pairs}

/-- The keys that come first are among the keys. -/
theorem mem_of_mem_firsts (hk : k ∈ h.firsts ks) :
  k ∈ ks
  := by
  induction ks with
  | nil => exact hk
  | cons k₀ rest ih =>
      rcases List.mem_cons.mp hk with rfl | hk
      · exact List.mem_cons_self
      · exact List.mem_cons_of_mem _ (ih (List.mem_filter.mp hk).1)

/-- No two of the keys that come first are equal. -/
theorem pairwise_firsts (h : Heap) (ks : List Value) :
  (h.firsts ks).Pairwise fun k k' => h.equal? k k' ≠ some true
  := by
  induction ks with
  | nil => exact .nil
  | cons k₀ rest ih =>
      refine .cons (fun k hk => ?_) (ih.sublist List.filter_sublist)
      simpa using (List.mem_filter.mp hk).2

/-- Every key is equal to one that is first. -/
theorem Equates.exists_mem_firsts (hS : h.Equates S) (hks : ∀ k ∈ ks, S k) (hk : k ∈ ks) :
  ∃ k' ∈ h.firsts ks, h.equal? k' k = some true
  := by
  induction ks with
  | nil => cases hk
  | cons k₀ rest ih =>
      obtain ⟨hk₀, hrest⟩ := List.forall_mem_cons.mp hks
      rcases List.mem_cons.mp hk with rfl | hk
      · exact ⟨k, List.mem_cons_self, hS.refl hk₀⟩
      · obtain ⟨k', hk', heq⟩ := ih hrest hk
        by_cases hfound : h.equal? k₀ k' = some true
        · have hmem := mem_of_mem_firsts hk'
          exact ⟨k₀, List.mem_cons_self, hS.trans hk₀ (hrest k' hmem) (hrest k hk) hfound heq⟩
        · refine ⟨k', List.mem_cons_of_mem _ (List.mem_filter.mpr ⟨hk', ?_⟩), heq⟩
          simpa using hfound

/-- A key that is equal to none before comes first. -/
theorem firsts_append_of_fresh (hk : ∀ k' ∈ ks, h.equal? k' k ≠ some true) :
  h.firsts (ks ++ [k]) = h.firsts ks ++ [k]
  := by
  induction ks with
  | nil => rfl
  | cons k₀ rest ih =>
      obtain ⟨hk₀, hrest⟩ := List.forall_mem_cons.mp hk
      rw [List.cons_append, firsts, firsts, ih hrest, List.filter_append]
      simp [hk₀]

/-- A key that is equal to one before does not come first. -/
theorem firsts_append_of_found (hk : ∃ k' ∈ ks, h.equal? k' k = some true) :
  h.firsts (ks ++ [k]) = h.firsts ks
  := by
  induction ks with
  | nil =>
      obtain ⟨k', ⟨⟩, -⟩ := hk
  | cons k₀ rest ih =>
      rw [List.cons_append, firsts, firsts]
      by_cases hrest : ∃ k' ∈ rest, h.equal? k' k = some true
      · rw [ih hrest]
      · have hk₀ : h.equal? k₀ k = some true := by
          obtain ⟨k', hk', heq⟩ := hk
          rcases List.mem_cons.mp hk' with rfl | hk'
          · exact heq
          · exact absurd ⟨k', hk', heq⟩ hrest
        rw [firsts_append_of_fresh fun k' hk' heq => hrest ⟨k', hk', heq⟩, List.filter_append]
        simp [hk₀]

/-- The last insertion gives its value to all keys equal to its own. -/
theorem latest?_append (xs : List Insertion) (x : Insertion) (k : Value) :
  h.latest? (xs ++ [x]) k = if h.equal? x.key k = some true then some x.value else h.latest? xs k
  := by
  unfold latest?
  rw [List.reverse_append, List.reverse_singleton, List.singleton_append, List.find?_cons]
  split
  · rename_i heq
    rw [if_pos (by simpa using heq)]
    rfl
  · rename_i heq
    rw [if_neg (by simpa using heq)]

/-- A key has a value exactly if one equal to it was inserted. -/
theorem isSome_latest? :
  (h.latest? xs k).isSome ↔ ∃ x ∈ xs, h.equal? x.key k = some true
  := by
  simp [latest?]

/-- Equal keys have the same value. -/
theorem Equates.latest?_congr (hS : h.Equates S) (hxs : ∀ x ∈ xs, S x.key) (hk : S k) (hk' : S k')
    (hkk' : h.equal? k k' = some true) :
  h.latest? xs k = h.latest? xs k'
  := by
  unfold latest?
  rw [List.find?_congr fun x hx => ?_]
  rw [decide_eq_decide]
  have hx' := hxs x (List.mem_reverse.mp hx)
  constructor
  · exact fun heq => hS.trans hx' hk hk' heq hkk'
  · exact fun heq => hS.trans hx' hk' hk heq (hS.symm hk hk' hkk')

/-! ### What the pairs are -/

/-- Whether pairs are what a map in the order of insertion holds after the insertions: each key that
is first, in order, and the value inserted last for it. -/
structure Lists (h : Heap) (xs : List Insertion) (pairs : Pairs) : Prop where
  keys : pairs.toList.map Prod.fst = h.firsts (xs.map Insertion.key)
  values : ∀ p ∈ pairs.toList, h.latest? xs p.1 = some p.2

/-- Whether what is inserted is among the values `S`, of which none has changed in the meantime. -/
structure Admits (h : Heap) (S : Value → Prop) (x : Insertion) : Prop where
  key : S x.key
  value : S x.value
  preserves : ∀ v, S v → h.Preserves x.heap v

/-- Every key of the pairs was inserted. -/
theorem Lists.exists_mem {p : Value × Value} (hl : h.Lists xs pairs) (hp : p ∈ pairs.toList) :
  ∃ x ∈ xs, x.key = p.1
  := by
  have hfirst : p.1 ∈ h.firsts (xs.map Insertion.key) := by
    rw [← hl.keys]
    exact List.mem_map_of_mem hp
  exact List.mem_map.mp (mem_of_mem_firsts hfirst)

/-- Every key of the pairs is among the values that are compared. -/
theorem Lists.keys_mem {p : Value × Value} (hl : h.Lists xs pairs) (hxs : ∀ x ∈ xs, S x.key)
    (hp : p ∈ pairs.toList) :
  S p.1
  := by
  obtain ⟨x, hx, hkey⟩ := hl.exists_mem hp
  rw [← hkey]
  exact hxs x hx

/-- Every key that was inserted is equal to one of the pairs. -/
theorem Lists.exists_pair (hl : h.Lists xs pairs) (hS : h.Equates S) (hxs : ∀ x ∈ xs, S x.key)
    (hx : x ∈ xs) :
  ∃ p ∈ pairs.toList, h.equal? p.1 x.key = some true
  := by
  obtain ⟨k, hk, heq⟩ :=
    hS.exists_mem_firsts (List.forall_mem_map.mpr hxs) (List.mem_map_of_mem hx)
  rw [← hl.keys] at hk
  obtain ⟨p, hp, rfl⟩ := List.mem_map.mp hk
  exact ⟨p, hp, heq⟩

/-- Different pairs have keys that are found different. -/
theorem Lists.pairwise (hl : h.Lists xs pairs) (hS : h.Equates S) (hxs : ∀ x ∈ xs, S x.key) :
  pairs.toList.Pairwise fun p q => h.equal? p.1 q.1 = some false
  := by
  have hfirsts := h.pairwise_firsts (xs.map Insertion.key)
  rw [← hl.keys, List.pairwise_map] at hfirsts
  refine hfirsts.imp_of_mem fun {p q} hp hq hne => ?_
  obtain ⟨r, hr⟩ := hS.answers (hl.keys_mem hxs hp) (hl.keys_mem hxs hq)
  cases r with
  | true => exact absurd hr hne
  | false => exact hr

/-- Equal keys of the pairs stand in one place. -/
theorem Lists.eq_of_equal {p q : Value × Value} {i j : Nat} (hl : h.Lists xs pairs)
    (hS : h.Equates S) (hxs : ∀ x ∈ xs, S x.key) (hp : pairs[i]? = some p) (hq : pairs[j]? = some q)
    (heq : h.equal? p.1 q.1 = some true) :
  i = j
  := by
  have hmem {i : Nat} {p : Value × Value} (hp : pairs[i]? = some p) : S p.1 := by
    rw [← Array.getElem?_toList] at hp
    exact hl.keys_mem hxs (List.mem_of_getElem? hp)
  have hback := hS.symm (hmem hp) (hmem hq) heq
  have hpairwise := List.pairwise_iff_getElem.mp (hl.pairwise hS hxs)
  obtain ⟨hi, rfl⟩ := Array.getElem?_eq_some_iff.mp hp
  obtain ⟨hj, rfl⟩ := Array.getElem?_eq_some_iff.mp hq
  rcases Nat.lt_trichotomy i j with hlt | rfl | hlt
  · have hne := hpairwise i j hi hj hlt
    rw [Array.getElem_toList, Array.getElem_toList, heq] at hne
    cases hne
  · rfl
  · have hne := hpairwise j i hj hi hlt
    rw [Array.getElem_toList, Array.getElem_toList, hback] at hne
    cases hne

/-- A key is found in the pairs, in whatever heap, if and only if a pair has an equal key. -/
theorem Equates.slot?_cases (hS : h.Equates S) (hpairs : ∀ p ∈ pairs.toList, S p.1) (hk : S k)
    (hh : ∀ v, S v → h.Preserves h' v) :
  (h'.slot? pairs k = some none ∧ ∀ p ∈ pairs.toList, h.equal? p.1 k ≠ some true)
  ∨ ∃ i p, h'.slot? pairs k = some (some i) ∧ p ∈ pairs.toList ∧ pairs[i]? = some p
    ∧ h.equal? p.1 k = some true
  := by
  have hanswer (p : Value × Value) (hp : p ∈ pairs.toList) :
      ∃ r, h'.equal? p.1 k = some r ∧ h.equal? p.1 k = some r := by
    obtain ⟨r, hr⟩ := hS.answers (hpairs p hp) hk
    exact ⟨r, (hh _ (hpairs p hp)).equal? (hh _ hk) hr, hr⟩
  obtain ⟨slot, hslot⟩ : ∃ slot, h'.slot? pairs k = some slot := by
    refine exists_slotWith fun p hp => ?_
    obtain ⟨r, hr, -⟩ := hanswer p hp
    exact ⟨r, hr⟩
  cases slot with
  | none =>
      refine .inl ⟨hslot, fun p hp heq => ?_⟩
      obtain ⟨r, hr, hr'⟩ := hanswer p hp
      rw [slotWith_eq_none hslot p hp] at hr
      rw [heq, ← hr] at hr'
      cases hr'
  | some i =>
      obtain ⟨p, hp, hi, hfound⟩ := slotWith_eq_some hslot
      obtain ⟨r, hr, hr'⟩ := hanswer p hp
      exact .inr ⟨i, p, hslot, hp, hi, by rw [hr', ← hr, hfound]⟩

/-- What is found is what was inserted last. -/
theorem Lists.found (hl : h.Lists xs pairs) (hS : h.Equates S) (hxs : ∀ x ∈ xs, S x.key) (hk : S k)
    (hh : ∀ v, S v → h.Preserves h' v) :
  h'.find? pairs k = some (h.latest? xs k) ∧ h'.contains? pairs k = some (h.latest? xs k).isSome
  := by
  unfold Heap.find? Heap.contains?
  rcases hS.slot?_cases (fun p hp => hl.keys_mem hxs hp) hk hh with
    ⟨hslot, hfresh⟩ | ⟨i, p, hslot, hp, hi, heq⟩
  · have hnone : ¬ (h.latest? xs k).isSome := by
      rw [isSome_latest?]
      rintro ⟨x, hx, hxk⟩
      obtain ⟨p, hp, hpx⟩ := hl.exists_pair hS hxs hx
      exact hfresh p hp (hS.trans (hl.keys_mem hxs hp) (hxs x hx) hk hpx hxk)
    rw [hslot, Option.not_isSome_iff_eq_none.mp hnone]
    exact ⟨rfl, rfl⟩
  · rw [hslot, ← hS.latest?_congr hxs (hl.keys_mem hxs hp) hk heq, hl.values p hp]
    simp [hi]

/-! ### One insertion more -/

/-- Without insertions there are no pairs. -/
theorem lists_nil :
  h.Lists [] #[]
  := ⟨rfl, List.forall_mem_nil _⟩

/-- A key that is new is put behind the others. -/
theorem Lists.push (hl : h.Lists xs pairs) (hS : h.Equates S) (hxs : ∀ x ∈ xs, S x.key)
    (hx : S x.key) (hfresh : ∀ p ∈ pairs.toList, h.equal? p.1 x.key ≠ some true) :
  h.Lists (xs ++ [x]) (pairs.push (x.key, x.value))
  := by
  have hnew : ∀ x' ∈ xs, h.equal? x'.key x.key ≠ some true := by
    intro x' hx' heq
    obtain ⟨p, hp, hpx⟩ := hl.exists_pair hS hxs hx'
    exact hfresh p hp (hS.trans (hl.keys_mem hxs hp) (hxs x' hx') hx hpx heq)
  constructor
  · rw [Array.toList_push, List.map_append, hl.keys, List.map_append]
    exact (firsts_append_of_fresh (List.forall_mem_map.mpr hnew)).symm
  · rw [Array.toList_push]
    intro p hp
    rw [latest?_append]
    rcases List.mem_append.mp hp with hp | hp
    · have hpS := hl.keys_mem hxs hp
      rw [if_neg fun heq => hfresh p hp (hS.symm hx hpS heq)]
      exact hl.values p hp
    · obtain rfl := List.mem_singleton.mp hp
      rw [if_pos (hS.refl hx)]

/-- A key that is there already stays where it is and as it is. -/
theorem Lists.modify {i : Nat} {p : Value × Value} (hl : h.Lists xs pairs) (hS : h.Equates S)
    (hxs : ∀ x ∈ xs, S x.key) (hx : S x.key) (hp : p ∈ pairs.toList) (hi : pairs[i]? = some p)
    (heq : h.equal? p.1 x.key = some true) :
  h.Lists (xs ++ [x]) (pairs.modify i fun q => (q.1, x.value))
  := by
  have hpS := hl.keys_mem hxs hp
  constructor
  · have hfound : ∃ k ∈ xs.map Insertion.key, h.equal? k x.key = some true := by
      obtain ⟨x', hx', hkey⟩ := hl.exists_mem hp
      exact ⟨p.1, hkey ▸ List.mem_map_of_mem hx', heq⟩
    rw [List.map_append, List.map_singleton, firsts_append_of_found hfound, ← hl.keys,
      Array.toList_modify]
    apply List.ext_getElem
    · simp
    · intro j _ _
      simp only [List.getElem_map, List.getElem_modify]
      split
      all_goals rfl
  · intro q hq
    rw [latest?_append]
    obtain ⟨j, hj, rfl⟩ := List.getElem_of_mem hq
    simp only [Array.toList_modify, List.getElem_modify] at hj ⊢
    simp only [List.length_modify, Array.length_toList] at hj
    have hq : pairs[j]? = some pairs.toList[j] := by
      rw [← Array.getElem?_toList, List.getElem?_eq_getElem]
    split
    next hij =>
      subst hij
      obtain rfl : p = pairs.toList[i] := Option.some.inj (hi.symm.trans hq)
      rw [if_pos (hS.symm hpS hx heq)]
    next hij =>
      have hmem : pairs.toList[j] ∈ pairs.toList := List.getElem_mem _
      rw [if_neg fun hback => hij ?_]
      · exact hl.values _ hmem
      · exact hl.eq_of_equal hS hxs hi hq (hS.trans hpS hx (hl.keys_mem hxs hmem) heq hback)

/-- One insertion more makes the pairs of one insertion more. -/
theorem Admits.lists (hx : h.Admits S x) (hl : h.Lists xs pairs) (hS : h.Equates S)
    (hxs : ∀ x ∈ xs, S x.key) :
  ∃ pairs', x.heap.insert? pairs x.key x.value = some pairs' ∧ h.Lists (xs ++ [x]) pairs'
  := by
  unfold Heap.insert?
  rcases hS.slot?_cases (fun p hp => hl.keys_mem hxs hp) hx.key hx.preserves with
    ⟨hslot, hfresh⟩ | ⟨i, p, hslot, hp, hi, heq⟩
  · rw [hslot]
    exact ⟨_, rfl, hl.push hS hxs hx.key hfresh⟩
  · rw [hslot]
    exact ⟨_, rfl, hl.modify hS hxs hx.key hp hi heq⟩

/-- Insertions come to pairs that list them: by induction on the insertions, the last one of which
is made into what the others have made. -/
theorem Equates.exists_lists (hS : h.Equates S) (hxs : ∀ x ∈ xs, h.Admits S x) :
  ∃ pairs, Insertion.pairs? xs = some pairs ∧ h.Lists xs pairs
  := by
  induction xs using List.reverseRecOn with
  | nil => exact ⟨#[], rfl, lists_nil⟩
  | append_singleton xs x ih =>
      obtain ⟨hinit, hlast⟩ := List.forall_mem_append.mp hxs
      obtain ⟨pairs, hpairs, hl⟩ := ih hinit
      have hx := List.forall_mem_singleton.mp hlast
      obtain ⟨pairs', hinsert, hl'⟩ := hx.lists hl hS fun x hx => (hinit x hx).key
      refine ⟨pairs', ?_, hl'⟩
      unfold Insertion.pairs? at hpairs ⊢
      rw [List.foldlM_append, hpairs]
      simp [hinsert]

/-! ### Equal hashes -/

/-- Whether the values that belong to a key are equal after both sequences of insertions. -/
def Agree (h : Heap) (S : Value → Prop) (xs ys : List Insertion) : Prop :=
  ∀ k, S k → Option.Rel (fun v w => h.equal? v w = some true) (h.latest? xs k) (h.latest? ys k)

/-- The value of a key is among the values that are compared. -/
theorem latest?_mem (hxs : ∀ x ∈ xs, h.Admits S x) (hv : h.latest? xs k = some v) :
  S v
  := by
  obtain ⟨x, hx, rfl⟩ := Option.map_eq_some_iff.mp hv
  exact (hxs x (List.mem_reverse.mp (List.mem_of_find?_eq_some hx))).value

/-- If the values after some insertions agree with those after others, then the others agree with
them. -/
theorem Agree.symm (hagree : h.Agree S xs ys) (hS : h.Equates S) (hxs : ∀ x ∈ xs, h.Admits S x)
    (hys : ∀ y ∈ ys, h.Admits S y) :
  h.Agree S ys xs
  := by
  intro k hk
  have hrel := hagree k hk
  cases hx : h.latest? xs k with
  | none =>
      rw [hx] at hrel
      cases hy : h.latest? ys k with
      | none => exact .none
      | some w =>
          rw [hy] at hrel
          cases hrel
  | some v =>
      rw [hx] at hrel
      cases hy : h.latest? ys k with
      | none =>
          rw [hy] at hrel
          cases hrel
      | some w =>
          rw [hy] at hrel
          cases hrel with
          | some heq => exact .some (hS.symm (latest?_mem hxs hx) (latest?_mem hys hy) heq)

section

variable {pairs' : Pairs} {p q : Value × Value} (hl : h.Lists xs pairs) (hl' : h.Lists ys pairs')
  (hS : h.Equates S) (hxs : ∀ x ∈ xs, h.Admits S x) (hys : ∀ y ∈ ys, h.Admits S y)
  (hagree : h.Agree S xs ys)

include hl hl' hS hxs hys hagree

/-- Each key of the one hash is equal to one of the other. -/
theorem Lists.exists_partner (hp : p ∈ pairs.toList) :
  ∃ q ∈ pairs'.toList, h.equal? q.1 p.1 = some true
  := by
  have hpS := hl.keys_mem (fun x hx => (hxs x hx).key) hp
  have hsome : (h.latest? ys p.1).isSome := by
    have hrel := hagree p.1 hpS
    rw [hl.values p hp] at hrel
    generalize h.latest? ys p.1 = found at hrel ⊢
    cases hrel
    rfl
  obtain ⟨y, hy, hyp⟩ := isSome_latest?.mp hsome
  have hys' : ∀ y ∈ ys, S y.key := fun y hy => (hys y hy).key
  obtain ⟨q, hq, hqy⟩ := hl'.exists_pair hS hys' hy
  exact ⟨q, hq, hS.trans (hl'.keys_mem hys' hq) (hys' y hy) hpS hqy hyp⟩

/-- Equal keys have equal values. -/
theorem Lists.values_equal (hp : p ∈ pairs.toList) (hq : q ∈ pairs'.toList)
    (heq : h.equal? q.1 p.1 = some true) :
  h.equal? p.2 q.2 = some true
  := by
  have hys' : ∀ y ∈ ys, S y.key := fun y hy => (hys y hy).key
  have hpS := hl.keys_mem (fun x hx => (hxs x hx).key) hp
  have hrel := hagree p.1 hpS
  rw [hl.values p hp, ← hS.latest?_congr hys' (hl'.keys_mem hys' hq) hpS heq, hl'.values q hq]
    at hrel
  cases hrel with
  | some heq => exact heq

/-- If the values of all keys agree, then there are no more pairs on the one side than on the
other. -/
theorem Lists.size_le :
  pairs.size ≤ pairs'.size
  := by
  have hxs' : ∀ x ∈ xs, S x.key := fun x hx => (hxs x hx).key
  have hys' : ∀ y ∈ ys, S y.key := fun y hy => (hys y hy).key
  have hcover : ∀ p ∈ pairs.toList, ∃ q ∈ pairs'.toList, S q.1 ∧ h.equal? q.1 p.1 = some true := by
    intro p hp
    obtain ⟨q, hq, hqp⟩ := hl.exists_partner hl' hS hxs hys hagree hp
    exact ⟨q, hq, hl'.keys_mem hys' hq, hqp⟩
  refine (partners hcover ((hl.pairwise hS hxs').imp_of_mem ?_)).1
  rintro p p' hp hp' hne q ⟨hq, hqp⟩ ⟨-, hqp'⟩
  have hpS := hl.keys_mem hxs' hp
  rw [hS.trans hpS hq (hl.keys_mem hxs' hp') (hS.symm hq hpS hqp) hqp'] at hne
  cases hne

/-- Hashes with equal values for each key are equal. -/
theorem Lists.equal? (hh : ∀ v, S v → h.Preserves h' v) {i j : Nat} (hi : h'.hash i = pairs)
    (hj : h'.hash j = pairs') :
  h'.equal? (.hash i) (.hash j) = some true
  := by
  have hxs' : ∀ x ∈ xs, S x.key := fun x hx => (hxs x hx).key
  have hys' : ∀ y ∈ ys, S y.key := fun y hy => (hys y hy).key
  have hsize : pairs.size = pairs'.size := by
    apply Nat.le_antisymm
    · exact hl.size_le hl' hS hxs hys hagree
    · exact hl'.size_le hl hS hys hxs (hagree.symm hS hxs hys)
  refine equal?_eq_some_iff.mpr ⟨h'.comparisons + 1, ?_⟩
  simp only [equalWithin, hi, hj, if_pos hsize]
  split
  next => rfl
  next =>
    refine everyWith_of_forall fun p hp => ?_
    have hpS := hl.keys_mem hxs' hp
    rcases hS.slot?_cases (fun q hq => hl'.keys_mem hys' hq) hpS hh with
      ⟨-, hfresh⟩ | ⟨place, q, hslot, hq, hplace, heq⟩
    · obtain ⟨q, hq, heq⟩ := hl.exists_partner hl' hS hxs hys hagree hp
      exact absurd heq (hfresh q hq)
    · have hvalue := hl.values_equal hl' hS hxs hys hagree hp hq heq
      have hpv : S p.2 := latest?_mem hxs (hl.values p hp)
      have hqv : S q.2 := latest?_mem hys (hl'.values q hq)
      change slotWith (fun k => h'.equalWithin h'.comparisons [] k p.1) pairs' = _ at hslot
      rw [hslot]
      dsimp only
      rw [hplace]
      exact equalWithin_of_subset (List.nil_subset _) ((hh _ hpv).equal? (hh _ hqv) hvalue)

end

/-- A hash that comes about by insertions is a map in the order of insertion, if equality is an
equivalence on what is inserted and none of it changes meanwhile.  A look-up finds the value that
was inserted last for an equal key; there are as many pairs as different keys, which are found
different from one another, and they stand in the order in which they came in, each as it was then,
with the value inserted last.  So hashes with equal values for each key are equal. -/
theorem Equates.insertions (hS : h.Equates S) (hxs : ∀ x ∈ xs, h.Admits S x) :
  ∃ pairs, Insertion.pairs? xs = some pairs
    ∧ pairs.toList.map Prod.fst = h.firsts (xs.map Insertion.key)
    ∧ (∀ p ∈ pairs.toList, h.latest? xs p.1 = some p.2)
    ∧ pairs.size = (h.firsts (xs.map Insertion.key)).length
    ∧ (pairs.toList.Pairwise fun p q => h.equal? p.1 q.1 = some false)
    ∧ (∀ x ∈ xs, ∃ p ∈ pairs.toList, h.equal? p.1 x.key = some true)
    ∧ (∀ h' k, S k → (∀ v, S v → h.Preserves h' v) →
      h'.find? pairs k = some (h.latest? xs k)
      ∧ h'.contains? pairs k = some (h.latest? xs k).isSome)
    ∧ ∀ ys pairs', (∀ y ∈ ys, h.Admits S y) → Insertion.pairs? ys = some pairs' →
      h.Agree S xs ys →
      ∀ h' i j, (∀ v, S v → h.Preserves h' v) → h'.hash i = pairs → h'.hash j = pairs' →
        h'.equal? (.hash i) (.hash j) = some true
  := by
  have hkeys : ∀ x ∈ xs, S x.key := fun x hx => (hxs x hx).key
  obtain ⟨pairs, hpairs, hl⟩ := hS.exists_lists hxs
  refine ⟨pairs, hpairs, hl.keys, hl.values, ?_, hl.pairwise hS hkeys,
    fun x hx => hl.exists_pair hS hkeys hx, fun h' k hk hh => hl.found hS hkeys hk hh, ?_⟩
  · rw [← hl.keys, List.length_map, Array.length_toList]
  · intro ys pairs' hys hpairs' hagree h' i j hh hi hj
    obtain ⟨_, heq, hl'⟩ := hS.exists_lists hys
    rw [hpairs'] at heq
    cases heq
    exact hl.equal? hl' hS hxs hys hagree hh hi hj

/-- Two arrays of one text each. -/
def doubled : Heap :=
  ⟨#[#[.str "a"], #[.str "a"]], #[], #[]⟩

/-- Both arrays hold the text alone. -/
theorem eq_of_holds_doubled (hw : doubled.Holds v w) :
  w = .str "a"
  := by
  rcases hw with @⟨i, _, hw⟩ | @⟨i, _, hw⟩ | @⟨i, _, hw⟩
  · rcases i with _ | _ | i
    · simpa [doubled, array] using hw
    · simpa [doubled, array] using hw
    · simp [doubled, array] at hw
  all_goals simp [doubled, hash] at hw

/-- The two arrays hold no NaN, and there is no hash. -/
theorem plain_doubled :
  doubled.Plain
  where
  numbers := by
    rintro v w hw
    rw [eq_of_holds_doubled hw]
    exact id
  keys i x hx := by simp [doubled, hash] at hx
  distinct i := by simp [doubled, hash]

/-- The arrays, a text and values that are no containers. -/
def Doubled (v : Value) : Prop :=
  v ∈ [.array 0, .array 1, .str "k", .null, .bool true, .bool false]

/-- The arrays hold the same whatever hashes there are. -/
theorem preserves_doubled (hashes : Array Pairs) (hv : Doubled v) :
  doubled.Preserves ⟨doubled.arrays, hashes, #[]⟩ v
  where
  array _ _ := rfl
  hash i hi := by
    rcases Relation.ReflTransGen.cases_tail hi with heq | ⟨w, -, hw⟩
    · simp [Doubled, ← heq] at hv
    · cases eq_of_holds_doubled hw

/-- A key is inserted twice, as two arrays, in the one order and in the other. -/
theorem Equates.insertions_twice :
  let xs : List Insertion :=
    [⟨doubled, .array 0, .null⟩, ⟨⟨doubled.arrays, #[#[]], #[]⟩, .str "k", .bool true⟩,
      ⟨doubled, .array 1, .bool false⟩]
  let ys : List Insertion :=
    [⟨doubled, .str "k", .bool true⟩, ⟨doubled, .array 1, .bool false⟩]
  doubled.Equates Doubled ∧ (∀ x ∈ xs, doubled.Admits Doubled x)
  ∧ ∃ pairs pairs', Insertion.pairs? xs = some pairs ∧ Insertion.pairs? ys = some pairs'
    ∧ pairs.toList.map Prod.fst = [.array 0, .str "k"]
    ∧ pairs'.toList.map Prod.fst = [.str "k", .array 1]
    ∧ doubled.find? pairs (.array 1) = some (some (.bool false))
    ∧ (⟨doubled.arrays, #[pairs, pairs'], #[]⟩ : Heap).equal? (.hash 0) (.hash 1) = some true
  := by
  intro xs ys
  have hS : doubled.Equates Doubled := by
    refine plain_doubled.equates.mono fun v hv => ?_
    simp only [Doubled, List.mem_cons, List.not_mem_nil, or_false] at hv
    rcases hv with rfl | rfl | rfl | rfl | rfl | rfl
    all_goals exact id
  have hadmits (hashes : Array Pairs) {k v : Value} (hk : Doubled k) (hv : Doubled v) :
      doubled.Admits Doubled ⟨⟨doubled.arrays, hashes, #[]⟩, k, v⟩ :=
    ⟨hk, hv, fun _ => preserves_doubled hashes⟩
  have hxs : ∀ x ∈ xs, doubled.Admits Doubled x := by
    simp only [xs, List.forall_mem_cons, List.not_mem_nil, false_implies, implies_true, and_true]
    refine ⟨hadmits #[] ?_ ?_, hadmits #[#[]] ?_ ?_, hadmits #[] ?_ ?_⟩
    all_goals simp [Doubled]
  have hys : ∀ y ∈ ys, doubled.Admits Doubled y := by
    simp only [ys, List.forall_mem_cons, List.not_mem_nil, false_implies, implies_true, and_true]
    refine ⟨hadmits #[] ?_ ?_, hadmits #[] ?_ ?_⟩
    all_goals simp [Doubled]
  have hagree : doubled.Agree Doubled xs ys := by
    intro k hk
    simp only [Doubled, List.mem_cons, List.not_mem_nil, or_false] at hk
    rcases hk with rfl | rfl | rfl | rfl | rfl | rfl
    · exact .some rfl
    · exact .some rfl
    · exact .some rfl
    all_goals exact .none
  obtain ⟨pairs, hpairs, hfirsts, -, -, -, -, hfound, hequal⟩ := hS.insertions hxs
  obtain ⟨pairs', hpairs', hfirsts', -⟩ := hS.insertions hys
  have hsame : ∀ v, Doubled v → doubled.Preserves doubled v := fun _ => preserves_doubled #[]
  have hfind := (hfound doubled (.array 1) (by simp [Doubled]) hsame).1
  exact ⟨hS, hxs, pairs, pairs', hpairs, hpairs', hfirsts, hfirsts', hfind,
    hequal ys pairs' hys hpairs' hagree _ 0 1 (fun _ => preserves_doubled _) rfl rfl⟩

end Heap

end Scriptlet
