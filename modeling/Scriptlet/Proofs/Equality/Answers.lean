import Scriptlet.Proofs.Equality
import Scriptlet.Proofs.Equality.Bisimilarity

/-!
# What an answer says

An answer of a comparison says whether the two values are alike, provided that no hash on the way
has two keys that are alike.  Such keys make the difference because a comparison of hashes looks up
the keys of the one in the other and never the other way round: with as many pairs on both sides,
that is enough only if different keys are found in different places.
-/

namespace Scriptlet

/-! ### Answers about lists -/

/-- If the answer for all of a list is yes, then it is for each element. -/
theorem everyWith_eq_true {α : Type} {p : α → Option Bool} {l : List α}
    (hp : everyWith p l = some true) :
  ∀ x ∈ l, p x = some true
  := by
  induction l with
  | nil => exact List.forall_mem_nil _
  | cons x xs ih =>
      simp only [everyWith] at hp
      split at hp
      · cases hp
      · exact List.forall_mem_cons.mpr ⟨‹_›, ih hp⟩
      · cases hp

/-- If the answer for all of a list is no, then it is for some element. -/
theorem everyWith_eq_false {α : Type} {p : α → Option Bool} {l : List α}
    (hp : everyWith p l = some false) :
  ∃ x ∈ l, p x = some false
  := by
  induction l with
  | nil => cases hp
  | cons x xs ih =>
      simp only [everyWith] at hp
      split at hp
      · cases hp
      · obtain ⟨y, hy, hpy⟩ := ih hp
        exact ⟨y, List.mem_cons_of_mem _ hy, hpy⟩
      · exact ⟨x, List.mem_cons_self, ‹_›⟩

/-- The place of a key that is found is that of a pair with the key. -/
theorem slotWith_eq_some {p : Value → Option Bool} {pairs : Pairs} {place : Nat}
    (hp : slotWith p pairs = some (some place)) :
  ∃ y ∈ pairs.toList, pairs[place]? = some y ∧ p y.1 = some true
  := by
  have key (l : List (Value × Value)) (k : Nat) (hgo : slotWith.go p k l = some (some place)) :
    k ≤ place ∧ ∃ y, l[place - k]? = some y ∧ p y.1 = some true
    := by
    induction l generalizing k with
    | nil => cases hgo
    | cons x xs ih =>
        simp only [slotWith.go] at hgo
        split at hgo
        · cases hgo
        · cases hgo
          exact ⟨Nat.le_refl _, x, by simp, ‹_›⟩
        · obtain ⟨hle, y, hy, hpy⟩ := ih (k + 1) hgo
          refine ⟨by omega, y, ?_, hpy⟩
          rw [show place - k = place - (k + 1) + 1 by omega]
          exact hy
  obtain ⟨-, y, hy, hpy⟩ := key pairs.toList 0 hp
  exact ⟨y, List.mem_of_getElem? hy, by simpa using hy, hpy⟩

/-- If no slot is found, then the answer for each key is no. -/
theorem slotWith_eq_none {p : Value → Option Bool} {pairs : Pairs}
    (hp : slotWith p pairs = some none) :
  ∀ y ∈ pairs.toList, p y.1 = some false
  := by
  have key (l : List (Value × Value)) (k : Nat) (hgo : slotWith.go p k l = some none) :
    ∀ y ∈ l, p y.1 = some false
    := by
    induction l generalizing k with
    | nil => exact List.forall_mem_nil _
    | cons x xs ih =>
        simp only [slotWith.go] at hgo
        split at hgo
        · cases hgo
        · cases hgo
        · exact List.forall_mem_cons.mpr ⟨‹_›, ih (k + 1) hgo⟩
  exact key pairs.toList 0 hp

/-- If each of a list has a partner in another one and no two have the same, then the other list is
no shorter; and if it is no longer either, then each of its members is a partner. -/
theorem partners {P : Value × Value → Value × Value → Prop} {l l' : List (Value × Value)}
    (hcover : ∀ x ∈ l, ∃ y ∈ l', P x y)
    (hdistinct : l.Pairwise fun x x' => ∀ y, P x y → ¬ P x' y) :
  l.length ≤ l'.length ∧ (l'.length ≤ l.length → ∀ y ∈ l', ∃ x ∈ l, P x y)
  := by
  have : Nonempty (Value × Value) := ⟨(.null, .null)⟩
  choose! f hmem hf using hcover
  have hnodup : (l.map f).Nodup := by
    rw [List.Nodup, List.pairwise_map]
    refine hdistinct.imp_of_mem ?_
    intro x x' hx hx' hxx' heq
    exact hxx' (f x) (hf x hx) (heq ▸ hf x' hx')
  have hsub : (l.map f).Subperm l' := by
    refine List.subperm_of_subset hnodup ?_
    intro y hy
    obtain ⟨x, hx, rfl⟩ := List.mem_map.mp hy
    exact hmem x hx
  refine ⟨by simpa using hsub.length_le, fun hlength y hy => ?_⟩
  have hperm := hsub.perm_of_length_le (by simpa using hlength)
  obtain ⟨x, hx, rfl⟩ := List.mem_map.mp (hperm.mem_iff.mpr hy)
  exact ⟨x, hx, hf x hx⟩

namespace Heap

variable {h : Heap} {a b v w : Value} {seen : List (Container × Container)} {n i j : Nat}

/-! ### Keys that are not alike -/

/-- Whether no two keys of hash `i` are alike. -/
def KeysApart (h : Heap) (i : Nat) : Prop :=
  (h.hash i).toList.Pairwise fun x y => ¬ h.Alike x.1 y.1

/-- Whether no hash that a value leads to has two keys that are alike. -/
def DistinctKeys (h : Heap) (v : Value) : Prop :=
  ∀ i, h.Leads v (.hash i) → h.KeysApart i

/-- If the keys in what a value leads to differ, then they do in what the value holds. -/
theorem DistinctKeys.holds (hv : h.DistinctKeys v) (hw : h.Holds v w) :
  h.DistinctKeys w
  := by
  intro i hi
  exact hv i (Relation.ReflTransGen.head hw hi)

/-- Keys of a hash without keys that are alike are the same if they are alike. -/
theorem KeysApart.eq {x y : Value × Value} (hi : h.KeysApart i) (hx : x ∈ (h.hash i).toList)
    (hy : y ∈ (h.hash i).toList) (hxy : h.Alike x.1 y.1) :
  x = y
  := by
  have : Std.Symm fun x y : Value × Value => ¬ h.Alike x.1 y.1 :=
    ⟨fun _ _ hxy hyx => hxy hyx.symm⟩
  by_contra hne
  exact List.Pairwise.forall hi hx hy hne hxy

/-- Where the keys of hash `i` are apart, they are not all found in a smaller hash; and in a hash
of the same size every pair is found. -/
theorem KeysApart.covers (hi : h.KeysApart i) {R : Value → Value → Prop}
    (hcover : ∀ x ∈ (h.hash i).toList,
      ∃ y ∈ (h.hash j).toList, h.Alike x.1 y.1 ∧ R x.2 y.2) :
  (h.hash i).size ≤ (h.hash j).size
  ∧ ((h.hash j).size ≤ (h.hash i).size →
    ∀ y ∈ (h.hash j).toList, ∃ x ∈ (h.hash i).toList, h.Alike x.1 y.1 ∧ R x.2 y.2)
  := by
  refine partners hcover (hi.imp ?_)
  intro x x' hxx' y hy hy'
  exact hxx' (hy.1.trans hy'.1.symm)

/-! ### Answers that two values are equal -/

/-- A pair that is the same container twice, or under comparison, is granted. -/
theorem mem_granted (pair : Container × Container) (hpair : pair.1 = pair.2 ∨ pair ∈ seen) :
  Granted seen pair.1.value pair.2.value
  := ⟨pair, hpair, rfl, rfl⟩

/-- Values that a comparison finds equal are alike if the pairs around it are: by induction on the
fuel, of which the comparisons of keys get less as well as those of elements and values. -/
theorem alikeIf_of_equalWithin (ha : h.DistinctKeys a) (hb : h.DistinctKeys b)
    (hr : h.equalWithin n seen a b = some true) :
  h.AlikeIf seen a b
  := by
  induction n generalizing seen a b with
  | zero => cases hr
  | succ n ih =>
      rcases h.pair_cases a b with ⟨i, j, rfl, rfl⟩ | ⟨i, j, rfl, rfl⟩ | ⟨hlook, hanswer⟩
      · simp only [equalWithin] at hr
        split at hr
        next hpair =>
          refine alikeIf_of_granted (mem_granted (.array i, .array j) ?_)
          exact hpair.imp_left (congrArg _)
        next =>
          split at hr
          next hsize =>
            refine AlikeIf.of_granted (.array i, .array j) ?_
            refine List.forall₂_iff_zip.mpr ⟨hsize, fun {x y} hxy => ?_⟩
            obtain ⟨hx, hy⟩ := List.of_mem_zip hxy
            exact ih (ha.holds (.element hx)) (hb.holds (.element hy))
              (everyWith_eq_true hr (x, y) hxy)
          next => cases hr
      · simp only [equalWithin] at hr
        split at hr
        next hpair =>
          refine alikeIf_of_granted (mem_granted (.hash i, .hash j) ?_)
          exact hpair.imp_left (congrArg _)
        next =>
          split at hr
          next hsize =>
            have hcover : ∀ x ∈ (h.hash i).toList, ∃ y ∈ (h.hash j).toList,
                h.Alike x.1 y.1 ∧ h.AlikeIf ((.hash i, .hash j) :: seen) x.2 y.2 := by
              intro x hx
              have hxr := everyWith_eq_true hr x hx
              split at hxr
              · cases hxr
              · cases hxr
              · rename_i place hslot
                obtain ⟨y, hy, hplace, hkey⟩ := slotWith_eq_some hslot
                refine ⟨y, hy, ?_, ?_⟩
                · exact Alike.symm (ih (hb.holds (.key hy)) (ha.holds (.key hx)) hkey)
                · rw [hplace] at hxr
                  exact ih (ha.holds (.value hx)) (hb.holds (.value hy)) hxr
            -- Different keys have different counterparts, and there are as many, so none is left
            -- over.
            have hback := ((ha i .refl).covers hcover).2 (Nat.le_of_eq hsize.symm)
            refine AlikeIf.of_granted (.hash i, .hash j) ⟨?_, ?_⟩
            · intro x hx
              obtain ⟨y, hy, hkey, hvalue⟩ := hcover x hx
              exact ⟨y, hy, hkey.alikeIf _, hvalue⟩
            · intro y hy
              obtain ⟨x, hx, hkey, hvalue⟩ := hback y hy
              exact ⟨x, hx, hkey.alikeIf _, hvalue⟩
          next => cases hr
      · obtain ⟨r, hr', hagrees⟩ := hanswer n seen
        obtain rfl : r = true := Option.some.inj (hr'.symm.trans hr)
        refine alikeIf_of_matches ?_
        rw [hlook]
        exact hagrees.mp rfl

/-! ### Answers that two values are not equal -/

/-- Values that are alike are not found different: a key that is looked up is only found where the
key alike to it stands. -/
theorem equalWithin_ne_false (ha : h.DistinctKeys a) (hb : h.DistinctKeys b)
    (hab : h.Alike a b) :
  h.equalWithin n seen a b ≠ some false
  := by
  induction n generalizing seen a b with
  | zero => simp [equalWithin]
  | succ n ih =>
      intro hr
      rcases h.pair_cases a b with ⟨i, j, rfl, rfl⟩ | ⟨i, j, rfl, rfl⟩ | ⟨hlook, hanswer⟩
      · simp only [equalWithin] at hr
        split at hr
        next => cases hr
        next hpair =>
          rcases hab.eq_or_matches with ⟨c, hi, hj⟩ | hmatch
          · exact hpair (.inl (Value.array.inj (hi.trans hj.symm)))
          · obtain ⟨hsize, hparts⟩ := List.forall₂_iff_zip.mp hmatch
            rw [Array.length_toList, Array.length_toList] at hsize
            rw [if_pos hsize] at hr
            obtain ⟨⟨x, y⟩, hxy, hne⟩ := everyWith_eq_false hr
            obtain ⟨hx, hy⟩ := List.of_mem_zip hxy
            exact ih (ha.holds (.element hx)) (hb.holds (.element hy)) (hparts hxy) hne
      · simp only [equalWithin] at hr
        split at hr
        next => cases hr
        next hpair =>
          rcases hab.eq_or_matches with ⟨c, hi, hj⟩ | ⟨hcover, hback⟩
          · exact hpair (.inl (Value.hash.inj (hi.trans hj.symm)))
          · have hle := ((ha i .refl).covers hcover).1
            have hge := ((hb j .refl).covers (R := flip h.Alike) fun y hy => by
              obtain ⟨x, hx, hkey, hvalue⟩ := hback y hy
              exact ⟨x, hx, Alike.symm hkey, hvalue⟩).1
            rw [if_pos (Nat.le_antisymm hle hge)] at hr
            obtain ⟨x, hx, hne⟩ := everyWith_eq_false hr
            obtain ⟨y, hy, hkey, hvalue⟩ := hcover x hx
            split at hne
            · cases hne
            · rename_i hslot
              exact ih (hb.holds (.key hy)) (ha.holds (.key hx)) hkey.symm
                (slotWith_eq_none hslot y hy)
            · rename_i place hslot
              obtain ⟨z, hz, hplace, hfound⟩ := slotWith_eq_some hslot
              have hzx : h.Alike z.1 x.1 :=
                alikeIf_of_equalWithin (hb.holds (.key hz)) (ha.holds (.key hx)) hfound
              -- The key that is found is alike to the one that the other hash has for it, so it is
              -- that one.
              obtain rfl : z = y := (hb j .refl).eq hz hy (hzx.trans hkey)
              rw [hplace] at hne
              exact ih (ha.holds (.value hx)) (hb.holds (.value hz)) hvalue hne
      · obtain ⟨r, hr', hagrees⟩ := hanswer n seen
        obtain rfl : r = false := Option.some.inj (hr'.symm.trans hr)
        rcases hab.eq_or_matches with ⟨c, rfl, rfl⟩ | hmatch
        · cases c
          all_goals simp [equalWithin, Container.value] at hr
        · rw [hlook] at hmatch
          cases hagrees.mpr hmatch

/-- An answer says whether the two values are alike. -/
theorem equal?_eq_some_iff_alike (ha : h.DistinctKeys a) (hb : h.DistinctKeys b) {r : Bool}
    (hr : h.equal? a b = some r) :
  r = true ↔ h.Alike a b
  := by
  constructor
  · rintro rfl
    exact alikeIf_of_equalWithin ha hb hr
  · intro hab
    cases r with
    | true => rfl
    | false => exact absurd hr (equalWithin_ne_false ha hb hab)

end Heap

end Scriptlet
